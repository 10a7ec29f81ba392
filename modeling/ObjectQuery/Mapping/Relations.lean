import ObjectQuery.Columns
import ObjectQuery.Mapping.Basic
import ObjectQuery.Tree.Basic
import ObjectQuery.Tree.Member

/-!
The relations that a mapping stands for: a select over the table of an entity, a select correlated
with an entity along an association, and the commands that write an entity's columns.
-/

namespace ObjectQuery

abbrev Minting (ε : Type) := StateT Supply (Except ε)

namespace Mapping

namespace Entity

def freshTable (e : Entity) : Mint Table := do
  return { rel := ← Supply.freshAlias, entity := e.name, name := e.table }

def column (t : Table) (m : Member) : Column := ⟨t.rel, m.columnName, m.type⟩

def projector (e : Entity) (t : Table) : Expr :=
  .entity e.name (.construct (some e.name)
    (e.members.map fun m => ⟨m.name, .column (column t m)⟩))

def relation (e : Entity) : Mint (Projection Expr) := do
  let table ← e.freshTable
  let rel ← Supply.freshAlias
  let parts := (e.projector table).split .client [] rel [table.rel]
  return {
    select := .plain rel parts.columns (some (.table table)) none
    projector := parts.projector
    pick := none }

def keyFilter? (e : Entity) (t : Table) (item : Expr) : Option Expr :=
  Expr.conjoin? (e.primaryKey.map fun m =>
    .equals (.column (column t ((e.member? m.name).getD m))) (.member item m.name))

def assignments (t : Table) (item : Expr) (members : List Member) : List (Assignment Expr) :=
  members.map fun m => ⟨column t m, .member item m.name⟩

end Entity

def relation (m : Mapping) (entity : String) : Minting Error (Projection Expr) := do
  (← m.resolve entity).relation

/-- What stands on the other side of an association, correlated with `root` by equal keys. -/
def navigate (m : Mapping) (root : Expr) (a : Association) : Minting Error Expr := do
  let inner ← m.relation a.target
  let terms := (a.keys.zip a.relatedKeys).map fun (key, related) =>
    Expr.equals (inner.projector.bindMember related) (root.bindMember key)
  let rel ← Supply.freshAlias
  let parts := inner.projector.split .client [] rel [inner.select.rel]
  return .projection {
    select := .plain rel parts.columns (some (.select inner.select)) (Expr.conjoin? terms)
    projector := parts.projector
    pick := if a.singleton then some .singleOrDefault else none }

def bindMember (m : Mapping) (root : Expr) (entity member : String) : Minting Error Expr := do
  match m.association? entity member with
  | some a => m.navigate root a
  | none =>
    if (← m.entity entity).hasMember member then return root.bindMember member
    throw (.memberNotFound entity member)

def insertCommand (m : Mapping) (entity : String) (item : Expr) :
    Minting Error (Command Expr) := do
  let e ← m.resolve entity
  let table ← e.freshTable
  return .insert table (Entity.assignments table item (e.members.filter (!·.generated)))

def updateCommand (m : Mapping) (entity : String) (item : Expr) :
    Minting Error (Command Expr) := do
  let e ← m.resolve entity
  let table ← e.freshTable
  match e.keyFilter? table item with
  | none => throw (.noPrimaryKey e.name)
  | some filter =>
    return .update table filter
      (Entity.assignments table item (e.members.filter fun m => !m.primaryKey && !m.generated))

def deleteCommand (m : Mapping) (entity : String) (item : Option Expr) :
    Minting Error (Command Expr) := do
  let e ← m.resolve entity
  let table ← e.freshTable
  return .delete table (item.bind (e.keyFilter? table))

end Mapping

end ObjectQuery
