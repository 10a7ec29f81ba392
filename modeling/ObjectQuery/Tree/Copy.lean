import ObjectQuery.Tree.Basic
import ObjectQuery.Tree.Traverse

/-!
Copies of trees under new names. A copy has the shape of its template, but every alias declared and
every parameter bound inside it is new. Aliases declared outside are kept, so the copy of a
correlated subquery is correlated with the same outer relation.
-/

namespace ObjectQuery

def Command.tableAliases : Command Expr → List Alias
  | .insert table _ | .update table _ _ | .delete table _ => [table.rel]
  | .conditional _ onTrue none => onTrue.tableAliases
  | .conditional _ onTrue (some onFalse) => onTrue.tableAliases ++ onFalse.tableAliases
  | .batch _ _ operation => operation.tableAliases

def Command.itemParams : Command Expr → List Param
  | .conditional _ onTrue none => onTrue.itemParams
  | .conditional _ onTrue (some onFalse) => onTrue.itemParams ++ onFalse.itemParams
  | .batch item _ operation => item :: operation.itemParams
  | _ => []

namespace Part

def ownAliases (p : Part) : List Alias :=
  p.gather (fun
    | .expr (.table t) => [t.rel]
    | .expr (.setOp rel _ _ _) => [rel]
    | .expr (.command c) => c.tableAliases
    | .select s => [s.rel]
    | _ => []) fun _ => true

def ownParams (p : Part) : List Param :=
  p.gather (fun
    | .expr (.lambda l) => l.params
    | .expr (.command c) => c.itemParams
    | _ => []) fun _ => true

end Part

structure Renaming where
  aliases : List (Alias × Alias)
  params : List (Param × Param)

namespace Renaming

def rel (r : Renaming) (a : Alias) : Alias := (r.aliases.lookup a).getD a

def param (r : Renaming) (p : Param) : Param := (r.params.lookup p).getD p

def table (r : Renaming) (t : Table) : Table := { t with rel := r.rel t.rel }

def column (r : Renaming) (c : Column) : Column := { c with rel := r.rel c.rel }

def fresh (p : Part) : Mint Renaming := do
  let aliases ← p.ownAliases.eraseDups.mapM fun a => return (a, ← Supply.freshAlias)
  let params ← p.ownParams.eraseDups.mapM fun a => return (a, ← Supply.freshParam)
  return { aliases, params }

def command (r : Renaming) : Command Expr → Command Expr
  | .insert t assignments =>
    .insert (r.table t) (assignments.map fun a => { a with column := r.column a.column })
  | .update t filter assignments =>
    .update (r.table t) filter (assignments.map fun a => { a with column := r.column a.column })
  | .delete t filter => .delete (r.table t) filter
  | .conditional check onTrue none => .conditional check (r.command onTrue) none
  | .conditional check onTrue (some onFalse) =>
    .conditional check (r.command onTrue) (some (r.command onFalse))
  | .batch item items operation => .batch (r.param item) items (r.command operation)

end Renaming

mutual

def Expr.rename (r : Renaming) : Expr → Mint Expr
  | .table t => return .table (r.table t)
  | .column c => return .column (r.column c)
  | .param p => return .param (r.param p)
  | e => do
    let copy ← e.traverse (fun c _ => c.rename r) (fun s _ => s.rename r) fun p _ => p.rename r
    match copy with
    | .lambda l => return .lambda { l with params := l.params.map r.param }
    | .setOp rel kind left right => return .setOp (r.rel rel) kind left right
    | .groupAggregate _ owner inGroup fallback =>
      return .groupAggregate (← Supply.fresh) (r.rel owner) inGroup fallback
    | .command c => return .command (r.command c)
    | copy => return copy
termination_by e => (Part.expr e).weight
decreasing_by all_goals exact Part.weight_lt ‹_›

def Select.rename (r : Renaming) (s : Select Expr) : Mint (Select Expr) := do
  let copy ← s.traverse fun e _ => e.rename r
  return { copy with rel := r.rel s.rel }
termination_by (Part.select s).weight
decreasing_by all_goals exact Part.weight_lt ‹_›

def Projection.rename (r : Renaming) (p : Projection Expr) : Mint (Projection Expr) :=
  p.traverse (fun e _ => e.rename r) fun s _ => s.rename r
termination_by (Part.projection p).weight
decreasing_by all_goals exact Part.weight_lt ‹_›

end

def Expr.copy (e : Expr) : Mint Expr := do
  e.rename (← Renaming.fresh (.expr e))

def Select.copy (s : Select Expr) : Mint (Select Expr) := do
  s.rename (← Renaming.fresh (.select s))

/-- A copy with the aliases it renamed; a tree that declares nothing is its own copy. -/
def Expr.copyWithAliases (e : Expr) : Mint (Expr × List (Alias × Alias)) := do
  let names ← Renaming.fresh (.expr e)
  if names.aliases.isEmpty && names.params.isEmpty then return (e, [])
  return (← e.rename names, names.aliases)

end ObjectQuery
