import ObjectQuery.Rewrite.Singletons
import ObjectQuery.Settings
import ObjectQuery.Tree.Copy
import ObjectQuery.Tree.Member
import ObjectQuery.Tree.Substitute

/-!
Fetching nested sequences by one query. A nested projection that reads columns of its owner would
run once per row of the owner. Instead it is joined once to the distinct values of those columns,
and its rows are matched with those of the owner on equal values.
-/

namespace ObjectQuery

namespace ClientJoins

/-- The columns of its owner that a projection reads; nothing if it reads none, or also reads
columns from further out. -/
def keys? (owner : Select Expr) (p : Projection Expr) : Option (List Column) :=
  let free := (Part.projection p).free
  if free.isEmpty || free.any (· ≠ owner.rel) then none
  else some ((Part.projection p).columns.filter (·.rel = owner.rel))

def keySelect (owner : Select Expr) (keys : List Column) : Mint (Select Expr) := do
  let copy ← owner.copy
  let rel ← Supply.freshAlias
  let columns := keys.map fun k =>
    ColumnDecl.of k.name (.column ⟨copy.rel, k.name, k.type⟩)
  return { Select.plain rel columns (some (.select copy)) none with distinct := true }

def addKeys (keyAlias rel : Alias) :
    List Column → List (ColumnDecl Expr) → List Expr × List (ColumnDecl Expr)
  | [], columns => ([], columns)
  | k :: rest, columns =>
    let (d, columns) := ColumnDecl.provide columns k.name (.column ⟨keyAlias, k.name, k.type⟩)
    let (inner, columns) := addKeys keyAlias rel rest columns
    (.column ⟨rel, d.name, k.type⟩ :: inner, columns)

def join (affinity : Affinity) (owner : Select Expr) (p : Projection Expr) (keys : List Column) :
    Mint (Projection Expr × List Expr) := do
  let keySelect ← keySelect owner keys
  let inner := p.substitute fun c =>
    if c.rel = owner.rel then some (.column { c with rel := keySelect.rel }) else none
  let rel ← Supply.freshAlias
  let parts := inner.projector.split affinity [] rel [keySelect.rel, inner.select.rel]
  let (innerKey, columns) := addKeys keySelect.rel rel keys parts.columns
  let apply := Expr.join .crossApply (.select keySelect) (.select inner.select) none
  return (⟨.plain rel columns (some apply) none, parts.projector, inner.pick⟩, innerKey)

end ClientJoins

open ClientJoins in
mutual

def Expr.joinNested (affinity : Affinity) (fuel : Nat) (owner : Option (Select Expr)) :
    Expr → Mint Expr
  | .projection p => do
    match owner.bind fun owner => (keys? owner p).map fun keys => (owner, keys) with
    | none => return .projection (← p.joinNested affinity fuel)
    | some (owner, keys) =>
      match fuel with
      | 0 => return .projection (← p.joinNested affinity 0)
      | fuel + 1 =>
        let (joined, innerKey) ← join affinity owner p keys
        return .clientJoin (← joined.joinNested affinity fuel) (keys.map .column) innerKey
  | .scalar s => return .scalar s
  | .existsIn s => return .existsIn s
  | .inSelect item s => return .inSelect item s
  | e =>
    let owner := match e with
      | .clientJoin .. | .command _ => none
      | _ => owner
    e.traverse (fun c _ => c.joinNested affinity fuel owner)
      (fun s _ => s.joinNested affinity fuel owner) fun p _ => p.joinNested affinity fuel
termination_by e => (fuel, (Part.expr e).weight)
decreasing_by
  · exact Prod.Lex.right _ (Part.weight_lt (by simp [Part.parts]))
  · exact Prod.Lex.right _ (Part.weight_lt (by simp [Part.parts]))
  · exact Prod.Lex.left _ _ (Nat.lt_succ_self _)
  all_goals exact Prod.Lex.right _ (Part.weight_lt ‹_›)

def Select.joinNested (affinity : Affinity) (fuel : Nat) (owner : Option (Select Expr))
    (s : Select Expr) : Mint (Select Expr) :=
  s.traverse fun e _ => e.joinNested affinity fuel owner
termination_by (fuel, (Part.select s).weight)
decreasing_by all_goals exact Prod.Lex.right _ (Part.weight_lt ‹_›)

def Projection.joinNested (affinity : Affinity) (fuel : Nat) (p : Projection Expr) :
    Mint (Projection Expr) := do
  return { p with projector := ← p.projector.joinNested affinity fuel (some p.select) }
termination_by (fuel, (Part.projection p).weight)
decreasing_by exact Prod.Lex.right _ (Part.weight_lt Projection.projector_mem)

end

def Expr.withClientJoins (affinity : Affinity) (e : Expr) : Mint Expr :=
  e.joinNested affinity e.projectionCount none

end ObjectQuery
