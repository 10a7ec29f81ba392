import ObjectQuery.Tree.Aliases
import ObjectQuery.Tree.Basic
import ObjectQuery.Tree.Traverse

/-!
Keeping cross joins apart from the other joins. A join directly under a join of the other family is
put into a select of its own, which exports the columns that are read through it.
-/

namespace ObjectQuery

namespace CrossJoins

structure State where
  supply : Supply
  exported : List (Column × Column)

abbrev Walk := StateM State

def exports (rel : Alias) : List Column → List (ColumnDecl Expr) →
    List (ColumnDecl Expr) × List (Column × Column)
  | [], columns => (columns, [])
  | c :: rest, columns =>
    let name := Names.available (columns.map (·.name)) c.name
    let (columns, pairs) := exports rel rest (columns ++ [ColumnDecl.of name (.column c)])
    (columns, (c, ⟨rel, name, c.type⟩) :: pairs)

def isolate (read : List Column) (source : Expr) : Walk Expr := do
  let state ← get
  let (rel, supply) := Supply.freshAlias.run state.supply
  let through := source.declares.flatMap fun a => read.filter (·.rel = a)
  let (columns, pairs) := exports rel through []
  set (State.mk supply (pairs.reverse ++ state.exported))
  return .select (.plain rel columns (some source) none)

end CrossJoins

open CrossJoins in
mutual

def Expr.isolateJoins (read : List Column) (parent : Option JoinKind) : Expr → Walk Expr
  | .column c => do return .column (((← get).exported.lookup c).getD c)
  | .join kind left right on => do
    let left ← left.isolateJoins read (some kind)
    let right ← right.isolateJoins read (some kind)
    let on ← on.attach.mapM fun ⟨e, _⟩ => e.isolateJoins read (some kind)
    let join := Expr.join kind left right on
    if parent.any fun p => (kind == .cross) != (p == .cross) then isolate read join
    else return join
  | e => e.traverse (fun c _ => c.isolateJoins read parent) (fun s _ => s.isolateJoins read)
      fun p _ => p.isolateJoins read parent
termination_by e => (Part.expr e).weight
decreasing_by
  · exact Part.weight_lt (by simp [Part.parts])
  · exact Part.weight_lt (by simp [Part.parts])
  · exact Part.weight_lt (by simp_all [Part.parts])
  all_goals exact Part.weight_lt ‹_›

def Select.isolateJoins (read : List Column) (s : Select Expr) : Walk (Select Expr) :=
  s.traverse fun e _ => e.isolateJoins read none
termination_by (Part.select s).weight
decreasing_by all_goals exact Part.weight_lt ‹_›

def Projection.isolateJoins (read : List Column) (parent : Option JoinKind)
    (p : Projection Expr) : Walk (Projection Expr) :=
  p.traverse (fun e _ => e.isolateJoins read parent) fun s _ => s.isolateJoins read
termination_by (Part.projection p).weight
decreasing_by all_goals exact Part.weight_lt ‹_›

end

def Expr.withCrossJoinsIsolated (e : Expr) : Mint Expr := fun supply =>
  let (e, s) := (e.isolateJoins e.columns none).run ⟨supply, []⟩
  (e, s.supply)

end ObjectQuery
