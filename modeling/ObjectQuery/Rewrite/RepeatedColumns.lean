import ObjectQuery.Tree.Same
import ObjectQuery.Tree.Traverse

/-!
Computing the same expression once per select. Of columns with equal expressions the first is kept,
and the others are read from it. The operands of a set operation keep all their columns, which are
matched by position.
-/

namespace ObjectQuery

namespace RepeatedColumns

abbrev Replaced := List ((Alias × String) × Column)

def fold (rel : Alias) :
    List (ColumnDecl Expr) → List (ColumnDecl Expr) → Replaced → List (ColumnDecl Expr) × Replaced
  | kept, [], replaced => (kept, replaced)
  | kept, d :: rest, replaced =>
    match kept.find? (·.expr == d.expr) with
    | some first =>
      fold rel kept rest (((rel, d.name), ⟨rel, first.name, first.type⟩) :: replaced)
    | none => fold rel (kept ++ [d]) rest replaced

def settle (s : Select Expr) : StateM Replaced (Select Expr) := do
  let (columns, replaced) := fold s.rel [] s.columns (← get)
  set replaced
  return { s with columns }

end RepeatedColumns

open RepeatedColumns in
mutual

def Expr.foldColumns : Expr → StateM Replaced Expr
  | .column c => do return .column (((← get).lookup (c.rel, c.name)).getD c)
  | .setOp rel kind left right => do
    let left ← left.traverse fun e _ => e.foldColumns
    let right ← right.traverse fun e _ => e.foldColumns
    return .setOp rel kind left right
  | e => e.traverse (fun c _ => c.foldColumns) (fun s _ => s.foldColumns) fun p _ => p.foldColumns
termination_by e => (Part.expr e).weight
decreasing_by
  · exact Nat.lt_trans (Part.weight_lt ‹_›) (Part.weight_lt (by simp [Part.parts]))
  · exact Nat.lt_trans (Part.weight_lt ‹_›) (Part.weight_lt (by simp [Part.parts]))
  all_goals exact Part.weight_lt ‹_›

def Select.foldColumns (s : Select Expr) : StateM Replaced (Select Expr) := do
  settle (← s.traverse fun e _ => e.foldColumns)
termination_by (Part.select s).weight
decreasing_by all_goals exact Part.weight_lt ‹_›

def Projection.foldColumns (p : Projection Expr) : StateM Replaced (Projection Expr) :=
  p.traverse (fun e _ => e.foldColumns) fun s _ => s.foldColumns
termination_by (Part.projection p).weight
decreasing_by all_goals exact Part.weight_lt ‹_›

end

def Expr.dropRepeatedColumns (e : Expr) : Expr :=
  (e.foldColumns.run []).1

end ObjectQuery
