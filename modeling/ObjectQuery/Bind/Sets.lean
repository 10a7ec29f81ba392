import ObjectQuery.Bind.Tests
import ObjectQuery.Tree.Substitute

/-!
Set operations. A union puts the columns of both operands under the names of the left one;
intersection and difference keep the distinct left elements that do or do not occur on the right.
-/

namespace ObjectQuery.Binding

def union (ctx : Context) (kind : SetKind) (left right : Binding Expr) : Binding Expr := do
  let p ← sequence ctx left
  let q ← sequence ctx right
  let left ← selectOver ctx (.select p.select) [p.select.rel] p.projector
  let right ← selectOver ctx (.select q.select) [q.select.rel] q.projector
  let columns := left.select.columns
  if columns.length ≠ right.select.columns.length then
    throw (.setOperandMismatch (if kind = .union then "Union" else "Concat") columns.length
      right.select.columns.length)
  let renamed := (right.select.columns.zip columns).map fun (c, named) =>
    { c with name := named.name }
  let setAlias ← Supply.freshAlias
  let rel ← Supply.freshAlias
  let exported := columns.map fun c =>
    ColumnDecl.of c.name (.column ⟨setAlias, c.name, c.type⟩)
  let set := Expr.setOp setAlias kind left.select { right.select with columns := renamed }
  return .projection {
    select := .plain rel exported (some set) none
    projector := left.projector.repoint rel [left.select.rel]
    pick := none }

/-- The distinct elements on the left that occur on the right, or with `negate` those that do not.
A list of constants on the right is compared element by element. -/
def membership (ctx : Context) (negate : Bool) (left right : Binding Expr)
    (constants : Option (List Value)) : Binding Expr := do
  let x ← Supply.freshParam
  let y ← Supply.freshParam
  let same : Body := ⟨[y], do return .equals (← param y) (← param x)⟩
  let occurs : Binding Expr := match constants with
    | some values => askList .some values (some same)
    | none => ask ctx false .some right (some same)
  let kept ← filter ctx left ⟨[x], if negate then do return .negated (← occurs) else occurs⟩
  return .projection (← layer ctx kept fun s => { s with distinct := true })

end ObjectQuery.Binding
