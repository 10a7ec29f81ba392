import ObjectQuery.Columns
import ObjectQuery.Tree.Traverse

/-!
Plain joins in place of applies. An apply whose right side is a table, or a select that meets the
left side only in its filter, is a cross, inner or left outer join with that filter as its
condition. A right side that pages, groups, aggregates or drops repeated rows keeps the apply.
-/

namespace ObjectQuery

namespace Applies

def always : Expr := .equals (.int 1) (.int 1)

def isFlat (s : Select Expr) : Bool :=
  s.take.isNone && s.skip.isNone && s.groupBy.isEmpty && !s.distinct && !s.hasAggregates

def joinSelect? (affinity : Affinity) (kind : JoinKind) (left : Expr) (s : Select Expr) :
    Option Expr :=
  let unfiltered := { s with filter := none }
  let referenced := (Expr.select unfiltered).referenced
  if !isFlat s || left.declares.any referenced.contains then none
  else
    let (right, on) := match s.filter with
      | none => (unfiltered, none)
      | some predicate =>
        let parts := predicate.split affinity s.columns s.rel s.sourceAliases
        ({ unfiltered with columns := parts.columns }, some parts.projector)
    some (match kind, on with
      | .outerApply, on => .join .leftOuter left (.select right) (some (on.getD always))
      | _, none => .join .cross left (.select right) none
      | _, some on => .join .inner left (.select right) (some on))

def downgrade? (affinity : Affinity) (kind : JoinKind) (left right : Expr) : Option Expr :=
  match right with
  | .table _ => some (match kind with
    | .crossApply => .join .cross left right none
    | _ => .join .leftOuter left right (some always))
  | .select s => joinSelect? affinity kind left s
  | _ => none

def finish (affinity : Affinity) : Expr → Expr
  | .join kind left right on =>
    if kind.isApply then (downgrade? affinity kind left right).getD (.join kind left right on)
    else .join kind left right on
  | e => e

end Applies

def Expr.downgradeApplies (affinity : Affinity) (e : Expr) : Expr :=
  Id.run (e.bottomUp ⟨fun e => pure (Applies.finish affinity e), pure⟩)

end ObjectQuery
