import ObjectQuery.Tree.Alike
import ObjectQuery.Tree.Traverse

/-!
Joining the same thing once. A join whose right side and condition repeat those of a join further
left is dropped, and the columns of its right side are read from the other one.
-/

namespace ObjectQuery

namespace RepeatedJoins

def sourceAlias? : Expr → Option Alias
  | .table t => some t.rel
  | .select s => some s.rel
  | .setOp rel _ _ _ => some rel
  | _ => none

def sameCondition (right right' : Expr) : Option Expr → Option Expr → Bool
  | none, none => true
  | some a, some b =>
    a == b || match sourceAlias? right, sourceAlias? right' with
      | some x, some y => a.alikeUnder [(x, y)] b
      | _, _ => false
  | _, _ => false

def find? (kind : JoinKind) (right : Expr) (on : Option Expr) : Expr → Option Expr
  | .join k l r c =>
    if k == kind && r.alike right && sameCondition r right c on then some r
    else (find? kind right on l).or (find? kind right on r)
  | _ => none

abbrev Replaced := List (Alias × Alias)

def finish : Expr → StateM Replaced Expr
  | .column c => do
    match (← get).lookup c.rel with
    | some rel => return .column { c with rel }
    | none => return .column c
  | .join kind left right on => do
    match sourceAlias? right, (find? kind right on left).bind sourceAlias? with
    | some dropped, some kept =>
      modify ((dropped, kept) :: ·)
      return left
    | _, _ => return .join kind left right on
  | e => return e

end RepeatedJoins

def Expr.dropRepeatedJoins (e : Expr) : Expr :=
  ((e.bottomUp ⟨RepeatedJoins.finish, pure⟩).run []).1

end ObjectQuery
