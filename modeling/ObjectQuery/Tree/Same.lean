import ObjectQuery.Tree.Basic

/-!
Structural equality of trees. Numbers are compared as numbers, so a tree that holds a NaN differs
from itself.
-/

namespace ObjectQuery

mutual

def Expr.same : Expr → Expr → Bool
  | .const a, .const b => a == b
  | .param a, .param b => a == b
  | .member a m, .member b n => a.same b && m == n
  | .binary o a b, .binary o' a' b' => o == o' && a.same a' && b.same b'
  | .unary o a, .unary o' a' => o == o' && a.same a'
  | .cond a b c, .cond a' b' c' => a.same a' && b.same b' && c.same c'
  | .call f as, .call f' as' => f == f' && sameExprs as as'
  | .construct t fs, .construct t' fs' => t == t' && sameFields fs fs'
  | .lambda l, .lambda l' => sameLambda l l'
  | .operator o, .operator o' => sameOperator o o'
  | .table t, .table t' => t == t'
  | .column c, .column c' => c == c'
  | .select s, .select s' => sameSelect s s'
  | .join k a b c, .join k' a' b' c' => k == k' && a.same a' && b.same b' && sameOption c c'
  | .setOp i k a b, .setOp i' k' a' b' => i == i' && k == k' && sameSelect a a' && sameSelect b b'
  | .aggregate k a d, .aggregate k' a' d' => k == k' && sameOption a a' && d == d'
  | .groupAggregate i o a s, .groupAggregate i' o' a' s' =>
    i == i' && o == o' && a.same a' && sameSelect s s'
  | .scalar s, .scalar s' => sameSelect s s'
  | .existsIn s, .existsIn s' => sameSelect s s'
  | .inSelect a s, .inSelect a' s' => a.same a' && sameSelect s s'
  | .inValues a vs, .inValues a' vs' => a.same a' && sameExprs vs vs'
  | .isNull a, .isNull a' => a.same a'
  | .between a b c, .between a' b' c' => a.same a' && b.same b' && c.same c'
  | .rowNumber os, .rowNumber os' => sameOrders os os'
  | .projection p, .projection p' => sameProjection p p'
  | .clientJoin p as bs, .clientJoin p' as' bs' =>
    sameProjection p p' && sameExprs as as' && sameExprs bs bs'
  | .entity n a, .entity n' a' => n == n' && a.same a'
  | .outerJoined a b, .outerJoined a' b' => a.same a' && b.same b'
  | .grouping a b, .grouping a' b' => a.same a' && b.same b'
  | .command c, .command c' => sameCommand c c'
  | _, _ => false
termination_by structural x => x

def sameExprs : List Expr → List Expr → Bool
  | [], [] => true
  | a :: as, b :: bs => a.same b && sameExprs as bs
  | _, _ => false
termination_by structural x => x

def sameOption : Option Expr → Option Expr → Bool
  | none, none => true
  | some a, some b => a.same b
  | _, _ => false
termination_by structural x => x

def sameFields : List (Field Expr) → List (Field Expr) → Bool
  | [], [] => true
  | ⟨n, a⟩ :: as, ⟨n', b⟩ :: bs => n == n' && a.same b && sameFields as bs
  | _, _ => false
termination_by structural x => x

def sameOrders : List (Order Expr) → List (Order Expr) → Bool
  | [], [] => true
  | ⟨d, a⟩ :: as, ⟨d', b⟩ :: bs => d == d' && a.same b && sameOrders as bs
  | _, _ => false
termination_by structural x => x

def sameColumns : List (ColumnDecl Expr) → List (ColumnDecl Expr) → Bool
  | [], [] => true
  | ⟨n, a, t⟩ :: as, ⟨n', b, t'⟩ :: bs => n == n' && a.same b && t == t' && sameColumns as bs
  | _, _ => false
termination_by structural x => x

def sameSelect : Select Expr → Select Expr → Bool
  | ⟨rel, columns, source, filter, orderBy, groupBy, distinct, skip, take, reversed⟩,
    ⟨alias', columns', source', filter', orderBy', groupBy', distinct', skip', take', reversed'⟩ =>
    rel == alias' && sameColumns columns columns' && sameOption source source'
      && sameOption filter filter' && sameOrders orderBy orderBy' && sameExprs groupBy groupBy'
      && distinct == distinct' && sameOption skip skip' && sameOption take take'
      && reversed == reversed'
termination_by structural x => x

def sameProjection : Projection Expr → Projection Expr → Bool
  | ⟨s, e, k⟩, ⟨s', e', k'⟩ => sameSelect s s' && e.same e' && k == k'
termination_by structural x => x

def sameLambda : Lambda Expr → Lambda Expr → Bool
  | ⟨ps, e⟩, ⟨ps', e'⟩ => ps == ps' && e.same e'
termination_by structural x => x

def sameLambdaOption : Option (Lambda Expr) → Option (Lambda Expr) → Bool
  | none, none => true
  | some a, some b => sameLambda a b
  | _, _ => false
termination_by structural x => x

def sameAssignments : List (Assignment Expr) → List (Assignment Expr) → Bool
  | [], [] => true
  | ⟨c, a⟩ :: as, ⟨c', b⟩ :: bs => c == c' && a.same b && sameAssignments as bs
  | _, _ => false
termination_by structural x => x

def sameCommand : Command Expr → Command Expr → Bool
  | .insert t as, .insert t' as' => t == t' && sameAssignments as as'
  | .update t e as, .update t' e' as' => t == t' && e.same e' && sameAssignments as as'
  | .delete t e, .delete t' e' => t == t' && sameOption e e'
  | .conditional e a b, .conditional e' a' b' =>
    e.same e' && sameCommand a a' && sameCommandOption b b'
  | .batch p es c, .batch p' es' c' => p == p' && sameExprs es es' && sameCommand c c'
  | _, _ => false
termination_by structural x => x

def sameCommandOption : Option (Command Expr) → Option (Command Expr) → Bool
  | none, none => true
  | some a, some b => sameCommand a b
  | _, _ => false
termination_by structural x => x

def sameOperator : Operator Expr → Operator Expr → Bool
  | .table e, .table e' => e == e'
  | .filter s l, .filter s' l' => s.same s' && sameLambda l l'
  | .map s l, .map s' l' => s.same s' && sameLambda l l'
  | .flatMap s l r, .flatMap s' l' r' => s.same s' && sameLambda l l' && sameLambdaOption r r'
  | .join a b c d e, .join a' b' c' d' e' =>
    a.same a' && b.same b' && sameLambda c c' && sameLambda d d' && sameLambda e e'
  | .groupJoin a b c d e, .groupJoin a' b' c' d' e' =>
    a.same a' && b.same b' && sameLambda c c' && sameLambda d d' && sameLambda e e'
  | .orderBy s l d, .orderBy s' l' d' => s.same s' && sameLambda l l' && d == d'
  | .thenBy s l d, .thenBy s' l' d' => s.same s' && sameLambda l l' && d == d'
  | .groupBy s k e r, .groupBy s' k' e' r' =>
    s.same s' && sameLambda k k' && sameLambdaOption e e' && sameLambdaOption r r'
  | .distinct s, .distinct s' => s.same s'
  | .take s c, .take s' c' => s.same s' && c.same c'
  | .skip s c, .skip s' c' => s.same s' && c.same c'
  | .reverse s, .reverse s' => s.same s'
  | .cast s t, .cast s' t' => s.same s' && t == t'
  | .defaultIfEmpty s, .defaultIfEmpty s' => s.same s'
  | .element s k l, .element s' k' l' => s.same s' && k == k' && sameLambdaOption l l'
  | .aggregate s k l, .aggregate s' k' l' => s.same s' && k == k' && sameLambdaOption l l'
  | .any s l, .any s' l' => s.same s' && sameLambdaOption l l'
  | .all s l, .all s' l' => s.same s' && sameLambda l l'
  | .contains s i, .contains s' i' => s.same s' && i.same i'
  | .setOp k a b, .setOp k' a' b' => k == k' && a.same a' && b.same b'
  | .insert n e, .insert n' e' => n == n' && e.same e'
  | .update n e l, .update n' e' l' => n == n' && e.same e' && sameLambdaOption l l'
  | .insertOrUpdate n e l, .insertOrUpdate n' e' l' =>
    n == n' && e.same e' && sameLambdaOption l l'
  | .delete n e l, .delete n' e' l' => n == n' && sameOption e e' && sameLambdaOption l l'
  | .batch es l, .batch es' l' => sameExprs es es' && sameLambda l l'
  | _, _ => false
termination_by structural x => x

end

instance : BEq Expr := ⟨Expr.same⟩

instance : BEq (Select Expr) := ⟨sameSelect⟩

end ObjectQuery
