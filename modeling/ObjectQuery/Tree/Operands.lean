import ObjectQuery.Tree.Parts

/-!
The expressions that a query operator is given, the bodies of its lambdas included.
-/

namespace ObjectQuery

namespace Operator

def exprs : Operator Expr → List Expr
  | .table _ => []
  | .filter source predicate => [source, predicate.body]
  | .map source selector => [source, selector.body]
  | .flatMap source collection result =>
    source :: collection.body :: result.toList.map (·.body)
  | .join outer inner outerKey innerKey result
  | .groupJoin outer inner outerKey innerKey result =>
    [outer, inner, outerKey.body, innerKey.body, result.body]
  | .orderBy source key _ | .thenBy source key _ => [source, key.body]
  | .groupBy source key selector result =>
    source :: key.body :: (selector.toList ++ result.toList).map (·.body)
  | .distinct source | .reverse source | .cast source _ | .defaultIfEmpty source => [source]
  | .take source count | .skip source count => [source, count]
  | .element source _ predicate => source :: predicate.toList.map (·.body)
  | .aggregate source _ argument => source :: argument.toList.map (·.body)
  | .any source predicate => source :: predicate.toList.map (·.body)
  | .all source predicate => [source, predicate.body]
  | .contains source item => [source, item]
  | .setOp _ left right => [left, right]
  | .insert _ item => [item]
  | .update _ item check | .insertOrUpdate _ item check => item :: check.toList.map (·.body)
  | .delete _ item predicate => item.toList ++ predicate.toList.map (·.body)
  | .batch items operation => items ++ [operation.body]

theorem sizeOf_body (l : Lambda Expr) : sizeOf l = 1 + sizeOf l.params + sizeOf l.body := by
  cases l
  rfl

theorem sizeOf_lt_of_mem_body? {e : Expr} {o : Option (Lambda Expr)}
    (h : e ∈ o.toList.map (·.body)) : sizeOf e < sizeOf o := by
  cases o with
  | none => simp at h
  | some l =>
    simp only [Option.toList_some, List.map_cons, List.map_nil, List.mem_singleton] at h
    subst h
    have := sizeOf_body l
    simp only [Option.some.sizeOf_spec]
    omega

theorem sizeOf_lt_of_mem_exprs {e : Expr} {op : Operator Expr} (h : e ∈ op.exprs) :
    sizeOf e < sizeOf op := by
  cases op <;> simp only [exprs, List.mem_cons, List.mem_append, List.map_append, List.not_mem_nil,
    or_false, Option.mem_toList] at h
  case filter | map | all =>
    rcases h with rfl | rfl <;> simp [sizeOf_body] <;> omega
  case flatMap =>
    rcases h with rfl | rfl | h
    · simp +arith
    · simp +arith [sizeOf_body]
    · have := sizeOf_lt_of_mem_body? h
      simp only [flatMap.sizeOf_spec]
      omega
  case join | groupJoin =>
    rcases h with rfl | rfl | rfl | rfl | rfl <;> simp [sizeOf_body] <;> omega
  case orderBy | thenBy =>
    rcases h with rfl | rfl <;> simp [sizeOf_body] <;> omega
  case groupBy =>
    rcases h with rfl | rfl | h | h
    · simp +arith
    · simp +arith [sizeOf_body]
    · have := sizeOf_lt_of_mem_body? h
      simp only [groupBy.sizeOf_spec]
      omega
    · have := sizeOf_lt_of_mem_body? h
      simp only [groupBy.sizeOf_spec]
      omega
  case distinct | reverse | cast | defaultIfEmpty | insert =>
    subst h
    simp +arith
  case take | skip | contains | setOp =>
    rcases h with rfl | rfl <;> simp +arith
  case element | aggregate | any | update | insertOrUpdate =>
    rcases h with rfl | h
    · simp +arith
    · have := sizeOf_lt_of_mem_body? h
      simp
      omega
  case delete =>
    rcases h with rfl | h
    · simp +arith
    · have := sizeOf_lt_of_mem_body? h
      simp
      omega
  case batch =>
    rcases h with h | rfl
    · have := List.sizeOf_lt_of_mem h
      simp
      omega
    · simp +arith [sizeOf_body]

/-- A recursion that goes on from an operator to what it is given ends. -/
theorem weight_lt {e : Expr} {op : Operator Expr} (h : e ∈ op.exprs) :
    (Part.expr e).weight < (Part.expr (.operator op)).weight := by
  have := sizeOf_lt_of_mem_exprs h
  simp only [Part.weight, Expr.operator.sizeOf_spec]
  omega

def mapMem {β : Type} : (op : Operator Expr) → (f : (e : Expr) → e ∈ op.exprs → β) → Operator β
  | .table entity, _ => .table entity
  | .filter source predicate, f =>
    .filter (f source (by simp [exprs])) ⟨predicate.params, f predicate.body (by simp [exprs])⟩
  | .map source selector, f =>
    .map (f source (by simp [exprs])) ⟨selector.params, f selector.body (by simp [exprs])⟩
  | .flatMap source collection result, f =>
    .flatMap (f source (by simp [exprs])) ⟨collection.params, f collection.body (by simp [exprs])⟩
      (result.attach.map fun ⟨l, _⟩ => ⟨l.params, f l.body (by simp_all [exprs])⟩)
  | .join outer inner outerKey innerKey result, f =>
    .join (f outer (by simp [exprs])) (f inner (by simp [exprs]))
      ⟨outerKey.params, f outerKey.body (by simp [exprs])⟩
      ⟨innerKey.params, f innerKey.body (by simp [exprs])⟩
      ⟨result.params, f result.body (by simp [exprs])⟩
  | .groupJoin outer inner outerKey innerKey result, f =>
    .groupJoin (f outer (by simp [exprs])) (f inner (by simp [exprs]))
      ⟨outerKey.params, f outerKey.body (by simp [exprs])⟩
      ⟨innerKey.params, f innerKey.body (by simp [exprs])⟩
      ⟨result.params, f result.body (by simp [exprs])⟩
  | .orderBy source key direction, f =>
    .orderBy (f source (by simp [exprs])) ⟨key.params, f key.body (by simp [exprs])⟩ direction
  | .thenBy source key direction, f =>
    .thenBy (f source (by simp [exprs])) ⟨key.params, f key.body (by simp [exprs])⟩ direction
  | .groupBy source key selector result, f =>
    .groupBy (f source (by simp [exprs])) ⟨key.params, f key.body (by simp [exprs])⟩
      (selector.attach.map fun ⟨l, _⟩ => ⟨l.params, f l.body (by simp_all [exprs])⟩)
      (result.attach.map fun ⟨l, _⟩ => ⟨l.params, f l.body (by simp_all [exprs])⟩)
  | .distinct source, f => .distinct (f source (by simp [exprs]))
  | .take source count, f => .take (f source (by simp [exprs])) (f count (by simp [exprs]))
  | .skip source count, f => .skip (f source (by simp [exprs])) (f count (by simp [exprs]))
  | .reverse source, f => .reverse (f source (by simp [exprs]))
  | .cast source typeName, f => .cast (f source (by simp [exprs])) typeName
  | .defaultIfEmpty source, f => .defaultIfEmpty (f source (by simp [exprs]))
  | .element source pick predicate, f =>
    .element (f source (by simp [exprs])) pick
      (predicate.attach.map fun ⟨l, _⟩ => ⟨l.params, f l.body (by simp_all [exprs])⟩)
  | .aggregate source kind argument, f =>
    .aggregate (f source (by simp [exprs])) kind
      (argument.attach.map fun ⟨l, _⟩ => ⟨l.params, f l.body (by simp_all [exprs])⟩)
  | .any source predicate, f =>
    .any (f source (by simp [exprs]))
      (predicate.attach.map fun ⟨l, _⟩ => ⟨l.params, f l.body (by simp_all [exprs])⟩)
  | .all source predicate, f =>
    .all (f source (by simp [exprs])) ⟨predicate.params, f predicate.body (by simp [exprs])⟩
  | .contains source item, f =>
    .contains (f source (by simp [exprs])) (f item (by simp [exprs]))
  | .setOp kind left right, f =>
    .setOp kind (f left (by simp [exprs])) (f right (by simp [exprs]))
  | .insert entity item, f => .insert entity (f item (by simp [exprs]))
  | .update entity item check, f =>
    .update entity (f item (by simp [exprs]))
      (check.attach.map fun ⟨l, _⟩ => ⟨l.params, f l.body (by simp_all [exprs])⟩)
  | .insertOrUpdate entity item check, f =>
    .insertOrUpdate entity (f item (by simp [exprs]))
      (check.attach.map fun ⟨l, _⟩ => ⟨l.params, f l.body (by simp_all [exprs])⟩)
  | .delete entity item predicate, f =>
    .delete entity (item.attach.map fun ⟨e, _⟩ => f e (by simp_all [exprs]))
      (predicate.attach.map fun ⟨l, _⟩ => ⟨l.params, f l.body (by simp_all [exprs])⟩)
  | .batch items operation, f =>
    .batch (items.attach.map fun ⟨e, _⟩ => f e (by simp_all [exprs]))
      ⟨operation.params, f operation.body (by simp [exprs])⟩

end Operator

namespace Part

def operands : Part → List Part
  | .expr (.operator op) => op.exprs.map .expr
  | p => p.parts

theorem weight_lt_of_mem_operands {p q : Part} (h : q ∈ p.operands) : q.weight < p.weight := by
  unfold operands at h
  split at h
  · obtain ⟨e, he, rfl⟩ := List.mem_map.mp h
    exact Operator.weight_lt he
  · exact weight_lt h

def extent (p : Part) : Nat :=
  1 + (p.operands.attach.map fun ⟨q, _⟩ => q.extent).foldr (· + ·) 0
termination_by p.weight
decreasing_by exact weight_lt_of_mem_operands ‹_›

end Part

end ObjectQuery
