import ObjectQuery.Tree.Basic

/-!
The parts of a tree, one level down, in walking order: a select is walked source first, then filter,
ordering, grouping, skip, take and at last its columns; a projection is walked select first. A
query operator is a leaf, since it has no relational parts before it is bound.

Every recursion over trees goes from a `Part` to the parts it lists, so `Part.weight_lt` is all that
such a recursion needs to end.
-/

namespace ObjectQuery

inductive Part where
  | expr (e : Expr)
  | select (s : Select Expr)
  | projection (p : Projection Expr)

def Command.exprs : Command Expr → List Expr
  | .insert _ assignments => assignments.map (·.expr)
  | .update _ filter assignments => filter :: assignments.map (·.expr)
  | .delete _ filter => filter.toList
  | .conditional check onTrue onFalse =>
    check :: (onTrue.exprs ++ match onFalse with
      | none => []
      | some c => c.exprs)
  | .batch _ items operation => items ++ operation.exprs

def Select.exprs (s : Select Expr) : List Expr :=
  s.source.toList ++ s.filter.toList ++ s.orderBy.map (·.expr) ++ s.groupBy ++ s.skip.toList
    ++ s.take.toList ++ s.columns.map (·.expr)

namespace Part

def parts : Part → List Part
  | .select s => s.exprs.map .expr
  | .projection p => [.select p.select, .expr p.projector]
  | .expr e =>
    match e with
    | .const _ | .param _ | .operator _ | .table _ | .column _ => []
    | .member target _ => [.expr target]
    | .binary _ left right => [.expr left, .expr right]
    | .unary _ operand => [.expr operand]
    | .cond test onTrue onFalse => [.expr test, .expr onTrue, .expr onFalse]
    | .call _ args => args.map .expr
    | .construct _ fields => fields.map (.expr ·.expr)
    | .lambda l => [.expr l.body]
    | .select s => [.select s]
    | .join _ left right on => .expr left :: .expr right :: on.toList.map .expr
    | .setOp _ _ left right => [.select left, .select right]
    | .aggregate _ argument _ => argument.toList.map .expr
    | .groupAggregate _ _ inGroup fallback => [.expr inGroup, .select fallback]
    | .scalar s => [.select s]
    | .existsIn s => [.select s]
    | .inSelect item s => [.expr item, .select s]
    | .inValues item values => .expr item :: values.map .expr
    | .isNull operand => [.expr operand]
    | .between operand lower upper => [.expr operand, .expr lower, .expr upper]
    | .rowNumber orderBy => orderBy.map (.expr ·.expr)
    | .projection p => [.projection p]
    | .clientJoin p outerKey innerKey =>
      outerKey.map .expr ++ .projection p :: innerKey.map .expr
    | .entity _ e => [.expr e]
    | .outerJoined test e => [.expr test, .expr e]
    | .grouping key group => [.expr key, .expr group]
    | .command c => c.exprs.map .expr

end Part

theorem Command.sizeOf_lt_of_mem_exprs {e : Expr} :
    (c : Command Expr) → e ∈ c.exprs → sizeOf e < sizeOf c
  | .insert _ assignments, h => by
    simp only [exprs, List.mem_map] at h
    obtain ⟨a, ha, rfl⟩ := h
    have := List.sizeOf_lt_of_mem ha
    cases a
    simp at *
    omega
  | .update _ filter assignments, h => by
    simp only [exprs, List.mem_cons, List.mem_map] at h
    rcases h with rfl | ⟨a, ha, rfl⟩
    · simp +arith
    · have := List.sizeOf_lt_of_mem ha
      cases a
      simp at *
      omega
  | .delete _ filter, h => by
    simp only [exprs, Option.mem_toList] at h
    subst h
    simp +arith
  | .conditional check onTrue none, h => by
    simp only [exprs, List.append_nil, List.mem_cons] at h
    rcases h with rfl | h
    · simp +arith
    · have := sizeOf_lt_of_mem_exprs onTrue h
      simp
      omega
  | .conditional check onTrue (some onFalse), h => by
    simp only [exprs, List.mem_cons, List.mem_append] at h
    rcases h with rfl | h | h
    · simp +arith
    · have := sizeOf_lt_of_mem_exprs onTrue h
      simp
      omega
    · have := sizeOf_lt_of_mem_exprs onFalse h
      simp
      omega
  | .batch _ items operation, h => by
    simp only [exprs, List.mem_append] at h
    rcases h with h | h
    · have := List.sizeOf_lt_of_mem h
      simp
      omega
    · have := sizeOf_lt_of_mem_exprs operation h
      simp
      omega

theorem sizeOf_lt_of_mem_toList {α : Type} [SizeOf α] {a : α} {o : Option α}
    (h : a ∈ o.toList) : sizeOf a < sizeOf o := by
  simp only [Option.mem_toList] at h
  subst h
  simp

theorem Select.sizeOf_lt_of_mem_exprs {e : Expr} {s : Select Expr} (h : e ∈ s.exprs) :
    sizeOf e < sizeOf s := by
  cases s
  simp only [exprs, List.append_assoc, List.mem_append, List.mem_map] at h
  simp only [Select.mk.sizeOf_spec]
  rcases h with h | h | ⟨o, ho, rfl⟩ | h | h | h | ⟨c, hc, rfl⟩
  · have := sizeOf_lt_of_mem_toList h
    omega
  · have := sizeOf_lt_of_mem_toList h
    omega
  · have := List.sizeOf_lt_of_mem ho
    cases o
    simp at *
    omega
  · have := List.sizeOf_lt_of_mem h
    omega
  · have := sizeOf_lt_of_mem_toList h
    omega
  · have := sizeOf_lt_of_mem_toList h
    omega
  · have := List.sizeOf_lt_of_mem hc
    cases c
    simp at *
    omega

namespace Part

noncomputable def weight : Part → Nat
  | .expr e => sizeOf e
  | .select s => sizeOf s
  | .projection p => sizeOf p

theorem weight_map_lt {es : List Expr} {q : Part} {n : Nat} (h : q ∈ es.map Part.expr)
    (bound : ∀ e ∈ es, sizeOf e < n) : q.weight < n := by
  simp only [List.mem_map] at h
  obtain ⟨e, he, rfl⟩ := h
  exact bound e he

/-- Every recursion over the parts of a tree ends. -/
theorem weight_lt {p q : Part} (h : q ∈ p.parts) : q.weight < p.weight := by
  cases p with
  | select s => exact weight_map_lt h fun e he => Select.sizeOf_lt_of_mem_exprs he
  | projection p =>
    cases p
    simp only [parts, List.mem_cons, List.not_mem_nil, or_false] at h
    rcases h with rfl | rfl <;> simp +arith [weight]
  | expr e =>
    cases e with
    | const _ | param _ | operator _ | table _ | column _ => simp [parts] at h
    | member _ _ | unary _ _ | select _ | scalar _ | existsIn _ | isNull _ | projection _
    | entity _ _ =>
      simp only [parts, List.mem_cons, List.not_mem_nil, or_false] at h
      subst h
      simp +arith [weight]
    | lambda l =>
      cases l
      simp only [parts, List.mem_cons, List.not_mem_nil, or_false] at h
      subst h
      simp +arith [weight]
    | binary _ _ _ | setOp _ _ _ _ | groupAggregate _ _ _ _ | inSelect _ _ | outerJoined _ _
    | grouping _ _ =>
      simp only [parts, List.mem_cons, List.not_mem_nil, or_false] at h
      rcases h with rfl | rfl <;> simp +arith [weight]
    | cond _ _ _ | between _ _ _ =>
      simp only [parts, List.mem_cons, List.not_mem_nil, or_false] at h
      rcases h with rfl | rfl | rfl <;> simp +arith [weight]
    | call _ args =>
      refine weight_map_lt h fun e he => ?_
      have := List.sizeOf_lt_of_mem he
      simp only [weight, Expr.call.sizeOf_spec]
      omega
    | construct _ fields =>
      simp only [parts, List.mem_map] at h
      obtain ⟨f, hf, rfl⟩ := h
      have := List.sizeOf_lt_of_mem hf
      cases f
      simp [weight] at *
      omega
    | rowNumber orderBy =>
      simp only [parts, List.mem_map] at h
      obtain ⟨o, ho, rfl⟩ := h
      have := List.sizeOf_lt_of_mem ho
      cases o
      simp [weight] at *
      omega
    | join _ left right on =>
      simp only [parts, List.mem_cons] at h
      rcases h with rfl | rfl | h
      · simp +arith [weight]
      · simp +arith [weight]
      · refine weight_map_lt h fun e he => ?_
        have := sizeOf_lt_of_mem_toList he
        simp only [weight, Expr.join.sizeOf_spec]
        omega
    | aggregate _ argument _ =>
      refine weight_map_lt h fun e he => ?_
      have := sizeOf_lt_of_mem_toList he
      simp only [weight, Expr.aggregate.sizeOf_spec]
      omega
    | inValues item values =>
      simp only [parts, List.mem_cons] at h
      rcases h with rfl | h
      · simp +arith [weight]
      · refine weight_map_lt h fun e he => ?_
        have := List.sizeOf_lt_of_mem he
        simp only [weight, Expr.inValues.sizeOf_spec]
        omega
    | clientJoin p outerKey innerKey =>
      simp only [parts, List.mem_append, List.mem_cons] at h
      rcases h with h | rfl | h
      · refine weight_map_lt h fun e he => ?_
        have := List.sizeOf_lt_of_mem he
        simp only [weight, Expr.clientJoin.sizeOf_spec]
        omega
      · simp +arith [weight]
      · refine weight_map_lt h fun e he => ?_
        have := List.sizeOf_lt_of_mem he
        simp only [weight, Expr.clientJoin.sizeOf_spec]
        omega
    | command c =>
      refine weight_map_lt h fun e he => ?_
      have := Command.sizeOf_lt_of_mem_exprs c he
      simp only [weight, Expr.command.sizeOf_spec]
      omega

/-- Collects what `visit` finds at a part and at the parts under it, in walking order; a part that
`enters` refuses is not looked into. -/
def gather {α : Type} (visit : Part → List α) (enters : Part → Bool) (p : Part) : List α :=
  visit p ++ if enters p then p.parts.attach.flatMap fun ⟨q, _⟩ => gather visit enters q else []
termination_by p.weight
decreasing_by exact weight_lt ‹_›

def size (p : Part) : Nat :=
  (p.gather (fun _ => [()]) fun _ => true).length

end Part

end ObjectQuery
