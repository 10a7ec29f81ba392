import ObjectQuery.Proofs.Groupings
import ObjectQuery.Proofs.Likeness
import ObjectQuery.Proofs.MatchingSteps
import ObjectQuery.Sample
import Mathlib.Algebra.Order.BigOperators.Group.List
import Mathlib.Algebra.Order.Group.Nat

/-!
Orderings with secondary keys. Secondary orderings stand around the primary one, so the binder meets them
first and keeps their keys until it has bound the source. Here a whole chain is bound at once, with its own
keys in the order in which they are declared and with nothing kept in between; where each secondary ordering
stands on another ordering, the binder does just that.
-/

namespace ObjectQuery

/-- A primary ordering of a source, and the secondary orderings around it. -/
structure OrderingChain where
  source : Expr
  key : Lambda Expr
  direction : Direction
  others : List (Lambda Expr × Direction)

namespace OrderingChain

def thenBy (c : OrderingChain) (key : Lambda Expr) (direction : Direction) : OrderingChain :=
  { c with others := c.others ++ [(key, direction)] }

def exprs (c : OrderingChain) : List Expr :=
  c.source :: c.key.body :: c.others.map (·.1.body)

end OrderingChain

namespace Expr

/-- The chain of orderings that an expression is. -/
def chain? : Expr → Option OrderingChain
  | .operator (.orderBy source key direction) => some ⟨source, key, direction, []⟩
  | .operator (.thenBy source key direction) => source.chain?.map (·.thenBy key direction)
  | _ => none
termination_by e => (Part.expr e).weight
decreasing_by exact Operator.weight_lt (by simp [Operator.exprs])

end Expr

def Part.Chained : Part → Prop
  | .expr (.operator (.thenBy source _ _)) => source.isOrdering = true
  | _ => True

namespace Expr

variable {e x : Expr} {c : OrderingChain}

theorem chain?_orderBy (source : Expr) (key : Lambda Expr) (direction : Direction) :
    (operator (.orderBy source key direction)).chain? = some ⟨source, key, direction, []⟩ := by
  rw [chain?]

theorem chain?_thenBy (source : Expr) (key : Lambda Expr) (direction : Direction) :
    (operator (.thenBy source key direction)).chain? = source.chain?.map (·.thenBy key direction) := by
  rw [chain?]

/-- A chain is a primary ordering, or a chain with one more secondary ordering around it. -/
@[elab_as_elim]
theorem chain_induction {motive : (e : Expr) → (c : OrderingChain) → e.chain? = some c → Prop}
    (orderBy : ∀ source key direction, motive (operator (.orderBy source key direction))
      ⟨source, key, direction, []⟩ (chain?_orderBy _ _ _))
    (thenBy : ∀ source key direction c (h : source.chain? = some c), motive source c h →
      motive (operator (.thenBy source key direction)) (c.thenBy key direction)
        ((chain?_thenBy _ _ _).trans (congrArg (Option.map _) h)))
    (e : Expr) (c : OrderingChain) (h : e.chain? = some c) : motive e c h := by
  induction e using chain?.induct generalizing c with
  | case1 source key direction =>
    obtain rfl := Option.some.inj ((chain?_orderBy source key direction).symm.trans h)
    exact orderBy _ _ _
  | case2 source key direction ih =>
    obtain ⟨inner, hinner, rfl⟩ := Option.map_eq_some_iff.mp ((chain?_thenBy source key direction).symm.trans h)
    exact thenBy _ _ _ _ hinner (ih inner hinner)
  | case3 e noOrderBy noThenBy =>
    have none := h
    unfold chain? at none
    split at none
    · exact absurd rfl (noOrderBy _ _ _)
    · exact absurd rfl (noThenBy _ _ _)
    · cases none

theorem chain?_eq_none {op : Operator Expr} (unordered : op.isOrdering = false) : (operator op).chain? = none := by
  unfold chain?
  cases op <;> first | rfl | cases unordered

/-- Where each secondary ordering stands on an ordering, every ordering is a chain. -/
theorem exists_chain (ordering : e.isOrdering = true) (chained : (Part.expr e).Everywhere Part.Chained) :
    ∃ c, e.chain? = some c := by
  induction e using chain?.induct with
  | case1 source key direction => exact ⟨_, chain?_orderBy _ _ _⟩
  | case2 source key direction ih =>
    obtain ⟨here, operands⟩ := Part.everywhere_iff.mp chained
    obtain ⟨c, hc⟩ := ih here (operands _ (by simp [Part.operands, Operator.exprs]))
    exact ⟨_, by rw [chain?_thenBy, hc]; rfl⟩
  | case3 e orderBy thenBy =>
    cases e with
    | operator op =>
      cases op with
      | orderBy => exact absurd rfl (orderBy _ _ _)
      | thenBy => exact absurd rfl (thenBy _ _ _)
      | _ => cases ordering
    | _ => cases ordering

end Expr

namespace Part

/-- The part stands under another one, however deep, under an operator as well. -/
def Beneath (q p : Part) : Prop := Relation.TransGen (fun q p => q ∈ p.operands) q p

variable {p q : Part}

theorem Beneath.operand (h : q ∈ p.operands) : Beneath q p := .single h

theorem Beneath.trans {r : Part} (h : Beneath q r) (h' : Beneath r p) : Beneath q p :=
  Relation.TransGen.trans h h'

theorem Beneath.weight_lt (h : Beneath q p) : q.weight < p.weight := by
  induction h with
  | single h => exact weight_lt_of_mem_operands h
  | tail _ h ih => exact ih.trans (weight_lt_of_mem_operands h)

theorem extent_lt_of_mem_operands (h : q ∈ p.operands) : q.extent < p.extent := by
  have le : q.extent ≤ (p.operands.map extent).foldr (· + ·) 0 := List.le_sum_of_mem (List.mem_map_of_mem h)
  rw [extent_eq p]
  omega

theorem Beneath.extent_lt (h : Beneath q p) : q.extent < p.extent := by
  induction h with
  | single h => exact extent_lt_of_mem_operands h
  | tail _ h ih => exact ih.trans (extent_lt_of_mem_operands h)

theorem Beneath.everywhere {P : Part → Prop} (h : Beneath q p) (everywhere : p.Everywhere P) : q.Everywhere P := by
  induction h with
  | single h => exact (everywhere_iff.mp everywhere).2 _ h
  | tail _ h ih => exact ih ((everywhere_iff.mp everywhere).2 _ h)

theorem Beneath.part (h : q ∈ p.parts) : Beneath q p := .single (parts_subset_operands p h)

end Part

namespace Expr

variable {e x : Expr} {c : OrderingChain}

theorem beneath_operator {op : Operator Expr} (h : x ∈ op.exprs) :
    Part.Beneath (.expr x) (.expr (.operator op)) :=
  .operand (List.mem_map_of_mem h)

theorem beneath_peeled {op : Operator Expr} (h : x ∈ op.exprs) :
    Part.Beneath (.expr x.peeled) (.expr (.operator op)) := by
  have outer := beneath_operator h
  unfold peeled
  split
  · exact (beneath_operator (by simp [Operator.exprs])).trans outer
  · exact (beneath_operator (by simp [Operator.exprs])).trans outer
  · exact outer

theorem beneath_chain (h : e.chain? = some c) : ∀ x ∈ c.exprs, Part.Beneath (.expr x) (.expr e) := by
  induction e, c, h using chain_induction with
  | orderBy source key direction =>
    intro x hx
    exact beneath_operator (by simpa [OrderingChain.exprs, Operator.exprs] using hx)
  | thenBy source key direction c _ ih =>
    have below : Part.Beneath (.expr source) (.expr (operator (.thenBy source key direction))) :=
      beneath_operator (by simp [Operator.exprs])
    intro x hx
    have split : x ∈ c.exprs ∨ x = key.body := by
      simp only [OrderingChain.exprs, OrderingChain.thenBy, List.map_append, List.mem_cons, List.mem_append,
        List.map_cons, List.map_nil, List.not_mem_nil, or_false] at hx ⊢
      tauto
    rcases split with hx | rfl
    · exact (ih x hx).trans below
    · exact beneath_operator (by simp [Operator.exprs])

end Expr

namespace Binding

def secondary (element : Expr) (k : Body × Direction) : Binding (Order Expr) := do
  return ⟨k.2, ← apply "ThenBy" k.1 element⟩

def orderAll (ctx : Context) (source : Binding Expr) (key : Body) (direction : Direction)
    (others : List (Body × Direction)) : Binding Expr := do
  let p ← sequence ctx source
  let first := Order.mk direction (← apply "OrderBy" key p.projector)
  let others ← others.mapM (secondary p.projector)
  return .projection (← layer ctx p fun s => { s with orderBy := first :: others })

end Binding

mutual

/-- Binds an expression, and each chain of orderings at once. -/
def Expr.bindChains (ctx : Context) (root : Bool) (e : Expr) : Binding Expr :=
  match e with
  | .param p => Binding.param p
  | .member target name => do return (← target.bindChains ctx false).bindMember name
  | .operator op =>
    match (Expr.operator op).chain?.attach with
    | some ⟨c, _⟩ =>
      Binding.orderAll ctx (c.source.bindChains ctx false) ⟨c.key.params, c.key.body.bindChains ctx false⟩
        c.direction (c.others.attach.map fun ⟨(l, direction), _⟩ =>
          (⟨l.params, l.body.bindChains ctx false⟩, direction))
    | none => Operator.bind ctx root (fun _ => throw .tooDeep) (op.mapMem fun e _ =>
      { expr := e, bind := e.bindChains ctx false, bindPeeled := e.peeled.bindChains ctx false })
  | e => e.traverse (fun c _ => c.bindChains ctx false) (fun s _ => s.bindChains ctx) fun p _ => p.bindChains ctx
termination_by (Part.expr e).weight
decreasing_by
  · exact Part.weight_lt (by simp [Part.parts])
  · exact (Expr.beneath_chain ‹_› _ (by simp [OrderingChain.exprs])).weight_lt
  · exact (Expr.beneath_chain ‹_› _ (by simp [OrderingChain.exprs])).weight_lt
  · exact (Expr.beneath_chain ‹_› _ (List.mem_cons_of_mem _ (List.mem_cons_of_mem _
      (List.mem_map_of_mem ‹_ ∈ _›)))).weight_lt
  · exact Operator.weight_lt ‹_›
  · exact (Expr.beneath_peeled ‹_›).weight_lt
  all_goals exact Part.weight_lt ‹_›

def Select.bindChains (ctx : Context) (s : Select Expr) : Binding (Select Expr) :=
  s.traverse fun e _ => e.bindChains ctx false
termination_by (Part.select s).weight
decreasing_by exact Part.weight_lt ‹_›

def Projection.bindChains (ctx : Context) (p : Projection Expr) : Binding (Projection Expr) :=
  p.traverse (fun e _ => e.bindChains ctx false) fun s _ => s.bindChains ctx
termination_by (Part.projection p).weight
decreasing_by all_goals exact Part.weight_lt ‹_›

end

namespace Expr

variable {e : Expr} {c : OrderingChain}

theorem bindChains_operator (ctx : Context) (root : Bool) {op : Operator Expr} (h : (operator op).chain? = none) :
    (operator op).bindChains ctx root = Operator.bind ctx root (fun _ => throw .tooDeep) (op.mapMem fun e _ =>
      { expr := e, bind := e.bindChains ctx false, bindPeeled := e.peeled.bindChains ctx false }) := by
  rw [bindChains]
  split
  · rename_i found _
    cases h.symm.trans found
  · rfl

/-- A chain is bound at once, from its source and its keys. -/
theorem bindChains_chain (ctx : Context) (root : Bool) (h : e.chain? = some c) : e.bindChains ctx root
    = Binding.orderAll ctx (c.source.bindChains ctx false) ⟨c.key.params, c.key.body.bindChains ctx false⟩
      c.direction (c.others.map fun k => (⟨k.1.params, k.1.body.bindChains ctx false⟩, k.2)) := by
  have bound (op : Operator Expr) (h : (operator op).chain? = some c) : (operator op).bindChains ctx root
      = Binding.orderAll ctx (c.source.bindChains ctx false) ⟨c.key.params, c.key.body.bindChains ctx false⟩
        c.direction (c.others.map fun k => (⟨k.1.params, k.1.body.bindChains ctx false⟩, k.2)) := by
    rw [bindChains]
    split
    · rename_i c' found same
      obtain rfl := Option.some.inj (h.symm.trans found)
      refine congrArg (Binding.orderAll ctx _ _ _) ?_
      exact List.attach_map_val (l := c.others) (f := fun k : Lambda Expr × Direction =>
        ((⟨k.1.params, k.1.body.bindChains ctx false⟩ : Body), k.2))
    · rename_i none
      rw [Option.attach_eq_none_iff, h] at none
      cases none
  induction e, c, h using chain_induction with
  | orderBy => exact bound _ (chain?_orderBy _ _ _)
  | thenBy _ _ _ _ inner => exact bound _ ((chain?_thenBy _ _ _).trans (congrArg (Option.map _) inner))

def bindLater (ctx : Context) : Nat → Lambda Expr → Binding Expr
  | 0, _ => throw .tooDeep
  | fuel + 1, l => l.body.bindAt ctx fuel false

theorem bindAt_later (ctx : Context) (fuel : Nat) (root : Bool) (op : Operator Expr) :
    (operator op).bindAt ctx fuel root = Operator.bind ctx root (bindLater ctx fuel) (op.mapMem fun e _ =>
      { expr := e, bind := e.bindAt ctx fuel false, bindPeeled := e.peeled.bindAt ctx fuel false }) := by
  cases fuel <;> rw [bindAt] <;> rfl

/-- A chain takes its own secondary keys, and after them those that wait already. -/
theorem bindAt_chain (ctx : Context) (fuel : Nat) (root : Bool) (h : e.chain? = some c) (s : BindState) :
    (e.bindAt ctx fuel root).run s
      = (Binding.orderAll ctx (c.source.bindAt ctx fuel false) ⟨c.key.params, c.key.body.bindAt ctx fuel false⟩
        c.direction ((c.others ++ s.pending).map fun k => (⟨k.1.params, bindLater ctx fuel k.1⟩, k.2))).run
        { s with pending := [] } := by
  induction e, c, h using chain_induction generalizing s root with
  | orderBy source key direction =>
    rw [bindAt_later]
    simp only [Operator.mapMem, Operator.bind, Binding.orderBy, Binding.orderAll, List.mapM_map, bind_assoc,
      List.nil_append]
    rfl
  | thenBy source key direction c _ ih =>
    rw [bindAt_later]
    refine (ih false { s with pending := (key, direction) :: s.pending }).trans ?_
    simp [OrderingChain.thenBy]

end Expr

namespace Binding

variable {ctx : Context}

theorem matches_orderAll {source source' : Binding Expr} (h : Matches source source') {key key' : Body}
    (first : BodyMatches key key') (direction : Direction) {others others' : List (Body × Direction)}
    (secondary : List.Forall₂ (fun k k' => BodyMatches k.1 k'.1 ∧ k.2 = k'.2) others others') :
    Matches (orderAll ctx source key direction others) (orderAll ctx source' key' direction others') := by
  refine (matches_sequence ctx h).bind fun p => (matches_apply first _ _).bind fun _ => Matches.bind ?_ fun _ =>
    (matches_layer _ _ _).bind fun _ => .pure _
  induction secondary with
  | nil => exact .pure _
  | @cons k k' _ _ same _ ih =>
    obtain ⟨body, direction⟩ := k
    obtain ⟨body', direction'⟩ := k'
    obtain ⟨same, rfl⟩ := same
    rw [List.mapM_cons, List.mapM_cons]
    exact ((matches_apply same _ _).bind fun _ => .pure _).bind fun _ => ih.bind fun _ => .pure _

end Binding

namespace Part

variable {ctx : Context} {fuel : Nat} {root : Bool}

def Agrees (ctx : Context) : Part → Prop
  | .expr e =>
    ∀ fuel root, (Part.expr e).extent ≤ fuel → Binding.Matches (e.bindAt ctx fuel root) (e.bindChains ctx root)
  | .select s => ∀ fuel, (Part.select s).extent ≤ fuel → Binding.Matches (s.bindAt ctx fuel) (s.bindChains ctx)
  | .projection p =>
    ∀ fuel, (Part.projection p).extent ≤ fuel → Binding.Matches (p.bindAt ctx fuel) (p.bindChains ctx)

/-- A chain takes its keys from where they are written, and not from the buffer. -/
theorem agrees_chain {e : Expr} {c : OrderingChain} (h : e.chain? = some c)
    (beneath : ∀ q, Beneath q (.expr e) → q.Agrees ctx) : (Part.expr e).Agrees ctx := by
  intro fuel root deep
  have below (x : Expr) (hx : x ∈ c.exprs) : Beneath (.expr x) (.expr e) := Expr.beneath_chain h x hx
  have first (x : Expr) (hx : x ∈ c.exprs) : Binding.Matches (x.bindAt ctx fuel false) (x.bindChains ctx false) :=
    beneath _ (below x hx) fuel false ((below x hx).extent_lt.le.trans deep)
  have later (k : Lambda Expr × Direction) (hk : k ∈ c.others) :
      Binding.Matches (Expr.bindLater ctx fuel k.1) (k.1.body.bindChains ctx false) := by
    have hx : k.1.body ∈ c.exprs := by
      simp only [OrderingChain.exprs, List.mem_cons, List.mem_map]
      exact .inr (.inr ⟨k, hk, rfl⟩)
    have lt := (below _ hx).extent_lt.trans_le deep
    obtain ⟨fuel, rfl⟩ : ∃ n, fuel = n + 1 := ⟨fuel - 1, by omega⟩
    exact beneath _ (below _ hx) fuel false (by omega)
  have all : Binding.Matches
      (Binding.orderAll ctx (c.source.bindAt ctx fuel false) ⟨c.key.params, c.key.body.bindAt ctx fuel false⟩
        c.direction (c.others.map fun k => (⟨k.1.params, Expr.bindLater ctx fuel k.1⟩, k.2)))
      (e.bindChains ctx root) := by
    rw [Expr.bindChains_chain ctx root h]
    refine Binding.matches_orderAll (first c.source (by simp [OrderingChain.exprs]))
      (Binding.bodyMatches _ (first c.key.body (by simp [OrderingChain.exprs]))) c.direction ?_
    rw [List.forall₂_map_left_iff, List.forall₂_map_right_iff, List.forall₂_same]
    exact fun k hk => ⟨Binding.bodyMatches _ (later k hk), rfl⟩
  have taken (s : BindState) (hs : s.Clear) : (e.bindAt ctx fuel root).run s = (Binding.orderAll ctx
      (c.source.bindAt ctx fuel false) ⟨c.key.params, c.key.body.bindAt ctx fuel false⟩ c.direction
      (c.others.map fun k => (⟨k.1.params, Expr.bindLater ctx fuel k.1⟩, k.2))).run s := by
    have itself : { s with pending := [] } = s := by
      rw [← show s.pending = [] from hs]
    rw [Expr.bindAt_chain ctx fuel root h, itself, show s.pending = [] from hs, List.append_nil]
  exact ⟨fun hs => (taken _ hs).trans (all.run hs), fun hs run => all.clear hs ((taken _ hs).symm.trans run)⟩

theorem agrees_operator {op : Operator Expr} (unordered : op.isOrdering = false)
    (beneath : ∀ q, Beneath q (.expr (.operator op)) → q.Agrees ctx) : (Part.expr (.operator op)).Agrees ctx := by
  intro fuel root deep
  rw [Expr.bindAt_later, Expr.bindChains_operator ctx root (Expr.chain?_eq_none unordered)]
  refine Binding.matches_operator unordered _ _ (fun e h => ?_) fun e h => ?_
  · exact beneath _ (Expr.beneath_operator h) fuel false ((Expr.beneath_operator h).extent_lt.le.trans deep)
  · exact beneath _ (Expr.beneath_peeled h) fuel false ((Expr.beneath_peeled h).extent_lt.le.trans deep)

/-- An expression that is no ordering is bound alike from parts that are. -/
theorem agrees_other {e : Expr} (unordered : e.isOrdering = false)
    (beneath : ∀ q, Beneath q (.expr e) → q.Agrees ctx) : (Part.expr e).Agrees ctx := by
  intro fuel root deep
  have parts : Binding.Matches
      (e.traverse (fun c _ => c.bindAt ctx fuel false) (fun s _ => s.bindAt ctx fuel) fun p _ => p.bindAt ctx fuel)
      (e.traverse (fun c _ => c.bindChains ctx false) (fun s _ => s.bindChains ctx) fun p _ => p.bindChains ctx) :=
    e.traverse_related Binding.Matches.relates
      (fun c h => beneath _ (.part h) fuel false ((Beneath.part h).extent_lt.le.trans deep))
      (fun s h => beneath _ (.part h) fuel ((Beneath.part h).extent_lt.le.trans deep))
      fun p h => beneath _ (.part h) fuel ((Beneath.part h).extent_lt.le.trans deep)
  cases e with
  | operator op => exact agrees_operator unordered beneath fuel root deep
  | param p =>
    rw [Expr.bindAt, Expr.bindChains]
    exact Binding.matches_param p
  | member target name =>
    have below : Beneath (.expr target) (.expr (.member target name)) := .part (by simp [Part.parts])
    rw [Expr.bindAt, Expr.bindChains]
    exact (beneath _ below fuel false (below.extent_lt.le.trans deep)).bind fun _ => .pure _
  | _ => rw [Expr.bindAt, Expr.bindChains] <;> first | exact parts | simp

/-- Where each secondary ordering stands on an ordering, every part agrees. -/
theorem agrees (ctx : Context) (p : Part) (chained : p.Everywhere Chained) : p.Agrees ctx := by
  have beneath (q : Part) (h : Beneath q p) : q.Agrees ctx := agrees ctx q (h.everywhere chained)
  cases p with
  | select s =>
    intro fuel deep
    rw [Select.bindAt, Select.bindChains]
    exact s.traverse_related Binding.Matches.relates fun e h => beneath _ (.part h) fuel false
      ((Beneath.part h).extent_lt.le.trans deep)
  | projection p =>
    intro fuel deep
    rw [Projection.bindAt, Projection.bindChains]
    exact p.traverse_related Binding.Matches.relates
      (fun e h => beneath _ (.part h) fuel false ((Beneath.part h).extent_lt.le.trans deep))
      fun s h => beneath _ (.part h) fuel ((Beneath.part h).extent_lt.le.trans deep)
  | expr e =>
    cases ordering : e.isOrdering with
    | true =>
      obtain ⟨c, hc⟩ := Expr.exists_chain ordering chained
      exact agrees_chain hc beneath
    | false => exact agrees_other ordering beneath
termination_by p.weight
decreasing_by exact h.weight_lt

end Part

inductive BoundKeys (ctx : Context) (element : Expr) :
    List (Lambda Expr × Direction) → BindState → List (Order Expr) → BindState → Prop
  | nil {s : BindState} : BoundKeys ctx element [] s [] s
  | cons {key : Lambda Expr} {direction : Direction} {rest : List (Lambda Expr × Direction)} {bound : Expr}
      {orders : List (Order Expr)} {s s' s'' : BindState} :
    (Binding.apply "ThenBy" ⟨key.params, key.body.bindChains ctx false⟩ element).run s = .ok (bound, s') →
      BoundKeys ctx element rest s' orders s'' →
      BoundKeys ctx element ((key, direction) :: rest) s (⟨direction, bound⟩ :: orders) s''

/-- A chain is bound to a select over its source that orders by the primary key and then by the keys of the
chain in the order of their declaration, each in its own direction and over the elements of the source. -/
def OrderingChain.BoundTo (ctx : Context) (c : OrderingChain) (s : BindState) (bound : Expr) : Prop :=
  ∃ p q first others s₁ s₂ s₃,
    (Binding.sequence ctx (c.source.bindChains ctx false)).run s = .ok (p, s₁)
    ∧ (Binding.apply "OrderBy" ⟨c.key.params, c.key.body.bindChains ctx false⟩ p.projector).run s₁
      = .ok (first, s₂)
    ∧ BoundKeys ctx p.projector c.others s₂ others s₃
    ∧ bound = .projection q
    ∧ q.select.source = some (.select p.select)
    ∧ q.select.orderBy = ⟨c.direction, first⟩ :: others

namespace Expr

variable {ctx : Context} {e : Expr}

theorem boundKeys_of_mapM {element : Expr} {keys : List (Lambda Expr × Direction)} {orders : List (Order Expr)}
    {s s' : BindState}
    (h : (keys.mapM fun k =>
      Binding.secondary element (⟨k.1.params, k.1.body.bindChains ctx false⟩, k.2)).run s = .ok (orders, s')) :
    BoundKeys ctx element keys s orders s' := by
  induction keys generalizing s orders with
  | nil =>
    cases h
    exact .nil
  | cons k rest ih =>
    rw [List.mapM_cons, StateT.run_bind] at h
    obtain ⟨⟨first, s₁⟩, one, h⟩ := bind_eq_ok.mp h
    rw [Binding.secondary, StateT.run_bind] at one
    rw [StateT.run_bind] at h
    obtain ⟨⟨bound, s₂⟩, run, one⟩ := bind_eq_ok.mp one
    obtain ⟨⟨others, s₃⟩, runs, h⟩ := bind_eq_ok.mp h
    cases one
    cases h
    exact .cons run (ih runs)

theorem boundTo_of_run {c : OrderingChain} (h : e.chain? = some c) {root : Bool} {s : BindState}
    {r : Expr × BindState} (run : (e.bindChains ctx root).run s = .ok r) : c.BoundTo ctx s r.1 := by
  rw [bindChains_chain ctx root h, Binding.orderAll, StateT.run_bind] at run
  obtain ⟨⟨p, s₁⟩, source, run⟩ := bind_eq_ok.mp run
  rw [StateT.run_bind] at run
  obtain ⟨⟨first, s₂⟩, primary, run⟩ := bind_eq_ok.mp run
  rw [List.mapM_map, StateT.run_bind] at run
  obtain ⟨⟨others, s₃⟩, secondary, run⟩ := bind_eq_ok.mp run
  cases run
  exact ⟨p, _, first, others, s₁, s₂, s₃, source, primary, boundKeys_of_mapM secondary, rfl, rfl, rfl⟩

/-- Where each secondary ordering stands on an ordering, a query is bound by binding each chain in it at once. -/
theorem bind_eq_bindChains (chained : (Part.expr e).Everywhere Part.Chained) (supply : Supply) :
    (e.bind ctx).run supply
      = ((e.bindChains ctx true).run (Binding.start supply)).map fun r => (r.1, r.2.supply) := by
  have clear : (Binding.start supply).Clear := rfl
  rw [bind_run, ← (Part.agrees ctx (.expr e) chained _ true le_rfl).run clear, Binding.start]
  cases (e.bindAt ctx (Part.expr e).extent true).run _ <;> rfl

/-- Where each secondary ordering stands on an ordering, a query is bound with every chain of orderings bound at
once to its own keys, and no key waits in the end. The binder itself does so for each chain in the query, wherever
it comes to one with no key waiting. -/
theorem bind_chains (chained : (Part.expr e).Everywhere Part.Chained) {bound : Expr} {supply supply' : Supply}
    (binds : (e.bind ctx).run supply = .ok (bound, supply')) :
    ∃ s, (e.bindAt ctx (Part.expr e).extent true).run (Binding.start supply) = .ok (bound, s)
      ∧ s.supply = supply' ∧ s.pending = []
      ∧ (e.bindChains ctx true).run (Binding.start supply) = .ok (bound, s)
      ∧ ∀ (x : Expr) (c : OrderingChain), x.chain? = some c →
        (∀ root t r, (x.bindChains ctx root).run t = .ok r → c.BoundTo ctx t r.1)
        ∧ ((x = e ∨ Part.Beneath (.expr x) (.expr e)) →
          ∀ fuel root t r, (Part.expr x).extent ≤ fuel → t.pending = [] → (x.bindAt ctx fuel root).run t = .ok r →
            c.BoundTo ctx t r.1 ∧ r.2.pending = []) := by
  have agrees := Part.agrees ctx (.expr e) chained _ true le_rfl
  have clear : (Binding.start supply).Clear := rfl
  rw [bind_run] at binds
  split at binds
  · rename_i bound' s run
    cases binds
    refine ⟨s, run, rfl, agrees.clear clear run, (agrees.run clear).symm.trans run, fun x c h => ⟨?_, ?_⟩⟩
    · exact fun root t r run => boundTo_of_run h run
    · intro within fuel root t r deep clear run
      have inside : (Part.expr x).Everywhere Part.Chained := by
        rcases within with rfl | beneath
        exacts [chained, beneath.everywhere chained]
      have agrees := Part.agrees ctx (.expr x) inside fuel root deep
      exact ⟨boundTo_of_run h ((agrees.run clear).symm.trans run), agrees.clear clear run⟩
  · cases binds

end Expr

namespace Sample

def dearestOrders : Expr :=
  .operator (.thenBy (.operator (.orderBy (.operator (.table "Orders"))
    ⟨[⟨2⟩], .member (.param ⟨2⟩) "Freight"⟩ .descending)) ⟨[⟨3⟩], .member (.param ⟨3⟩) "OrderID"⟩ .ascending)

def rankedCustomers : Expr :=
  .operator (.thenBy (.operator (.thenBy (.operator (.orderBy (.operator (.table "Customers"))
    ⟨[⟨0⟩], .member (.param ⟨0⟩) "City"⟩ .ascending))
    ⟨[⟨1⟩], .operator (.aggregate dearestOrders .count none)⟩ .descending))
    ⟨[⟨4⟩], .member (.param ⟨4⟩) "CompanyName"⟩ .ascending)

theorem chained_rankedCustomers : (Part.expr rankedCustomers).Everywhere Part.Chained := by
  simp [rankedCustomers, dearestOrders, Part.everywhere_iff (p := .expr _), Part.operands, Part.parts,
    Operator.exprs, Part.Chained, Expr.isOrdering, Operator.isOrdering]

/-- The ordering inside the second key keeps its own keys. -/
theorem bind_rankedCustomers : ∃ (bound : Expr) (s : BindState) (c : OrderingChain),
    rankedCustomers.chain? = some c ∧ c.others.map (·.2) = [.descending, .ascending]
    ∧ (rankedCustomers.bind (context .ansi .server)).run ⟨0⟩ = .ok (bound, s.supply) ∧ s.pending = []
    ∧ c.BoundTo (context .ansi .server) (Binding.start ⟨0⟩) bound := by
  have binds : ((rankedCustomers.bind (context .ansi .server)).run ⟨0⟩).toOption.any (fun _ => true) = true := by
    rw [Expr.bind_eq_bindChains chained_rankedCustomers]
    decide +kernel
  obtain ⟨⟨bound, supply'⟩, binds, -⟩ := exists_ok_of_any binds
  obtain ⟨s, -, rfl, clear, run, ordered⟩ := Expr.bind_chains chained_rankedCustomers binds
  obtain ⟨c, hc⟩ := Expr.exists_chain rfl chained_rankedCustomers
  have others : rankedCustomers.chain?.map (·.others.map (·.2)) = some [.descending, .ascending] := by
    rw [rankedCustomers, Expr.chain?_thenBy, Expr.chain?_thenBy, Expr.chain?_orderBy]
    rfl
  rw [hc] at others
  exact ⟨bound, s, c, hc, Option.some.inj others, binds, clear, (ordered _ _ hc).1 _ _ _ run⟩

end Sample

end ObjectQuery
