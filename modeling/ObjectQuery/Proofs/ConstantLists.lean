import ObjectQuery.Proofs.Conditions
import ObjectQuery.Proofs.Congruence
import ObjectQuery.Proofs.Groupings

/-!
Questions about a list of constants. Whether an item is in the list is asked by IN, and whether some constant
equals it is written out as a disjunction. Both are three-valued, and they agree as long as the item has one
value: the disjunction holds a copy of the item for each constant, and each copy is bound anew.
-/

namespace ObjectQuery

open Eval

namespace Value

inductive Single : Value → Prop
  | null : Single .null
  | bool (b : Bool) : Single (.bool b)
  | int (n : Int) : Single (.int n)
  | text (s : String) : Single (.text s)

/-- Equality can be asked from either side. -/
theorem Single.compare_swap {a b : Value} (ha : a.Single) (hb : b.Single) {o : Option Ordering}
    (h : compare a b = .ok o) : ∃ o', compare b a = .ok o' ∧ meets o' = meets o := by
  have swapped : ∀ {α : Type} [Ord α] [Std.OrientedOrd α] (x y : α),
      meets (some (Ord.compare y x)) = meets (some (Ord.compare x y)) := by
    intro α _ _ x y
    rw [Std.OrientedOrd.eq_swap (a := y)]
    cases Ord.compare x y <;> rfl
  cases ha <;> cases hb <;> cases h <;> refine ⟨_, rfl, ?_⟩ <;> try rfl
  case bool.bool x y => cases x <;> cases y <;> rfl
  case int.int x y => exact swapped x y
  case text.text x y => exact swapped x y

theorem foldl_or3_true (ts : List (Option Bool)) : ts.foldl or3 (some true) = some true := by
  induction ts with
  | nil => rfl
  | cons t rest ih => exact ih

variable {v : Value} {cs : List Value} {ts : List (Option Bool)}

/-- The walk over the candidates is a disjunction that starts from what was seen before. -/
theorem isInFrom_eq (h : List.Forall₂ (fun c t => ∃ o, compare v c = .ok o ∧ meets o = t) cs ts) (sawNull : Bool) :
    isInFrom v sawNull cs = .ok (ofTruth (ts.foldl or3 (if sawNull then none else some false))) := by
  induction h generalizing sawNull with
  | nil => cases sawNull <;> rfl
  | cons first _ ih =>
    obtain ⟨o, compared, rfl⟩ := first
    rw [isInFrom, compared, List.foldl_cons, ok_bind]
    rcases o with _ | _ | _ | _
    · refine (ih true).trans ?_
      cases sawNull <;> rfl
    · refine (ih sawNull).trans ?_
      cases sawNull <;> rfl
    · rw [show meets (some .eq) = some true from rfl, or3_true, foldl_or3_true]
      rfl
    · refine (ih sawNull).trans ?_
      cases sawNull <;> rfl

theorem isInFrom_null (cs : List Value) : isInFrom .null true cs = .ok .null := by
  induction cs with
  | nil => rfl
  | cons c rest ih => exact ih

/-- The candidates are asked one after another, also for null. -/
theorem isIn_eq_isInFrom (v : Value) (cs : List Value) : v.isIn cs = isInFrom v false cs := by
  rw [isIn]
  split
  · rename_i none
    rw [List.isEmpty_iff.mp none]
    rfl
  · split
    · rename_i some null
      obtain rfl : v = .null := by
        cases v <;> first | rfl | cases null
      cases cs with
      | nil => exact absurd rfl some
      | cons c rest => exact (isInFrom_null rest).symm
    · rfl

theorem isIn_eq (h : List.Forall₂ (fun c t => ∃ o, compare v c = .ok o ∧ meets o = t) cs ts) :
    v.isIn cs = .ok (ofTruth (ts.foldl or3 (some false))) := by
  rw [isIn_eq_isInFrom, isInFrom_eq h]
  rfl

end Value

variable {tables : Tables} {σ : Scope}

def Expr.disjunction (e : Expr) (rest : List Expr) : Expr := rest.foldl .either e

def Expr.someOf : List Expr → Expr
  | [] => .const (.bool false)
  | e :: rest => e.disjunction rest

namespace Eval

/-- Each term of a disjunction that has a value has one. -/
theorem ok_of_disjunction {e : Expr} {rest : List Expr} {b : Value}
    (h : scalar tables (e.disjunction rest) σ = .ok b) : ∀ e' ∈ e :: rest, ∃ a, scalar tables e' σ = .ok a := by
  induction rest generalizing e with
  | nil => simpa using ⟨b, h⟩
  | cons r rest ih =>
    have all := ih h
    obtain ⟨a, either⟩ := all (.either e r) (by simp)
    obtain ⟨_, _, first, second, -⟩ := sides_of_binary either
    rw [List.forall_mem_cons, List.forall_mem_cons]
    exact ⟨⟨_, first⟩, ⟨_, second⟩, fun e' he' => all e' (by simp [he'])⟩

theorem scalar_disjunction {e : Expr} {rest : List Expr} {t : Option Bool} {ts : List (Option Bool)}
    (first : scalar tables e σ = .ok (.ofTruth t))
    (others : List.Forall₂ (fun e t => scalar tables e σ = .ok (.ofTruth t)) rest ts) :
    scalar tables (e.disjunction rest) σ = .ok (.ofTruth (ts.foldl Value.or3 t)) :=
  scalar_chain Value.binary_or_ofTruth first others

theorem ok_of_someOf {es : List Expr} {b : Value} (h : scalar tables (Expr.someOf es) σ = .ok b) :
    ∀ e ∈ es, ∃ a, scalar tables e σ = .ok a := by
  cases es with
  | nil => simp
  | cons e rest => exact ok_of_disjunction h

theorem scalar_someOf {es : List Expr} {ts : List (Option Bool)}
    (h : List.Forall₂ (fun e t => scalar tables e σ = .ok (.ofTruth t)) es ts) :
    scalar tables (Expr.someOf es) σ = .ok (.ofTruth (ts.foldl Value.or3 (some false))) := by
  cases h with
  | nil => rw [Expr.someOf, scalar, List.foldl_nil]; rfl
  | cons first others =>
    rw [List.foldl_cons, Value.or3_false]
    exact scalar_disjunction first others

/-- One constant, compared with a copy of the item. -/
theorem exists_meets {c v : Value} (hc : c.Single) (hv : v.Single) {e : Expr} (he : scalar tables e σ = .ok v)
    {b : Value} (hb : scalar tables (.equals (.const c) e) σ = .ok b) :
    ∃ t, (∃ o, Value.compare v c = .ok o ∧ Value.meets o = t)
      ∧ scalar tables (.equals (.const c) e) σ = .ok (.ofTruth t) := by
  have equality := hb
  rw [Expr.equals, scalar_binary, scalar, he, ok_bind, ok_bind, Value.binary_eq] at hb
  obtain ⟨o, ho, hb⟩ := bind_eq_ok.mp hb
  cases hb
  obtain ⟨o', ho', same⟩ := hc.compare_swap hv ho
  exact ⟨_, ⟨o', ho', same⟩, equality⟩

/-- That some constant equals the item, each in a copy of its own, is as true as that it is in their list. -/
theorem scalar_someOf_equals {values : List Value} (singles : ∀ c ∈ values, c.Single) {v : Value}
    (single : v.Single) {terms : List Expr} (copies : List.Forall₂ (fun c term => ∃ e, term = .equals (.const c) e
      ∧ scalar tables e σ = .ok v) values terms) {b : Value} (hb : scalar tables (Expr.someOf terms) σ = .ok b) :
    v.isIn values = .ok b := by
  have equalities := ok_of_someOf hb
  have meets : ∃ ts, List.Forall₂ (fun c t => ∃ o, Value.compare v c = .ok o ∧ Value.meets o = t) values ts
      ∧ List.Forall₂ (fun e t => scalar tables e σ = .ok (.ofTruth t)) terms ts := by
    clear hb
    induction copies with
    | nil => exact ⟨[], .nil, .nil⟩
    | cons copy _ ih =>
      rw [List.forall_mem_cons] at singles equalities
      obtain ⟨ts, compared, valued⟩ := ih singles.2 equalities.2
      obtain ⟨e, rfl, he⟩ := copy
      obtain ⟨_, equality⟩ := equalities.1
      obtain ⟨t, first, value⟩ := exists_meets singles.1 single he equality
      exact ⟨t :: ts, .cons first compared, .cons value valued⟩
  obtain ⟨ts, compared, valued⟩ := meets
  rw [Value.isIn_eq compared, ← scalar_someOf valued, hb]

/-- An item among constants that are no lists. -/
theorem scalar_inValues_const {values : List Value} (singles : ∀ c ∈ values, c.Single) (e : Expr) :
    scalar tables (.inValues e (values.map .const)) σ = (do (← scalar tables e σ).isIn values) := by
  rw [scalar_inValues]
  refine bind_congr fun v => ?_
  rw [List.mapM_map, mapM_eq_ok (g := fun c => [c])]
  · rw [ok_bind, ← List.flatMap_def, List.flatMap_singleton']
  · intro c hc
    rw [Function.comp_apply, scalar]
    cases singles c hc <;> rfl

end Eval

namespace Binding

structure Settled (tables : Tables) (σ : Scope) (item : Binding Expr) (among : BindState → Prop) (v : Value) :
    Prop where
  value {s e s'} : among s → item.run s = .ok (e, s') → scalar tables e σ = .ok v
  stays {s e s'} : among s → item.run s = .ok (e, s') → among s'

end Binding

variable {ctx : Context} {fuel : Nat} {x : Expr} {y : Param} {values : List Value}

theorem Expr.bindAt_contains : (Expr.operator (.contains (.const (.list values)) x)).bindAt ctx fuel false
    = do return .inValues (← x.bindAt ctx fuel false) (values.map .const) := by
  obtain ⟨_, bound⟩ := Expr.bindAt_operator ctx fuel false (.contains (.const (.list values)) x)
  rw [bound]
  rfl

def Expr.someEquals (values : List Value) (y : Param) (x : Expr) : Expr :=
  .operator (.any (.const (.list values)) (some ⟨[y], .equals (.param y) x⟩))

theorem Expr.bindAt_someEquals : (Expr.someEquals values y x).bindAt ctx fuel false = do
    return .someOf (← values.mapM fun c =>
      Binding.apply "Any" ⟨[y], (Expr.equals (.param y) x).bindAt ctx fuel false⟩ (.const c)) := by
  obtain ⟨_, bound⟩ := Expr.bindAt_operator ctx fuel false
    (.any (.const (.list values)) (some ⟨[y], .equals (.param y) x⟩))
  rw [Expr.someEquals, bound]
  refine (bind_pure _).trans (bind_congr fun terms => ?_)
  cases terms <;> rfl

/-- The equality with one constant holds a new copy of the item. -/
theorem Binding.apply_equals {c : Value} {s s' : BindState} {term : Expr}
    (h : (apply "Any" ⟨[y], (Expr.equals (.param y) x).bindAt ctx fuel false⟩ (.const c)).run s = .ok (term, s')) :
    ∃ e, (x.bindAt ctx fuel false).run { s with params := (y, .const c) :: s.params } = .ok (e, s')
      ∧ term = .equals (.const c) e := by
  have assigned : (assign "Any" [y] 0 (.const c)).run s
      = .ok ((), { s with params := (y, .const c) :: s.params }) := assign_run rfl
  have itself : ((Expr.param y).bindAt ctx fuel false).run { s with params := (y, .const c) :: s.params }
      = .ok (.const c, { s with params := (y, .const c) :: s.params }) := by
    rw [Expr.bindAt]
    refine param_run_self ?_ ?_ List.lookup_cons_self
    · rw [Part.ownAliases, Part.gather]
      simp [Part.parts]
    · rw [Part.ownParams, Part.gather]
      simp [Part.parts]
  have equality : (Expr.equals (.param y) x).bindAt ctx fuel false = do
      let left ← (Expr.param y).bindAt ctx fuel false
      let right ← x.bindAt ctx fuel false
      return .equals left right := by
    rw [Expr.equals, Expr.bindAt.eq_def ctx fuel false (.binary .eq (.param y) x)]
    rfl
  rw [apply, StateT.run_bind, assigned, ok_bind, equality, StateT.run_bind, itself, ok_bind, StateT.run_bind] at h
  obtain ⟨⟨e, s''⟩, copy, h⟩ := bind_eq_ok.mp h
  cases h
  exact ⟨e, copy, rfl⟩

/-- The terms of the question hold copies of the item that have its value. -/
theorem Binding.Settled.terms {among : BindState → Prop} {v : Value}
    (settled : (x.bindAt ctx fuel false).Settled tables σ among v)
    (assigned : ∀ s c, among s → among { s with params := (y, .const c) :: s.params })
    {s : BindState} (hs : among s)
    {r : List Expr × BindState} (run : (values.mapM fun c => apply "Any"
      ⟨[y], (Expr.equals (.param y) x).bindAt ctx fuel false⟩ (.const c)).run s = .ok r) :
    List.Forall₂ (fun c term => ∃ e, term = .equals (.const c) e ∧ scalar tables e σ = .ok v) values r.1 := by
  induction values generalizing s r with
  | nil =>
    cases run
    exact .nil
  | cons c rest ih =>
    rw [List.mapM_cons, StateT.run_bind] at run
    obtain ⟨⟨term, s₁⟩, first, run⟩ := bind_eq_ok.mp run
    rw [StateT.run_bind] at run
    obtain ⟨⟨terms, s₂⟩, others, run⟩ := bind_eq_ok.mp run
    cases run
    obtain ⟨e, copy, rfl⟩ := apply_equals first
    have start := assigned s c hs
    exact .cons ⟨e, rfl, settled.value start copy⟩ (ih (settled.stays start copy) others)

/-- Membership among constants, and the question whether one of them equals the item, are answered alike in
whatever states they are bound, as long as each copy of the item has the same value. -/
theorem Eval.contains_eq_someEquals (singles : ∀ c ∈ values, c.Single) {v : Value} (single : v.Single)
    {among : BindState → Prop} (settled : (x.bindAt ctx fuel false).Settled tables σ among v)
    (assigned : ∀ s c, among s → among { s with params := (y, .const c) :: s.params })
    {s s' t t' : BindState} (hs : among s) (ht : among t) {membership question : Expr}
    (contains : ((Expr.operator (.contains (.const (.list values)) x)).bindAt ctx fuel false).run s
      = .ok (membership, s'))
    (any : ((Expr.someEquals values y x).bindAt ctx fuel false).run t = .ok (question, t'))
    {a b : Value} (ha : scalar tables membership σ = .ok a) (hb : scalar tables question σ = .ok b) : a = b := by
  rw [Expr.bindAt_contains, StateT.run_bind] at contains
  obtain ⟨⟨e, s₁⟩, copy, contains⟩ := bind_eq_ok.mp contains
  cases contains
  rw [scalar_inValues_const singles, settled.value hs copy] at ha
  rw [Expr.bindAt_someEquals, StateT.run_bind] at any
  obtain ⟨⟨terms, t₁⟩, copies, any⟩ := bind_eq_ok.mp any
  cases any
  exact Except.ok.inj (ha.symm.trans (scalar_someOf_equals singles single (settled.terms assigned ht copies) hb))

/-- A member of a parameter that stands for an object of the row has the value it has there. -/
theorem Binding.settled_member {p : Param} {bound : Expr} (aliases : (Part.expr bound).ownAliases = [])
    (params : (Part.expr bound).ownParams = []) {name : String} {v : Value}
    (value : scalar tables (bound.bindMember name) σ = .ok v) :
    ((Expr.member (.param p) name).bindAt ctx fuel false).Settled tables σ
      (fun s => s.params.lookup p = some bound) v := by
  constructor
  · intro s e s' found run
    cases (member_run aliases params found name false).symm.trans run
    exact value
  · intro s e s' found run
    cases (member_run aliases params found name false).symm.trans run
    exact found

/-- In a lambda, `list.Contains(o.Name)` and `list.Any(y => y == o.Name)` are answered alike. -/
theorem Eval.contains_member_eq_someEquals (singles : ∀ c ∈ values, c.Single) {p : Param} (apart : p ≠ y)
    {bound : Expr}
    (aliases : (Part.expr bound).ownAliases = []) (params : (Part.expr bound).ownParams = []) {name : String}
    {v : Value} (single : v.Single) (value : scalar tables (bound.bindMember name) σ = .ok v)
    {s s' t t' : BindState} (hs : s.params.lookup p = some bound) (ht : t.params.lookup p = some bound)
    {membership question : Expr}
    (contains : ((Expr.operator (.contains (.const (.list values)) (.member (.param p) name))).bindAt ctx fuel
      false).run s = .ok (membership, s'))
    (any : ((Expr.someEquals values y (.member (.param p) name)).bindAt ctx fuel false).run t = .ok (question, t'))
    {a b : Value} (ha : scalar tables membership σ = .ok a) (hb : scalar tables question σ = .ok b) : a = b := by
  refine contains_eq_someEquals singles single (Binding.settled_member aliases params value) ?_ hs ht
    contains any ha hb
  intro s c found
  rw [List.lookup_cons, beq_false_of_ne apart]
  exact found

end ObjectQuery
