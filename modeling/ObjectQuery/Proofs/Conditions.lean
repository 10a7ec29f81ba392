import Mathlib.Data.List.Forall2
import ObjectQuery.Proofs.Evaluation

/-!
What conditions say. A condition is true, false or unknown. A comparison is unknown where one of its sides is
null; a conjunction is true only where both of its sides are.
-/

namespace ObjectQuery

namespace Value

def meets (o : Option Ordering) : Option Bool := o.map (· == .eq)

theorem binary_eq (a b : Value) : binary .eq a b = (do return ofTruth (meets (← compare a b))) := rfl

theorem truth_ofTruth (t : Option Bool) : (ofTruth t).truth = .ok t := by
  rcases t with _ | _ | _ <;> rfl

theorem truth_eq_true {v : Value} (h : v.truth = .ok (some true)) : v = .bool true := by
  cases v with
  | bool b => rw [Option.some.inj (Except.ok.inj h)]
  | _ => cases h

@[simp] theorem or3_false (t : Option Bool) : or3 (some false) t = t := by
  rcases t with _ | _ | _ <;> rfl

@[simp] theorem or3_true (t : Option Bool) : or3 t (some true) = some true := by
  rcases t with _ | _ | _ <;> rfl

theorem and3_eq_true {s t : Option Bool} : and3 s t = some true ↔ s = some true ∧ t = some true := by
  rcases s with _ | _ | _ <;> rcases t with _ | _ | _ <;> decide

theorem foldl_and3_eq_true {t : Option Bool} {ts : List (Option Bool)} :
    ts.foldl and3 t = some true ↔ ∀ s ∈ t :: ts, s = some true := by
  induction ts generalizing t with
  | nil => simp
  | cons s rest ih =>
    rw [List.foldl_cons, ih, List.forall_mem_cons, and3_eq_true]
    simp [and_assoc]

theorem binary_and_ofTruth (s t : Option Bool) :
    binary .and (ofTruth s) (ofTruth t) = .ok (ofTruth (and3 s t)) := by
  simp only [binary, truth_ofTruth, ok_bind]
  rfl

theorem binary_or_ofTruth (s t : Option Bool) :
    binary .or (ofTruth s) (ofTruth t) = .ok (ofTruth (or3 s t)) := by
  simp only [binary, truth_ofTruth, ok_bind]
  rfl

/-- A conjunction is true only of true conditions. -/
theorem both_of_and {a b : Value} (h : binary .and a b = .ok (.bool true)) :
    a = .bool true ∧ b = .bool true := by
  obtain ⟨left, hl, h⟩ := bind_eq_ok.mp h
  obtain ⟨right, hr, h⟩ := bind_eq_ok.mp h
  have certain : (ofTruth (and3 left right)).truth = .ok (some true) := by
    rw [Except.ok.inj h]
    rfl
  rw [truth_ofTruth, Except.ok.injEq, and3_eq_true] at certain
  obtain ⟨rfl, rfl⟩ := certain
  exact ⟨truth_eq_true hl, truth_eq_true hr⟩

theorem known_of_compare {a b : Value} {o : Ordering} (h : compare a b = .ok (some o)) :
    a.isNull = false ∧ b.isNull = false := by
  cases a <;> cases b <;> first | exact ⟨rfl, rfl⟩ | cases h

/-- A comparison that is true compares known values. -/
theorem known_of_comparison {op : BinaryOp} (comparison : op.isComparison = true) {a b : Value}
    (h : binary op a b = .ok (.bool true)) : a.isNull = false ∧ b.isNull = false := by
  have compared : (do return ofTruth ((← compare a b).map (satisfies op)) : Result Value)
      = .ok (.bool true) := by
    cases op <;> first | exact h | cases comparison
  obtain ⟨order, found, truth⟩ := bind_eq_ok.mp compared
  cases order with
  | none => cases truth
  | some o => exact known_of_compare found

def nullSafe (o : Option Ordering) (a b : Value) : Option Bool :=
  or3 (meets o) (and3 (some a.isNull) (some b.isNull))

theorem isEqual_of_compare {a b : Value} {o : Option Ordering} (h : compare a b = .ok o) : a.isEqual b = (meets o == some true) := by
  rw [isEqual, h]
  rcases o with _ | _ | _ | _ <;> rfl

/-- One component of a key is equal just where it is certain that its sides are equal or both null. -/
theorem nullSafe_eq_true {a b : Value} {o : Option Ordering} (h : compare a b = .ok o) : (nullSafe o a b == some true) = keysEqual [a] [b] := by
  have known (ha : a.isNull = false) : (nullSafe o a b == some true) = a.isEqual b := by
    rw [isEqual_of_compare h, nullSafe, ha]
    rcases o with _ | _ | _ | _ <;> cases b.isNull <;> rfl
  cases a with
  | null =>
    obtain rfl : none = o := Except.ok.inj h
    cases b <;> rfl
  | _ => simp [known rfl, keysEqual]

end Value

namespace Eval

variable {tables : Tables} {σ : Scope}

theorem holds_ofTruth (t : Option Bool) : holds (.ofTruth t) = .ok (t == some true) := by
  rw [holds, Value.truth_ofTruth]
  rfl

/-- Only what is certain holds. -/
theorem eq_true_of_holds {v : Value} (h : holds v = .ok true) : v = .bool true := by
  obtain ⟨truth, ht, h⟩ := bind_eq_ok.mp h
  have certain : truth = some true := by simpa using Except.ok.inj h
  exact Value.truth_eq_true (certain ▸ ht)

theorem scalar_binary (op : BinaryOp) (a b : Expr) : scalar tables (.binary op a b) σ
    = (do Value.binary op (← scalar tables a σ) (← scalar tables b σ)) := by
  rw [scalar]

theorem scalar_isNull {e : Expr} {v : Value} (h : scalar tables e σ = .ok v) :
    scalar tables (.isNull e) σ = .ok (.bool v.isNull) := by
  rw [scalar, h]
  rfl

/-- Conditions that are joined from left to right by a connective. -/
theorem scalar_chain {op : BinaryOp} {f : Option Bool → Option Bool → Option Bool}
    (connective : ∀ s t, Value.binary op (.ofTruth s) (.ofTruth t) = .ok (.ofTruth (f s t)))
    {e : Expr} {rest : List Expr} {t : Option Bool} {ts : List (Option Bool)}
    (first : scalar tables e σ = .ok (.ofTruth t))
    (others : List.Forall₂ (fun e t => scalar tables e σ = .ok (.ofTruth t)) rest ts) :
    scalar tables (rest.foldl (.binary op) e) σ = .ok (.ofTruth (ts.foldl f t)) := by
  induction others generalizing e t with
  | nil => exact first
  | cons second _ ih =>
    refine ih ?_
    rw [scalar_binary, first, second]
    exact connective _ _

/-- The sides of a binary expression that has a value. -/
theorem sides_of_binary {op : BinaryOp} {a b : Expr} {v : Value} (h : scalar tables (.binary op a b) σ = .ok v) :
    ∃ x y, scalar tables a σ = .ok x ∧ scalar tables b σ = .ok y ∧ Value.binary op x y = .ok v := by
  rw [scalar_binary] at h
  obtain ⟨x, hx, h⟩ := bind_eq_ok.mp h
  obtain ⟨y, hy, h⟩ := bind_eq_ok.mp h
  exact ⟨x, y, hx, hy, h⟩

end Eval

end ObjectQuery
