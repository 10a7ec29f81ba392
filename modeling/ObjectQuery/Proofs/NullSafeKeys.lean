import ObjectQuery.Proofs.Conditions
import ObjectQuery.Proofs.Groupings
import ObjectQuery.Sample

/-!
Keys that are equal. A group is correlated with the rows of its source by a condition on their keys, a
conjunction written out so that it comes out true where null meets null, while groups are told apart by
comparing the keys themselves. Both agree on keys of any length, whatever nulls they hold.
-/

namespace ObjectQuery

open Eval

namespace Eval

variable {tables : Tables} {σ : Scope}

/-- The conditions on the components, which are all true just where the keys are equal. -/
theorem scalar_components {as bs : List Expr} {vs ws : List Value}
    (ha : List.Forall₂ (fun a v => scalar tables a σ = .ok v) as vs)
    (hb : List.Forall₂ (fun b w => scalar tables b σ = .ok w) bs ws)
    (comparable : List.Forall₂ (fun v w => ∃ o, Value.compare v w = .ok o) vs ws) :
    ∃ ts, List.Forall₂ (fun e t => scalar tables e σ = .ok (.ofTruth t))
        ((as.zip bs).map fun p => .nullSafe p.1 p.2 (.isNull p.2)) ts
      ∧ ts.all (· == some true) = Value.keysEqual vs ws := by
  induction comparable generalizing as bs with
  | nil =>
    cases ha
    exact ⟨[], .nil, rfl⟩
  | @cons v w vs ws first _ ih =>
    obtain ⟨o, compared⟩ := first
    cases ha with
    | cons hv ha =>
      cases hb with
      | cons hw hb =>
        obtain ⟨ts, terms, all⟩ := ih ha hb
        refine ⟨Value.nullSafe o v w :: ts, .cons (scalar_nullSafe hv hw (scalar_isNull hw) compared) terms, ?_⟩
        rw [List.all_cons, all, Value.nullSafe_eq_true compared]
        simp [Value.keysEqual]

/-- The condition on two keys holds just where the keys are equal. -/
theorem holds_nullSafeEqual {as bs : List Expr} {vs ws : List Value} (nonempty : as ≠ [])
    (ha : (as.mapM fun a => scalar tables a σ) = .ok vs) (hb : (bs.mapM fun b => scalar tables b σ) = .ok ws)
    (comparable : List.Forall₂ (fun v w => ∃ o, Value.compare v w = .ok o) vs ws) :
    ∃ e, Expr.nullSafeEqual? as bs = some e
      ∧ (do holds (← scalar tables e σ)) = .ok (Value.keysEqual vs ws) := by
  have left := forall₂_of_mapM ha
  have right := forall₂_of_mapM hb
  have lengths : as.length = bs.length := by rw [left.length_eq, comparable.length_eq, right.length_eq]
  obtain ⟨ts, terms, all⟩ := scalar_components left right comparable
  change ∃ e, Expr.conjoin? ((as.zip bs).map fun p => .nullSafe p.1 p.2 (.isNull p.2)) = some e ∧ _
  generalize components : ((as.zip bs).map fun p => Expr.nullSafe p.1 p.2 (.isNull p.2)) = es at terms ⊢
  cases terms with
  | nil =>
    have none : (as.zip bs).length = 0 := by rw [List.map_eq_nil_iff.mp components, List.length_nil]
    rw [List.length_zip, ← lengths, Nat.min_self] at none
    exact absurd (List.eq_nil_of_length_eq_zero none) nonempty
  | @cons e t rest ts first others =>
    refine ⟨rest.foldl .both e, rfl, ?_⟩
    have whole : scalar tables (rest.foldl .both e) σ = .ok (.ofTruth (ts.foldl Value.and3 t)) :=
      scalar_chain Value.binary_and_ofTruth first others
    rw [whole, ok_bind, holds_ofTruth, ← all, Except.ok.injEq, Bool.eq_iff_iff, beq_iff_eq,
      Value.foldl_and3_eq_true, List.all_eq_true]
    simp only [beq_iff_eq]

end Eval

namespace Sample

def staffKey (rel : Alias) : List Expr := [.column ⟨rel, "Name", .unknown⟩, .column ⟨rel, "boss_id", .int⟩]

def besideStaff (row other : Row) : Scope := (Scope.root.bind ⟨1⟩ row).bind ⟨2⟩ other

/-- The key of one without a manager meets itself, and the condition on it holds. -/
theorem holds_staffKey : ∃ e, Expr.nullSafeEqual? (staffKey ⟨1⟩) (staffKey ⟨2⟩) = some e
    ∧ (do holds (← scalar tables e (besideStaff [("ID", .int 1), ("Name", .text "Ann"), ("boss_id", .null)]
        [("ID", .int 5), ("Name", .text "Ann"), ("boss_id", .null)]))) = .ok true := by
  have key (rel : Alias) (row other : Row) (v w : Value)
      (hv : (besideStaff row other).column ⟨rel, "Name", .unknown⟩ = .ok v)
      (hw : (besideStaff row other).column ⟨rel, "boss_id", .int⟩ = .ok w) :
      ((staffKey rel).mapM fun a => scalar tables a (besideStaff row other)) = .ok [v, w] := by
    simp only [staffKey, List.mapM_cons, List.mapM_nil, scalar, hv, hw]
    rfl
  have keys : Value.keysEqual [.text "Ann", .null] [.text "Ann", .null] = true := by decide
  rw [← keys]
  exact holds_nullSafeEqual (by simp [staffKey]) (key ⟨1⟩ _ _ _ _ rfl rfl) (key ⟨2⟩ _ _ _ _ rfl rfl)
    (.cons ⟨_, rfl⟩ (.cons ⟨_, rfl⟩ .nil))

end Sample

end ObjectQuery
