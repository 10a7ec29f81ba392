import ObjectQuery.Proofs.Scoping
import ObjectQuery.Rewrite.UsedColumns

/-!
The marks of a walk. A walk marks columns of the aliases that are in sight of the parts it goes
through, or that are declared there; readers are walked before what they read from, so that all marks
of a column are made when the walk comes to the select that declares it.
-/

namespace ObjectQuery

open UsedColumns

abbrev Mark := Alias × String

variable {α β : Type} {vs ws : List (List Alias × Part)} {R : (Mark → Prop) → α → Prop}
  {R' : (Mark → Prop) → β → Prop} {st st₀ : State} {visible : List Alias} {p : Part}

/-- A walk through parts makes marks on its way from one state to another. Its result is as said for
all collections of marks that have those of the walk, and of what the parts declare no others than
are known. -/
structure Marking (vs : List (List Alias × Part)) (R : (Mark → Prop) → α → Prop) (marks : List Mark)
    (st : State) (a : α) (st' : State) : Prop where
  seen : ∀ m ∈ marks, ∃ v ∈ vs, m.1 ∈ v.1 ∨ m.1 ∈ v.2.declared
  kept : ∀ m, m ∈ marks ∨ m ∈ st.used → (∀ v ∈ vs, m.1 ∉ v.2.declared) → m ∈ st'.used
  result : ∀ C : Mark → Prop, (∀ m ∈ marks, C m) →
    (∀ m, C m → (∃ v ∈ vs, m.1 ∈ v.2.declared) → m ∈ marks ∨ m ∈ st.used) → R C a

def Walks (vs : List (List Alias × Part)) (R : (Mark → Prop) → α → Prop) (st : State)
    (act : Walk α) : Prop :=
  ∃ marks, Marking vs R marks st (act.run st).1 (act.run st).2

namespace Walks

theorem pure {a : α} (h : ∀ C, R C a) : Walks [] R st (Pure.pure a) :=
  ⟨[], by simp, fun _ hm _ => hm.resolve_left List.not_mem_nil, fun C _ _ => h C⟩

theorem mono {R₁ : (Mark → Prop) → α → Prop} {act : Walk α} (h : Walks vs R st act)
    (sub : ∀ C a, R C a → R₁ C a) : Walks vs R₁ st act := by
  obtain ⟨marks, seen, kept, result⟩ := h
  exact ⟨marks, seen, kept, fun C all known => sub C _ (result C all known)⟩

/-- What is marked behind the first parts is not declared there, and what is declared behind them is
not marked away. -/
theorem bind {act : Walk α} {next : α → Walk β} (apart : ∀ v ∈ vs, ∀ w ∈ ws, Apart v w)
    (h : Walks vs R st act)
    (hn : Walks ws (fun C b => R C (act.run st).1 → R' C b) (act.run st).2 (next (act.run st).1)) :
    Walks (vs ++ ws) R' st (act >>= next) := by
  obtain ⟨marks, first⟩ := h
  obtain ⟨marks', second⟩ := hn
  refine ⟨marks ++ marks', ⟨fun m hm => ?_, fun m hm outside => ?_, fun C all known => ?_⟩⟩
  · rcases List.mem_append.mp hm with hm | hm
    · obtain ⟨v, hv, inside⟩ := first.seen m hm
      exact ⟨v, List.mem_append_left _ hv, inside⟩
    · obtain ⟨w, hw, inside⟩ := second.seen m hm
      exact ⟨w, List.mem_append_right _ hw, inside⟩
  · simp only [List.forall_mem_append] at outside
    refine second.kept m ?_ outside.2
    rw [List.mem_append] at hm
    rcases hm with (hm | hm) | hm
    · exact .inr (first.kept m (.inl hm) outside.1)
    · exact .inl hm
    · exact .inr (first.kept m (.inr hm) outside.1)
  · rw [List.forall_mem_append] at all
    refine second.result C all.2 (fun m hm inside => ?_) (first.result C all.1 fun m hm inside => ?_)
    · obtain ⟨w, hw, inside⟩ := inside
      have behind : ∀ v ∈ vs, m.1 ∉ v.2.declared := fun v hv here =>
        (apart v hv w hw m.1 here).2 inside
      have known := known m hm ⟨w, List.mem_append_right _ hw, inside⟩
      rw [List.mem_append] at known
      rcases known with (hm | hm) | hm
      · exact .inr (first.kept m (.inl hm) behind)
      · exact .inl hm
      · exact .inr (first.kept m (.inr hm) behind)
    · obtain ⟨v, hv, inside⟩ := inside
      have known := known m hm ⟨v, List.mem_append_left _ hv, inside⟩
      rw [List.mem_append] at known
      rcases known with (hm | hm) | hm
      · exact .inl hm
      · obtain ⟨w, hw, sees⟩ := second.seen m hm
        obtain ⟨unseen, undeclared⟩ := apart v hv w hw m.1 inside
        exact absurd sees (not_or.mpr ⟨unseen, undeclared⟩)
      · exact .inr hm

/-- A walk through the parts of a part, between marks of its own and the end, is one of the part. -/
theorem close {act : Walk α} {act' : Walk β} {own : List Mark} (fresh : p.Fresh visible)
    (parts : ∀ v ∈ vs, v ∈ p.views visible)
    (seen : ∀ m ∈ own, m.1 ∈ visible ∨ m.1 ∈ p.declared) (before : st₀.used = own ++ st.used)
    (h : Walks vs R st₀ act)
    (after : ∀ m ∈ (act.run st₀).2.used, m.1 ∉ p.declared → m ∈ (act'.run st).2.used)
    (result : ∀ C, (∀ m ∈ own, C m) →
      (∀ m, C m → m.1 ∈ p.declared → (∀ q ∈ p.parts, m.1 ∉ q.declared) → m ∈ own ∨ m ∈ st.used) →
      R C (act.run st₀).1 → R' C (act'.run st).1) :
    Walks [(visible, p)] R' st act' := by
  obtain ⟨marks, h⟩ := h
  have inside : ∀ v ∈ vs, ∃ q ∈ p.parts, v.2 = q := fun v hv =>
    ⟨v.2, (Part.views_perm visible p).mem_iff.mp (List.mem_map_of_mem (parts v hv)), rfl⟩
  have declared : ∀ v ∈ vs, v.2.declared ⊆ p.declared := fun v hv => by
    obtain ⟨q, hq, same⟩ := inside v hv
    rw [same]
    exact Part.declared_subset hq
  have marked : ∀ m ∈ marks, m.1 ∈ visible ∨ ∃ q ∈ p.parts, m.1 ∈ q.declared := by
    intro m hm
    obtain ⟨v, hv, sees | here⟩ := h.seen m hm
    · exact Part.mem_of_seen (parts v hv) sees
    · obtain ⟨q, hq, same⟩ := inside v hv
      exact .inr ⟨q, hq, same ▸ here⟩
  refine ⟨own ++ marks, ⟨?_, fun m hm outside => ?_, fun C all known => ?_⟩⟩
  · simp only [List.mem_singleton, exists_eq_left, List.forall_mem_append]
    refine ⟨seen, fun m hm => (marked m hm).imp id ?_⟩
    rintro ⟨q, hq, here⟩
    exact Part.declared_subset hq here
  · have outside : m.1 ∉ p.declared := outside _ List.mem_cons_self
    refine after m (h.kept m ?_ fun v hv here => outside (declared v hv here)) outside
    rw [before]
    simp only [List.mem_append] at hm ⊢
    tauto
  · simp only [List.mem_singleton, exists_eq_left] at known
    rw [List.forall_mem_append] at all
    refine result C all.1 (fun m hm here elsewhere => ?_) (h.result C all.2 fun m hm here => ?_)
    · have known := known m hm here
      rw [List.mem_append] at known
      rcases known with (hm | hm) | hm
      · exact .inl hm
      · rcases marked m hm with around | ⟨q, hq, under⟩
        · exact absurd here (fresh.apart _ around)
        · exact absurd under (elsewhere q hq)
      · exact .inr hm
    · obtain ⟨v, hv, here⟩ := here
      have known := known m hm (declared v hv here)
      rw [before]
      simp only [List.mem_append] at known ⊢
      tauto

end Walks

def marking : Sequence Walk (List Alias × Part) (Mark → Prop) where
  does vs R act := vs.Pairwise Apart → ∀ st, Walks vs R st act
  pure h _ _ := .pure h
  bind h hn apart st := by
    obtain ⟨first, second, between⟩ := List.pairwise_append.mp apart
    exact .bind between (h first st) (hn _ second _)

end ObjectQuery
