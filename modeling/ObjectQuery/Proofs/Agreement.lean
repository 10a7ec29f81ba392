import ObjectQuery.Proofs.AlikeSelects
import ObjectQuery.Proofs.Copies
import ObjectQuery.Proofs.Correspondence
import ObjectQuery.Proofs.LockstepObjects

/-!
What a tree sees of the scope around it. A tree is evaluated in lockstep with itself wherever the same rows
are bound to the aliases that it refers to, whatever else is in sight.
-/

namespace ObjectQuery

open Eval

structure Scope.Agree (A : Alias → Prop) (σ σ' : Scope) : Prop where
  rows : ∀ a, A a → σ.rows.lookup a = σ'.rows.lookup a
  group : σ.group = σ'.group
  rowNumber : σ.rowNumber = σ'.rowNumber

namespace Lockstep

theorem unique_eq : Relator.BiUnique (Eq : Alias → Alias → Prop) :=
  ⟨fun _ _ _ h h' => h.trans h'.symm, fun _ _ _ h h' => h.symm.trans h'⟩

def agreeing (A : Alias → Prop) : Lockstep :=
  -- Frames go together as they do where all rows agree, and numbers as they do where names are exchanged.
  let same := Correspondence.agreeing A
  let exchanged := exchanging Eq unique_eq
  { named := Eq
    reads := fun a b => a = b ∧ A a
    frame := same.frame
    rows := same.rows
    number := exchanged.number
    nil := same.nil
    single := Frame.single_congr
    append := same.append
    extend := same.extend
    lookup := by
      rintro r r' a _ h ⟨rfl, ha⟩
      exact h a ha
    renumber := exchanged.renumber }

variable {A : Alias → Prop} {tables : Tables} {σ σ' : Scope}

theorem scopes_of_agree (h : Scope.Agree A σ σ') : (agreeing A).Scopes σ σ' := by
  refine ⟨h.rows, ?_, h.rowNumber⟩
  rw [h.group]
  exact optionRel_refl_mem fun frames _ => List.forall₂_same.mpr fun _ _ => rfl

theorem paired_agreeing (p : Part) : p.Paired Eq (agreeing (· ∈ p.references)).reads Expr.ValuelessBoth p :=
  (Part.Paired.refl (fun _ => rfl) (fun _ => rfl) p).mono (fun _ _ _ _ h => h) fun _ ha _ _ h => ⟨h, ha⟩

end Lockstep

namespace Scope.Agree

variable {A : Alias → Prop} {σ σ' : Scope}

theorem symm (h : Agree A σ σ') : Agree A σ' σ :=
  ⟨fun a ha => (h.rows a ha).symm, h.group.symm, h.rowNumber.symm⟩

end Scope.Agree

/-- Aliases other than that of a new row have the same rows as before. -/
theorem Scope.agree_bind {A : Alias → Prop} {σ : Scope} {rel : Alias} (unread : ¬ A rel)
    (ungrouped : σ.group = none) (unnumbered : σ.rowNumber = none) (row : Row) : σ.Agree A (σ.bind rel row) := by
  refine ⟨fun a ha => ?_, ungrouped, unnumbered⟩
  have other : a ≠ rel := fun same => unread (same ▸ ha)
  simp [Scope.bind, Scope.extend, List.lookup_cons, beq_false_of_ne other]

/-- A new row is the same whatever was in sight before. -/
theorem Scope.agree_bound {A : Alias → Prop} {rel : Alias} (only : ∀ a, A a → a = rel) (row : Row)
    (σ σ' : Scope) : (σ.bind rel row).Agree A (σ'.bind rel row) := by
  refine ⟨fun a ha => ?_, rfl, rfl⟩
  rw [only a ha]
  simp [Scope.bind, Scope.extend]

namespace Eval

variable {tables : Tables} {σ σ' : Scope}

theorem scalar_agree {e : Expr} (agree : σ.Agree (· ∈ (Part.expr e).references) σ') {v : Value} :
    scalar tables e σ = .ok v ↔ scalar tables e σ' = .ok v := by
  have follows : ∀ {σ σ' : Scope}, σ.Agree (· ∈ (Part.expr e).references) σ' →
      Follows Eq (scalar tables e σ) (scalar tables e σ') := fun agree =>
    (Lockstep.matches_of_paired (M := .agreeing _) (Lockstep.paired_agreeing (.expr e))
      fun _ _ h => h).of_expr.value _ _ (Lockstep.scopes_of_agree agree)
  exact ⟨fun h => (follows agree.symm).eq_ok h, fun h => (follows agree).eq_ok h⟩

theorem select_agree {s : Select Expr} (agree : σ.Agree (· ∈ (Part.select s).references) σ') {rows : List Row} :
    select tables s σ = .ok rows ↔ select tables s σ' = .ok rows := by
  have follows : ∀ {σ σ' : Scope}, σ.Agree (· ∈ (Part.select s).references) σ' →
      Follows Eq (select tables s σ) (select tables s σ') := fun agree =>
    (Lockstep.matches_of_paired (M := .agreeing _) (Lockstep.paired_agreeing (.select s))
      fun _ _ h => h).of_select.rows _ _ (Lockstep.scopes_of_agree agree)
  exact ⟨fun h => (follows agree.symm).eq_ok h, fun h => (follows agree).eq_ok h⟩

theorem client_agree {e : Expr} (agree : σ.Agree (· ∈ (Part.expr e).references) σ')
    {joined : List (Alias × JoinedRows)} {r : ClientValue × List (Alias × JoinedRows)} :
    (client tables e σ).run joined = .ok r ↔ (client tables e σ').run joined = .ok r := by
  have forth : ∀ {σ σ' : Scope}, σ.Agree (· ∈ (Part.expr e).references) σ' →
      (client tables e σ').run joined = .ok r → (client tables e σ).run joined = .ok r := by
    intro σ σ' agree h
    let M := Lockstep.agreeing (· ∈ (Part.expr e).references)
    have root : M.Scopes .root .root := ⟨fun _ _ => rfl, .none, rfl⟩
    have built : M.Built tables e e := (Lockstep.objects_of_paired (M := M) Lockstep.unique_eq root
      (Lockstep.paired_agreeing (.expr e)) fun _ _ h => h).of_expr.object
    have kept : ∀ {c c' : List (Alias × JoinedRows)}, M.Kept c c' → c = c' := by
      intro c c' same
      induction same with
      | nil => rfl
      | cons head _ ih => rw [ih, Prod.ext head.1 head.2]
    have same : M.Kept joined joined := List.forall₂_same.mpr fun _ _ => ⟨rfl, rfl⟩
    obtain ⟨r', run, value, joined'⟩ := built _ _ (Lockstep.scopes_of_agree agree) joined joined same r h
    rw [run, Prod.ext value (kept joined')]
  exact ⟨forth agree.symm, forth agree⟩

/-- A tree under exchanged names builds the same objects in scopes whose aliases keep their names. -/
theorem client_of_paired {A : Alias → Alias → Prop} (unique : Relator.BiUnique A) {e e' : Expr}
    (paired : (Part.expr e).Paired A A Expr.ValuelessBoth (.expr e')) (kept : ∀ a, σ.Binds a → A a a)
    {v : ClientValue} {joined : List (Alias × JoinedRows)} (h : (client tables e' σ).run [] = .ok (v, joined)) :
    ∃ joined', (client tables e σ).run [] = .ok (v, joined') := by
  let M := Lockstep.exchanging A unique
  have root : M.Scopes .root .root := ⟨.nil, .none, rfl⟩
  have objects : M.Built tables e e' :=
    (Lockstep.objects_of_paired (M := M) unique root paired fun _ _ h => h).of_expr.object
  obtain ⟨⟨w, joined'⟩, found, same, -⟩ := objects _ _ (Lockstep.scopes_refl unique kept) [] [] .nil _ h
  obtain rfl : w = v := same
  exact ⟨joined', found⟩

/-- A copy builds the same objects as its original, where neither the names that were renamed nor the new ones
are in sight. -/
theorem client_copy {e e' : Expr} {r : Renaming} {n n' : Nat} (fresh : r.Fresh (Part.expr e).declared n n')
    (renamed : Part.Renamed r (.expr e) (.expr e'))
    (below : ∀ a ∈ (Part.expr e).references, a ∈ (Part.expr e).declared ∨ a.id < n)
    (apart : ∀ a, σ.Binds a → a ∉ (Part.expr e).declared ∧ a.id < n) {v : ClientValue}
    {joined : List (Alias × JoinedRows)} (h : (client tables e' σ).run [] = .ok (v, joined)) :
    ∃ joined', (client tables e σ).run [] = .ok (v, joined') := by
  let A : Alias → Alias → Prop := fun a b => (a ∈ (Part.expr e).declared ∨ a.id < n) ∧ r.rel a = b
  have unique : Relator.BiUnique A :=
    ⟨fun _ _ _ ha hb => fresh.injective ha.1 hb.1 (ha.2.trans hb.2.symm), fun _ _ _ hb hc => hb.2.symm.trans hc.2⟩
  have paired : (Part.expr e).Paired A A Expr.ValuelessBoth (.expr e') :=
    (renamed.mono (fun a ha _ _ same => ⟨.inl ha, same⟩) fun a ha _ _ same => ⟨below a ha, same⟩).weaken
      fun _ _ given => given.elim
  exact client_of_paired unique paired
    (fun a bound => ⟨.inr (apart a bound).2, fresh.kept a (apart a bound).1⟩) h

end Eval

end ObjectQuery
