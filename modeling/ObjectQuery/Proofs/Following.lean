import ObjectQuery.Proofs.Evaluation
import Mathlib.Data.List.Forall2

/-!
One computation that follows another: wherever the second succeeds, so does the first, with a related
result. This is kept when computations are put together in the same way.
-/

namespace ObjectQuery

def Follows {ε α β : Type} (R : α → β → Prop) (x : Except ε α) (y : Except ε β) : Prop :=
  ∀ b, y = .ok b → ∃ a, x = .ok a ∧ R a b

namespace Follows

variable {ε α β γ δ : Type} {R : α → β → Prop} {S : γ → δ → Prop}

protected theorem pure {a : α} {b : β} (h : R a b) :
    Follows R (Pure.pure a : Except ε α) (Pure.pure b) := by
  intro b' hb
  cases hb
  exact ⟨a, rfl, h⟩

/-- Everything follows what fails. -/
theorem error (x : Except ε α) (e : ε) : Follows R x (.error e) := by
  intro b hb
  cases hb

protected theorem bind {x : Except ε α} {y : Except ε β} {f : α → Except ε γ} {g : β → Except ε δ}
    (h : Follows R x y) (next : ∀ a b, R a b → Follows S (f a) (g b)) :
    Follows S (x >>= f) (y >>= g) := by
  intro d hd
  obtain ⟨b, hb, hd⟩ := bind_eq_ok.mp hd
  obtain ⟨a, ha, hab⟩ := h b hb
  obtain ⟨c, hc, hcd⟩ := next a b hab d hd
  exact ⟨c, bind_eq_ok.mpr ⟨a, ha, hc⟩, hcd⟩

theorem refl (x : Except ε α) : Follows Eq x x :=
  fun a ha => ⟨a, ha, rfl⟩

theorem mono {R' : α → β → Prop} {x : Except ε α} {y : Except ε β} (h : Follows R x y)
    (sub : ∀ a b, R a b → R' a b) : Follows R' x y := by
  intro b hb
  obtain ⟨a, ha, hab⟩ := h b hb
  exact ⟨a, ha, sub a b hab⟩

theorem trans {R' : β → γ → Prop} {x : Except ε α} {y : Except ε β} {z : Except ε γ}
    (h : Follows R x y) (h' : Follows R' y z) :
    Follows (fun a c => ∃ b, R a b ∧ R' b c) x z := by
  intro c hc
  obtain ⟨b, hb, hbc⟩ := h' c hc
  obtain ⟨a, ha, hab⟩ := h b hb
  exact ⟨a, ha, b, hab, hbc⟩

theorem eq_ok {x y : Except ε α} {a : α} (h : Follows Eq x y) (hy : y = .ok a) : x = .ok a := by
  obtain ⟨_, hx, rfl⟩ := h a hy
  exact hx

/-- Computations that follow each other give the same, or both fail. -/
theorem toOption_eq {x y : Except ε α} (h : Follows Eq x y) (h' : Follows Eq y x) :
    x.toOption = y.toOption := by
  cases hx : x with
  | ok a => rw [h'.eq_ok hx]
  | error _ =>
    cases hy : y with
    | ok b => cases (h.eq_ok hy).symm.trans hx
    | error _ => rfl

/-- Computations that go on in the same way from the same result. -/
theorem bind_same {x y : Except ε α} {f : α → Except ε γ} {g : α → Except ε δ}
    (h : Follows Eq x y) (next : ∀ a, Follows S (f a) (g a)) : Follows S (x >>= f) (y >>= g) :=
  h.bind fun a _ hab => hab ▸ next a

theorem mapM {as : List α} {bs : List β} {f : α → Except ε γ} {g : β → Except ε δ}
    (h : List.Forall₂ R as bs) (step : ∀ a ∈ as, ∀ b, R a b → Follows S (f a) (g b)) :
    Follows (List.Forall₂ S) (as.mapM f) (bs.mapM g) := by
  induction h with
  | nil => exact .pure .nil
  | cons hab _ ih =>
    rw [List.mapM_cons, List.mapM_cons]
    exact (step _ (by simp) _ hab).bind fun c d hcd =>
      (ih fun a ha => step a (by simp [ha])).bind fun cs ds hcds => .pure (.cons hcd hcds)

theorem mapM_same {as : List α} {bs : List β} {f : α → Except ε γ} {g : β → Except ε γ}
    (h : List.Forall₂ R as bs) (step : ∀ a ∈ as, ∀ b, R a b → Follows Eq (f a) (g b)) :
    Follows Eq (as.mapM f) (bs.mapM g) :=
  (mapM h step).mono fun _ _ h => List.forall₂_eq_eq_eq ▸ h

theorem forall₂_eq {x y : Except ε (List α)} (h : Follows Eq x y) : Follows (List.Forall₂ Eq) x y :=
  h.mono fun _ _ h => List.forall₂_eq_eq_eq.symm ▸ h

/-- Fewer of the same steps. -/
theorem mapM_filter {l : List α} {f : α → Except ε β} {keep : α → Bool} {kept : β → Bool}
    (same : ∀ a ∈ l, ∀ b, f a = .ok b → kept b = keep a) :
    Follows (fun bs bs' => bs = bs'.filter kept) ((l.filter keep).mapM f) (l.mapM f) := by
  induction l with
  | nil => exact .pure rfl
  | cons a rest ih =>
    intro bs' h
    rw [List.mapM_cons] at h
    obtain ⟨b, hb, h⟩ := bind_eq_ok.mp h
    obtain ⟨bs, hbs, h⟩ := bind_eq_ok.mp h
    cases h
    obtain ⟨_, run, rfl⟩ := ih (fun c hc => same c (by simp [hc])) bs hbs
    refine ⟨_, ?_, rfl⟩
    rw [List.filter_cons, List.filter_cons, same a (by simp) b hb]
    split
    · rw [List.mapM_cons, hb, ok_bind, run]
      rfl
    · exact run

theorem filterAuxM {as : List α} {bs : List β} {p : α → Except ε Bool} {q : β → Except ε Bool}
    (h : List.Forall₂ R as bs) (step : ∀ a b, R a b → Follows Eq (p a) (q b)) {kept : List α}
    {kept' : List β} (before : List.Forall₂ R kept kept') :
    Follows (List.Forall₂ R) (as.filterAuxM p kept) (bs.filterAuxM q kept') := by
  induction h generalizing kept kept' with
  | nil => exact .pure before
  | cons hab _ ih =>
    rw [List.filterAuxM, List.filterAuxM]
    refine (step _ _ hab).bind_same fun kept => ih ?_
    cases kept with
    | false => exact before
    | true => exact .cons hab before

theorem filterM {as : List α} {bs : List β} {p : α → Except ε Bool} {q : β → Except ε Bool}
    (h : List.Forall₂ R as bs) (step : ∀ a b, R a b → Follows Eq (p a) (q b)) :
    Follows (List.Forall₂ R) (as.filterM p) (bs.filterM q) :=
  (filterAuxM h step .nil).bind fun _ _ kept => .pure (List.rel_reverse kept)

end Follows

theorem forall₂_of_mapM {ε α β : Type} {f : α → Except ε β} {l : List α} {l' : List β}
    (h : l.mapM f = .ok l') : List.Forall₂ (fun a b => f a = .ok b) l l' := by
  induction l generalizing l' with
  | nil =>
    cases h
    exact .nil
  | cons a rest ih =>
    rw [List.mapM_cons] at h
    obtain ⟨b, hb, h⟩ := bind_eq_ok.mp h
    obtain ⟨bs, hbs, h⟩ := bind_eq_ok.mp h
    cases h
    exact .cons hb (ih hbs)

def FollowsRun {ε σ α : Type} (x y : StateT σ (Except ε) α) : Prop :=
  ∀ s, Follows Eq (x.run s) (y.run s)

namespace FollowsRun

variable {ε σ α β γ : Type}

theorem refl (x : StateT σ (Except ε) α) : FollowsRun x x :=
  fun _ => .refl _

theorem trans {x y z : StateT σ (Except ε) α} (h : FollowsRun x y) (h' : FollowsRun y z) :
    FollowsRun x z := by
  intro s r hr
  exact h s r ((h' s).eq_ok hr)

protected theorem bind {x y : StateT σ (Except ε) α} {f g : α → StateT σ (Except ε) β}
    (h : FollowsRun x y) (next : ∀ a, FollowsRun (f a) (g a)) : FollowsRun (x >>= f) (y >>= g) := by
  intro s
  rw [StateT.run_bind, StateT.run_bind]
  exact (h s).bind_same fun p => next p.1 p.2

theorem lift {x y : Except ε α} (h : Follows Eq x y) :
    FollowsRun (liftM x : StateT σ (Except ε) α) (liftM y) :=
  fun _ => h.bind_same fun _ => .refl _

theorem liftBind {R : α → β → Prop} {x : Except ε α} {y : Except ε β} {f : α → StateT σ (Except ε) γ}
    {g : β → StateT σ (Except ε) γ} (h : Follows R x y) (next : ∀ a b, R a b → FollowsRun (f a) (g b)) :
    FollowsRun (liftM x >>= f) (liftM y >>= g) := by
  intro s c hc
  rw [StateT.run_bind] at hc ⊢
  obtain ⟨p, hp, hc⟩ := bind_eq_ok.mp hc
  obtain ⟨b, hb, hp⟩ := bind_eq_ok.mp hp
  cases hp
  obtain ⟨a, rfl, hab⟩ := h b hb
  exact next a b hab s c hc

theorem mapM {R : α → β → Prop} {as : List α} {bs : List β} {f : α → StateT σ (Except ε) γ}
    {g : β → StateT σ (Except ε) γ} (h : List.Forall₂ R as bs)
    (step : ∀ a b, R a b → FollowsRun (f a) (g b)) : FollowsRun (as.mapM f) (bs.mapM g) := by
  induction h with
  | nil => exact refl _
  | cons hab _ ih =>
    rw [List.mapM_cons, List.mapM_cons]
    exact (step _ _ hab).bind fun _ => ih.bind fun _ => refl _

end FollowsRun

/-- A tree whose objects follow those of another answers what the other does. -/
theorem Expr.execute_follows {tables : Tables} {e e' : Expr}
    (objects : FollowsRun (Eval.client tables e .root) (Eval.client tables e' .root)) :
    Follows Eq (e.execute tables) (e'.execute tables) := by
  intro v h
  obtain ⟨-, joined, run⟩ := Expr.execute_eq_ok.mp h
  have found := (objects []).eq_ok run
  refine ⟨v, Expr.execute_eq_ok.mpr ⟨?_, joined, found⟩, rfl⟩
  rintro c rfl
  simp [Eval.client, Eval.scalar] at found

def FollowsUnder {ε σ τ α : Type} (C : σ → τ → Prop) (x : StateT σ (Except ε) α)
    (y : StateT τ (Except ε) α) : Prop :=
  ∀ s t, C s t → Follows (fun r r' => r.1 = r'.1 ∧ C r.2 r'.2) (x.run s) (y.run t)

namespace FollowsUnder

variable {ε σ τ α β γ : Type} {C : σ → τ → Prop}

theorem eq_iff {x y : StateT σ (Except ε) α} : FollowsUnder Eq x y ↔ FollowsRun x y := by
  refine ⟨fun h s => (h s s rfl).mono fun _ _ same => Prod.ext same.1 same.2, fun h s t same => ?_⟩
  subst same
  exact (h s).mono fun _ _ same => same ▸ ⟨rfl, rfl⟩

protected theorem pure (a : α) : FollowsUnder C (Pure.pure a : StateT σ (Except ε) α) (Pure.pure a) :=
  fun _ _ h => .pure ⟨rfl, h⟩

protected theorem bind {x : StateT σ (Except ε) α} {y : StateT τ (Except ε) α}
    {f : α → StateT σ (Except ε) β} {g : α → StateT τ (Except ε) β} (h : FollowsUnder C x y)
    (next : ∀ a, FollowsUnder C (f a) (g a)) : FollowsUnder C (x >>= f) (y >>= g) := by
  intro s t hst
  rw [StateT.run_bind, StateT.run_bind]
  refine (h s t hst).bind ?_
  rintro ⟨a, s⟩ ⟨b, t⟩ ⟨rfl, hst⟩
  exact next a s t hst

theorem liftBind {R : α → β → Prop} {x : Except ε α} {y : Except ε β} {f : α → StateT σ (Except ε) γ}
    {g : β → StateT τ (Except ε) γ} (h : Follows R x y)
    (next : ∀ a b, R a b → FollowsUnder C (f a) (g b)) :
    FollowsUnder C (liftM x >>= f) (liftM y >>= g) := by
  intro s t hst
  rw [StateT.run_bind, StateT.run_bind]
  refine Follows.bind (R := fun r r' => R r.1 r'.1 ∧ C r.2 r'.2) ?_ fun r r' hr => next _ _ hr.1 _ _ hr.2
  exact Follows.bind h fun a b hab => .pure ⟨hab, hst⟩

theorem lift {x y : Except ε α} (h : Follows Eq x y) :
    FollowsUnder C (liftM x : StateT σ (Except ε) α) (liftM y) := by
  have next : ∀ a b, a = b → FollowsUnder C (Pure.pure a : StateT σ (Except ε) α) (Pure.pure b) :=
    fun a _ hab => hab ▸ .pure a
  simpa using liftBind h next

theorem liftSame (x : Except ε α) : FollowsUnder C (liftM x : StateT σ (Except ε) α) (liftM x) :=
  lift (.refl x)

/-- Computations that go on from what they find in their states. -/
theorem getBind {f : σ → StateT σ (Except ε) α} {g : τ → StateT τ (Except ε) α}
    (next : ∀ s t, C s t → FollowsUnder C (f s) (g t)) : FollowsUnder C (get >>= f) (get >>= g) :=
  fun s t hst => next s t hst s t hst

theorem modifyBoth {f : σ → σ} {g : τ → τ} (h : ∀ s t, C s t → C (f s) (g t)) :
    FollowsUnder C (modify f : StateT σ (Except ε) PUnit) (modify g) :=
  fun s t hst => .pure ⟨rfl, h s t hst⟩

theorem mapM {R : α → β → Prop} {as : List α} {bs : List β} {f : α → StateT σ (Except ε) γ}
    {g : β → StateT τ (Except ε) γ} (h : List.Forall₂ R as bs)
    (step : ∀ a b, R a b → FollowsUnder C (f a) (g b)) : FollowsUnder C (as.mapM f) (bs.mapM g) := by
  induction h with
  | nil => exact .pure []
  | cons hab _ ih =>
    rw [List.mapM_cons, List.mapM_cons]
    exact (step _ _ hab).bind fun c => ih.bind fun cs => .pure (c :: cs)

end FollowsUnder

def Lifted {α : Type} (x : Eval.Client α) : Prop := ∃ y : Eval.Result α, x = liftM y

namespace Lifted

variable {α β : Type}

theorem lift (y : Eval.Result α) : Lifted (liftM y : Eval.Client α) := ⟨y, rfl⟩

theorem pure (a : α) : Lifted (Pure.pure a) := ⟨.ok a, rfl⟩

theorem bind {x : Eval.Client α} {f : α → Eval.Client β} (hx : Lifted x) (hf : ∀ a, Lifted (f a)) :
    Lifted (x >>= f) := by
  obtain ⟨y, rfl⟩ := hx
  choose g hg using hf
  obtain rfl : f = fun a => liftM (g a) := funext hg
  exact ⟨y >>= g, (liftM_bind y g).symm⟩

theorem mapM {l : List α} {f : α → Eval.Client β} (h : ∀ a ∈ l, Lifted (f a)) : Lifted (l.mapM f) := by
  induction l with
  | nil => exact pure []
  | cons a rest ih =>
    rw [List.mapM_cons]
    exact (h a (by simp)).bind fun _ => (ih fun b hb => h b (by simp [hb])).bind fun _ => pure _

/-- It gives the same wherever it starts. -/
theorem run {x : Eval.Client α} (h : Lifted x) {s s' : List (Alias × Eval.JoinedRows)} {a : α}
    (hx : x.run s = .ok (a, s')) (t : List (Alias × Eval.JoinedRows)) : x.run t = .ok (a, t) := by
  obtain ⟨y, rfl⟩ := h
  obtain ⟨b, hb, hx⟩ := bind_eq_ok.mp hx
  obtain ⟨rfl, rfl⟩ := Prod.mk.inj (Except.ok.inj hx)
  exact bind_eq_ok.mpr ⟨b, hb, rfl⟩

end Lifted

end ObjectQuery
