import ObjectQuery.Proofs.Nodes

/-!
What walks keep. An action keeps a property of the state where it leads, from states that have it, to
states that have it, and what it leads to is told along with that. A walk that rebuilds a tree keeps a
property of its nodes where every step of it does; a step that only puts rebuilt parts in their places
does, if the property asks nothing of the parts.
-/

namespace ObjectQuery

structure Outcomes (m : Type → Type) [Monad m] (σ : Type) where
  leads : {α : Type} → σ → m α → α → σ → Prop
  pure : ∀ {α : Type} {s s' : σ} {a b : α}, leads s (Pure.pure a) b s' → b = a ∧ s' = s
  bind : ∀ {α β : Type} {s s'' : σ} {x : m α} {f : α → m β} {b : β}, leads s (x >>= f) b s'' →
    ∃ a s', leads s x a s' ∧ leads s' (f a) b s''

namespace Outcomes

def ofState (σ : Type) : Outcomes (StateM σ) σ where
  leads s x a s' := x.run s = (a, s')
  pure run := by
    cases run
    exact ⟨rfl, rfl⟩
  bind run := ⟨_, _, rfl, run⟩

def ofStateOk (σ ε : Type) : Outcomes (StateT σ (Except ε)) σ where
  leads s x a s' := x.run s = .ok (a, s')
  pure run := by
    cases run
    exact ⟨rfl, rfl⟩
  bind {_ _ s _ x _ _} run := by
    rw [StateT.run_bind] at run
    cases first : x.run s with
    | error _ =>
      rw [first] at run
      cases run
    | ok r =>
      rw [first] at run
      exact ⟨r.1, r.2, rfl, run⟩

def ofOk (ε : Type) : Outcomes (Except ε) Unit where
  leads _ x a _ := x = .ok a
  pure run := ⟨(Except.ok.inj run).symm, rfl⟩
  bind {_ _ _ _ x _ _} run := by
    cases x with
    | error _ => cases run
    | ok a => exact ⟨a, (), rfl, run⟩

def ofId : Outcomes Id Unit where
  leads _ x a _ := x = a
  pure run := ⟨run.symm, rfl⟩
  bind run := ⟨_, (), rfl, run⟩

variable {m : Type → Type} [Monad m] {σ α β : Type} {O : Outcomes m σ} {I : σ → Prop}
  {R : α → Prop} {R' : β → Prop} {act : m α}

def Keeps (O : Outcomes m σ) (I : σ → Prop) (R : α → Prop) (act : m α) : Prop :=
  ∀ s a s', I s → O.leads s act a s' → R a ∧ I s'

namespace Keeps

theorem pure {a : α} (h : R a) : O.Keeps I R (Pure.pure a) := by
  intro s b s' hs run
  obtain ⟨rfl, rfl⟩ := O.pure run
  exact ⟨h, hs⟩

theorem bind {next : α → m β} (first : O.Keeps I R act) (rest : ∀ a, R a → O.Keeps I R' (next a)) :
    O.Keeps I R' (act >>= next) := by
  intro s b s'' hs run
  obtain ⟨a, s', run₁, run₂⟩ := O.bind run
  obtain ⟨ha, hs'⟩ := first s a s' hs run₁
  exact rest a ha s' b s'' hs' run₂

/-- Where nothing is asked of the states, nothing is asked of the action. -/
theorem anything : O.Keeps (fun _ => True) (fun _ => True) act := fun _ _ _ _ _ => ⟨trivial, trivial⟩

theorem mono {R' : α → Prop} (h : O.Keeps I R act) (sub : ∀ a, R a → R' a) : O.Keeps I R' act :=
  fun s a s' hs run => (h s a s' hs run).imp_left (sub a)

/-- Two things that are told of the results. -/
theorem and {R' : α → Prop} (h : O.Keeps I R act) (h' : O.Keeps I R' act) :
    O.Keeps I (fun a => R a ∧ R' a) act :=
  fun s a s' hs run => ⟨⟨(h s a s' hs run).1, (h' s a s' hs run).1⟩, (h s a s' hs run).2⟩

end Keeps

theorem Keeps.result {R : α → Prop} {act : StateM σ α} (h : (ofState σ).Keeps I R act) {s : σ} (hs : I s) :
    R (act.run s).1 :=
  (h s _ _ hs rfl).1

theorem Keeps.value {R : α → Prop} {act : Id α} (h : ofId.Keeps (fun _ => True) R act) : R act.run :=
  (h () _ () trivial rfl).1

def keeping {X : Type} (O : Outcomes m σ) (I : σ → Prop) : Sequence m X Unit where
  does _ R act := O.Keeps I (R ()) act
  pure h := .pure (h ())
  bind first rest := first.bind fun a ha => (rest a).mono fun _ h => h ha

section Lists

variable [LawfulMonad m]

theorem Keeps.list {R : α → β → Prop} {l : List α} {act : (a : α) → a ∈ l → m β}
    (h : ∀ a ha, O.Keeps I (R a) (act a ha)) :
    O.Keeps I (List.Forall₂ R l) (l.attach.mapM fun x => act x.1 x.2) :=
  (O.keeping I).attach (V := id) (R := fun _ => R) h

theorem Keeps.all {l : List α} {act : (a : α) → a ∈ l → m β} (h : ∀ a ha, O.Keeps I R' (act a ha)) :
    O.Keeps I (fun l' => ∀ b ∈ l', R' b) (l.attach.mapM fun x => act x.1 x.2) :=
  (Keeps.list (R := fun _ => R') h).mono fun _ related b hb => (exists_of_forall₂_right related b hb).choose_spec.2

theorem Keeps.option {o : Option α} {act : (a : α) → a ∈ o → m β}
    (h : ∀ a ha, O.Keeps I R' (act a ha)) :
    O.Keeps I (fun o' => ∀ b ∈ o', R' b) (o.attach.mapM fun x => act x.1 x.2) := by
  have walked := (O.keeping I).attachOption (V := id) (R := fun _ _ => R') h
  refine Keeps.mono walked fun o' related b hb => ?_
  cases related with
  | none => cases hb
  | some hR => exact Option.some.inj hb ▸ hR

end Lists

section State

variable {I : σ → Prop} {R : α → Prop}

theorem keeps_get {R : σ → Prop} (h : ∀ s, I s → R s) : (ofState σ).Keeps I R get := by
  rintro s _ _ hs ⟨⟩
  exact ⟨h s hs, hs⟩

theorem keeps_set {s : σ} (h : I s) : (ofState σ).Keeps I (fun _ => True) (set s) := by
  rintro _ _ _ - ⟨⟩
  exact ⟨trivial, h⟩

theorem keeps_modify {f : σ → σ} (h : ∀ s, I s → I (f s)) :
    (ofState σ).Keeps I (fun _ => True) (modify f) := by
  rintro s _ _ hs ⟨⟩
  exact ⟨trivial, h s hs⟩

theorem keeps_modifyGet {f : σ → α × σ} (h : ∀ s, I s → R (f s).1 ∧ I (f s).2) :
    (ofState σ).Keeps I R (modifyGet f) := by
  intro s a s' hs run
  have result : f s = (a, s') := run
  have kept := h s hs
  rwa [result] at kept

variable {ε : Type}

theorem keepsOk_get {R : σ → Prop} (h : ∀ s, I s → R s) : (ofStateOk σ ε).Keeps I R get := by
  rintro s _ _ hs ⟨⟩
  exact ⟨h s hs, hs⟩

theorem keepsOk_modify {f : σ → σ} (h : ∀ s, I s → I (f s)) :
    (ofStateOk σ ε).Keeps I (fun _ => True) (modify f) := by
  rintro s _ _ hs ⟨⟩
  exact ⟨trivial, h s hs⟩

theorem keepsOk_modifyGet {f : σ → α × σ} (h : ∀ s, I s → R (f s).1 ∧ I (f s).2) :
    (ofStateOk σ ε).Keeps I R (modifyGet f) := by
  intro s a s' hs run
  have result : f s = (a, s') := Except.ok.inj run
  have kept := h s hs
  rwa [result] at kept

end State

end Outcomes

structure Part.Lasting (P : Part → Prop) : Prop where
  expr : ∀ {Q : Expr → Expr → Prop} {QS : Select Expr → Select Expr → Prop}
    {QP : Projection Expr → Projection Expr → Prop} {e e' : Expr}, e.Shaped Q QS QP e' →
    P (.expr e) → P (.expr e')
  select : ∀ {Q : Expr → Expr → Prop} {s s' : Select Expr}, s.Shaped Q s' →
    P (.select s) → P (.select s')
  projection : ∀ {Q : Expr → Expr → Prop} {QS : Select Expr → Select Expr → Prop}
    {p p' : Projection Expr}, p.Shaped Q QS p' → P (.projection p) → P (.projection p')

section Shaped

variable {P : Part → Prop}

theorem Expr.Shaped.every {e e' : Expr}
    (shaped : e.Shaped (fun _ c => (Part.expr c).Every P) (fun _ s => (Part.select s).Every P)
      (fun _ p => (Part.projection p).Every P) e') (here : P (.expr e')) : (Part.expr e').Every P :=
  .of_matches here shaped.parts (fun _ _ h => h) (fun _ _ h => h) fun _ _ h => h

theorem Select.Shaped.every {s s' : Select Expr}
    (shaped : s.Shaped (fun _ c => (Part.expr c).Every P) s') (here : P (.select s')) :
    (Part.select s').Every P :=
  .of_matches here shaped.parts (fun _ _ h => h) (fun _ _ h => h.elim) fun _ _ h => h.elim

theorem Projection.Shaped.every {p p' : Projection Expr}
    (shaped : p.Shaped (fun _ c => (Part.expr c).Every P) (fun _ s => (Part.select s).Every P) p')
    (here : P (.projection p')) : (Part.projection p').Every P :=
  .of_matches here shaped.parts (fun _ _ h => h) (fun _ _ h => h) fun _ _ h => h.elim

end Shaped

structure Walker (m : Type → Type) where
  expr : Expr → m Expr
  select : Select Expr → m (Select Expr)
  projection : Projection Expr → m (Projection Expr)

namespace Walker

variable {m : Type → Type} [Monad m] {σ : Type}

def Keeps (W : Walker m) (O : Outcomes m σ) (I : σ → Prop) (P : Part → Prop) : Part → Prop
  | .expr e => O.Keeps I (fun e' => (Part.expr e').Every P) (W.expr e)
  | .select s => O.Keeps I (fun s' => (Part.select s').Every P) (W.select s)
  | .projection p => O.Keeps I (fun p' => (Part.projection p').Every P) (W.projection p)

variable [LawfulMonad m] {W : Walker m} {O : Outcomes m σ} {I : σ → Prop} {P : Part → Prop}

/-- What is made of the parts of a node, one after another, stands in a node of the same shape. -/
theorem Keeps.related {e : Expr} {Q : Expr → Expr → Prop} {QS : Select Expr → Select Expr → Prop}
    {QP : Projection Expr → Projection Expr → Prop}
    (onExpr : ∀ c, Part.expr c ∈ (Part.expr e).parts → O.Keeps I (Q c) (W.expr c))
    (onSelect : ∀ s, Part.select s ∈ (Part.expr e).parts → O.Keeps I (QS s) (W.select s))
    (onProjection : ∀ p, Part.projection p ∈ (Part.expr e).parts → O.Keeps I (QP p) (W.projection p)) :
    O.Keeps I (e.Shaped Q QS QP) (e.traverse (fun c _ => W.expr c) (fun s _ => W.select s)
      fun p _ => W.projection p) := by
  have walked : (O.keeping I).does _ (fun _ e' => e.Shaped Q QS QP e') _ :=
    (O.keeping I).expr (V := id) (Q := fun _ => Q) e onExpr onSelect onProjection
  exact walked

/-- What a walk makes of the parts of a node stands in a node of the same shape. -/
theorem Keeps.shaped {e : Expr} (parts : ∀ q ∈ (Part.expr e).parts, W.Keeps O I P q) :
    O.Keeps I (fun e' => e.Shaped (fun _ c => (Part.expr c).Every P) (fun _ s => (Part.select s).Every P)
      (fun _ p => (Part.projection p).Every P) e') (e.traverse (fun c _ => W.expr c)
      (fun s _ => W.select s) fun p _ => W.projection p) :=
  Keeps.related (fun c hc => parts (.expr c) hc) (fun s hs => parts (.select s) hs)
    fun p hp => parts (.projection p) hp

theorem Keeps.shapedSelect {s : Select Expr} (parts : ∀ q ∈ (Part.select s).parts, W.Keeps O I P q) :
    O.Keeps I (fun s' => s.Shaped (fun _ c => (Part.expr c).Every P) s') (s.traverse fun e _ => W.expr e) :=
  (O.keeping I).select (V := id) (Q := fun _ _ c => (Part.expr c).Every P) s fun e he => parts (.expr e) he

omit [LawfulMonad m] in
theorem Keeps.shapedProjection {p : Projection Expr}
    (parts : ∀ q ∈ (Part.projection p).parts, W.Keeps O I P q) :
    O.Keeps I (fun p' => p.Shaped (fun _ c => (Part.expr c).Every P) (fun _ s => (Part.select s).Every P) p')
      (p.traverse (fun e _ => W.expr e) fun s _ => W.select s) := by
  have walked : (O.keeping I).does _ (fun _ p' => p.Shaped (fun _ c => (Part.expr c).Every P)
      (fun _ s => (Part.select s).Every P) p') _ :=
    (O.keeping I).projection (V := id) p (fun e he => parts (.expr e) he)
      fun s hs => parts (.select s) hs
  exact walked

theorem Keeps.traverse {e : Expr} (parts : ∀ q ∈ (Part.expr e).parts, W.Keeps O I P q)
    (lasting : Part.Lasting P) (here : P (.expr e)) :
    O.Keeps I (fun e' => (Part.expr e').Every P) (e.traverse (fun c _ => W.expr c)
      (fun s _ => W.select s) fun p _ => W.projection p) :=
  (Keeps.shaped parts).mono fun _ shaped => shaped.every (lasting.expr shaped here)

theorem Keeps.traverseSelect {s : Select Expr} (parts : ∀ q ∈ (Part.select s).parts, W.Keeps O I P q)
    (lasting : Part.Lasting P) (here : P (.select s)) :
    O.Keeps I (fun s' => (Part.select s').Every P) (s.traverse fun e _ => W.expr e) :=
  (Keeps.shapedSelect parts).mono fun _ shaped => shaped.every (lasting.select shaped here)

omit [LawfulMonad m] in
theorem Keeps.traverseProjection {p : Projection Expr}
    (parts : ∀ q ∈ (Part.projection p).parts, W.Keeps O I P q) (lasting : Part.Lasting P)
    (here : P (.projection p)) :
    O.Keeps I (fun p' => (Part.projection p').Every P)
      (p.traverse (fun e _ => W.expr e) fun s _ => W.select s) :=
  (Keeps.shapedProjection parts).mono fun _ shaped => shaped.every (lasting.projection shaped here)

omit [LawfulMonad m] in
/-- A walk keeps what each of its steps keeps. -/
theorem Keeps.of_steps {G : Part → Prop}
    (steps : ∀ p, G p → (∀ q ∈ p.parts, W.Keeps O I P q) → W.Keeps O I P p) {p : Part}
    (h : p.Every G) : W.Keeps O I P p := by
  induction h with
  | node here _ ih => exact steps _ here ih

end Walker

end ObjectQuery
