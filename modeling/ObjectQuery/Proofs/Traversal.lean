import ObjectQuery.Tree.Substitute

/-!
What a traversal does when it is known what its actions do. Walks are compared by a relation between their
actions, and one walk is observed through a relation between the state before, the action, its result and
the state after; whatever such a relation says about the actions on the parts of a node, it says about the
traversal of the node.
-/

namespace ObjectQuery

structure Relates (m n : Type → Type) [Monad m] [Monad n] where
  rel : {α : Type} → m α → n α → Prop
  pure : ∀ {α : Type} (a : α), rel (Pure.pure a : m α) (Pure.pure a : n α)
  bind : ∀ {α β : Type} {x : m α} {y : n α} {f : α → m β} {g : α → n β},
    rel x y → (∀ a, rel (f a) (g a)) → rel (x >>= f) (y >>= g)

section Related

variable {m n : Type → Type} [Monad m] [Monad n] [LawfulMonad m] [LawfulMonad n] (R : Relates m n)

namespace Relates

theorem map {α β : Type} {x : m α} {y : n α} (f : α → β) (h : R.rel x y) : R.rel (f <$> x) (f <$> y) := by
  rw [map_eq_pure_bind, map_eq_pure_bind]
  exact R.bind h fun _ => R.pure _

theorem mapM {α β : Type} {l : List α} {f : α → m β} {g : α → n β} (h : ∀ a ∈ l, R.rel (f a) (g a)) :
    R.rel (l.mapM f) (l.mapM g) := by
  induction l with
  | nil => exact R.pure _
  | cons a rest ih =>
    rw [List.mapM_cons, List.mapM_cons]
    exact R.bind (h a (by simp)) fun _ => R.bind (ih fun b hb => h b (by simp [hb])) fun _ => R.pure _

theorem optionMapM {α β : Type} {o : Option α} {f : α → m β} {g : α → n β}
    (h : ∀ a ∈ o, R.rel (f a) (g a)) : R.rel (o.mapM f) (o.mapM g) := by
  cases o with
  | none => exact R.pure _
  | some a => exact R.map some (h a rfl)

end Relates

theorem Command.traverse_related :
    (c : Command Expr) → {f : (e : Expr) → e ∈ c.exprs → m Expr} → {g : (e : Expr) → e ∈ c.exprs → n Expr} →
    (∀ e he, R.rel (f e he) (g e he)) → R.rel (c.traverse f) (c.traverse g)
  | .insert _ _, _, _, h => R.bind (R.mapM fun _ _ => R.bind (h _ _) fun _ => R.pure _) fun _ => R.pure _
  | .update _ _ _, _, _, h => R.bind (h _ _) fun _ =>
    R.bind (R.mapM fun _ _ => R.bind (h _ _) fun _ => R.pure _) fun _ => R.pure _
  | .delete _ _, _, _, h => R.bind (R.optionMapM fun _ _ => h _ _) fun _ => R.pure _
  | .conditional _ onTrue none, _, _, h => R.bind (h _ _) fun _ =>
    R.bind (traverse_related onTrue fun _ _ => h _ _) fun _ => R.pure _
  | .conditional _ onTrue (some onFalse), _, _, h => R.bind (h _ _) fun _ =>
    R.bind (traverse_related onTrue fun _ _ => h _ _) fun _ =>
      R.bind (traverse_related onFalse fun _ _ => h _ _) fun _ => R.pure _
  | .batch _ _ operation, _, _, h => R.bind (R.mapM fun _ _ => h _ _) fun _ =>
    R.bind (traverse_related operation fun _ _ => h _ _) fun _ => R.pure _

theorem Expr.traverse_related (e : Expr)
    {f : (c : Expr) → Part.expr c ∈ (Part.expr e).parts → m Expr}
    {f' : (c : Expr) → Part.expr c ∈ (Part.expr e).parts → n Expr}
    {g : (s : Select Expr) → Part.select s ∈ (Part.expr e).parts → m (Select Expr)}
    {g' : (s : Select Expr) → Part.select s ∈ (Part.expr e).parts → n (Select Expr)}
    {k : (p : Projection Expr) → Part.projection p ∈ (Part.expr e).parts → m (Projection Expr)}
    {k' : (p : Projection Expr) → Part.projection p ∈ (Part.expr e).parts → n (Projection Expr)}
    (hf : ∀ c hc, R.rel (f c hc) (f' c hc)) (hg : ∀ s hs, R.rel (g s hs) (g' s hs))
    (hk : ∀ p hp, R.rel (k p hp) (k' p hp)) : R.rel (e.traverse f g k) (e.traverse f' g' k') := by
  cases e with
  | const _ | param _ | operator _ | table _ | column _ => exact R.pure _
  | member _ _ | unary _ _ | lambda _ | isNull _ | entity _ _ => exact R.bind (hf _ _) fun _ => R.pure _
  | binary _ _ _ | outerJoined _ _ | grouping _ _ =>
    exact R.bind (hf _ _) fun _ => R.bind (hf _ _) fun _ => R.pure _
  | cond _ _ _ | between _ _ _ =>
    exact R.bind (hf _ _) fun _ => R.bind (hf _ _) fun _ => R.bind (hf _ _) fun _ => R.pure _
  | call _ args => exact R.bind (R.mapM fun _ _ => hf _ _) fun _ => R.pure _
  | construct _ fields =>
    exact R.bind (R.mapM fun _ _ => R.bind (hf _ _) fun _ => R.pure _) fun _ => R.pure _
  | select _ | scalar _ | existsIn _ => exact R.bind (hg _ _) fun _ => R.pure _
  | setOp _ _ _ _ => exact R.bind (hg _ _) fun _ => R.bind (hg _ _) fun _ => R.pure _
  | groupAggregate _ _ _ _ | inSelect _ _ =>
    exact R.bind (hf _ _) fun _ => R.bind (hg _ _) fun _ => R.pure _
  | join _ _ _ _ =>
    exact R.bind (hf _ _) fun _ => R.bind (hf _ _) fun _ =>
      R.bind (R.optionMapM fun _ _ => hf _ _) fun _ => R.pure _
  | aggregate _ _ _ => exact R.bind (R.optionMapM fun _ _ => hf _ _) fun _ => R.pure _
  | inValues _ _ => exact R.bind (hf _ _) fun _ => R.bind (R.mapM fun _ _ => hf _ _) fun _ => R.pure _
  | rowNumber _ => exact R.bind (R.mapM fun _ _ => R.bind (hf _ _) fun _ => R.pure _) fun _ => R.pure _
  | projection _ => exact R.bind (hk _ _) fun _ => R.pure _
  | clientJoin _ _ _ =>
    exact R.bind (R.mapM fun _ _ => hf _ _) fun _ => R.bind (hk _ _) fun _ =>
      R.bind (R.mapM fun _ _ => hf _ _) fun _ => R.pure _
  | command c => exact R.bind (Command.traverse_related R c fun _ _ => hf _ _) fun _ => R.pure _

theorem Select.traverse_related (s : Select Expr)
    {f : (e : Expr) → Part.expr e ∈ (Part.select s).parts → m Expr}
    {g : (e : Expr) → Part.expr e ∈ (Part.select s).parts → n Expr}
    (h : ∀ e he, R.rel (f e he) (g e he)) : R.rel (s.traverse f) (s.traverse g) :=
  R.bind (R.optionMapM fun _ _ => h _ _) fun _ => R.bind (R.optionMapM fun _ _ => h _ _) fun _ =>
  R.bind (R.mapM fun _ _ => R.bind (h _ _) fun _ => R.pure _) fun _ =>
  R.bind (R.mapM fun _ _ => h _ _) fun _ => R.bind (R.optionMapM fun _ _ => h _ _) fun _ =>
  R.bind (R.optionMapM fun _ _ => h _ _) fun _ =>
  R.bind (R.mapM fun _ _ => R.bind (h _ _) fun _ => R.pure _) fun _ => R.pure _

omit [LawfulMonad m] [LawfulMonad n] in
theorem Projection.traverse_related (p : Projection Expr)
    {f : (e : Expr) → Part.expr e ∈ (Part.projection p).parts → m Expr}
    {f' : (e : Expr) → Part.expr e ∈ (Part.projection p).parts → n Expr}
    {g : (s : Select Expr) → Part.select s ∈ (Part.projection p).parts → m (Select Expr)}
    {g' : (s : Select Expr) → Part.select s ∈ (Part.projection p).parts → n (Select Expr)}
    (hf : ∀ e he, R.rel (f e he) (f' e he)) (hg : ∀ s hs, R.rel (g s hs) (g' s hs)) :
    R.rel (p.traverse f g) (p.traverse f' g') :=
  R.bind (hg _ _) fun _ => R.bind (hf _ _) fun _ => R.pure _

end Related

structure Yields (m : Type → Type) [Monad m] (σ : Type) where
  gives : {α : Type} → σ → m α → α → σ → Prop
  pure : ∀ {α : Type} (s : σ) (a : α), gives s (Pure.pure a) a s
  bind : ∀ {α β : Type} {s s' s'' : σ} {x : m α} {f : α → m β} {a : α} {b : β},
    gives s x a s' → gives s' (f a) b s'' → gives s (x >>= f) b s''

namespace Yields

def ofState (σ : Type) : Yields (StateM σ) σ where
  gives s x a s' := x.run s = (a, s')
  pure _ _ := rfl
  bind hx hf := by
    rw [StateT.run_bind, hx]
    exact hf

def ofStateOk (σ ε : Type) : Yields (StateT σ (Except ε)) σ where
  gives s x a s' := x.run s = .ok (a, s')
  pure _ _ := rfl
  bind hx hf := by
    rw [StateT.run_bind, hx]
    exact hf

def ofOk (ε : Type) : Yields (Except ε) Unit where
  gives _ x a _ := x = .ok a
  pure _ _ := rfl
  bind hx hf := by
    rw [hx]
    exact hf

def ofOnly (ε : Type) : Yields (Except ε) Unit where
  gives _ x a _ := ∀ b, x = .ok b → b = a
  pure _ _ _ h := (Except.ok.inj h).symm
  bind {_ _ _ _ _ x _ _ _} hx hf b h := by
    cases x with
    | error e => cases h
    | ok a' =>
      obtain rfl := hx a' rfl
      exact hf b h

def ofId : Yields Id Unit where
  gives _ x a _ := x = a
  pure _ _ := rfl
  bind hx hf := by
    rw [hx]
    exact hf

variable {m : Type → Type} [Monad m] [LawfulMonad m] {σ : Type} (Y : Yields m σ) {s : σ}

theorem map {α β : Type} {x : m α} {a : α} {s' : σ} (f : α → β) (h : Y.gives s x a s') :
    Y.gives s (f <$> x) (f a) s' := by
  rw [map_eq_pure_bind]
  exact Y.bind h (Y.pure _ _)

omit [LawfulMonad m] in
def relates (s : σ) : Relates m Id where
  rel x y := Y.gives s x y.run s
  pure _ := Y.pure _ _
  bind h next := Y.bind h (next _)

theorem mapM_map {α β : Type} {l : List α} {act : α → m β} {f : α → β}
    (h : ∀ a ∈ l, Y.gives s (act a) (f a) s) : Y.gives s (l.mapM act) (l.map f) s := by
  induction l with
  | nil => exact Y.pure _ _
  | cons a rest ih =>
    rw [List.mapM_cons]
    exact Y.bind (h a (by simp)) (Y.bind (ih fun b hb => h b (by simp [hb])) (Y.pure _ _))

theorem optionMapM_map {α β : Type} {o : Option α} {act : α → m β} {f : α → β}
    (h : ∀ a ∈ o, Y.gives s (act a) (f a) s) : Y.gives s (o.mapM act) (o.map f) s := by
  cases o with
  | none => exact Y.pure _ _
  | some a => exact Y.map some (h a rfl)

end Yields

section Pointwise

variable {m : Type → Type} [Monad m] [LawfulMonad m] {σ : Type} (Y : Yields m σ) {s : σ}

theorem Expr.traverse_gives (e : Expr)
    {onExpr : (c : Expr) → Part.expr c ∈ (Part.expr e).parts → m Expr}
    {onSelect : (s : Select Expr) → Part.select s ∈ (Part.expr e).parts → m (Select Expr)}
    {onProjection :
      (p : Projection Expr) → Part.projection p ∈ (Part.expr e).parts → m (Projection Expr)}
    {f : (c : Expr) → Part.expr c ∈ (Part.expr e).parts → Id Expr}
    {g : (s : Select Expr) → Part.select s ∈ (Part.expr e).parts → Id (Select Expr)}
    {k : (p : Projection Expr) → Part.projection p ∈ (Part.expr e).parts → Id (Projection Expr)}
    (hf : ∀ c hc, Y.gives s (onExpr c hc) (f c hc).run s)
    (hg : ∀ c hc, Y.gives s (onSelect c hc) (g c hc).run s)
    (hk : ∀ c hc, Y.gives s (onProjection c hc) (k c hc).run s) :
    Y.gives s (e.traverse onExpr onSelect onProjection) (e.traverse f g k).run s :=
  e.traverse_related (Y.relates s) hf hg hk

theorem Select.traverse_gives (q : Select Expr)
    {onExpr : (e : Expr) → Part.expr e ∈ (Part.select q).parts → m Expr}
    {f : (e : Expr) → Part.expr e ∈ (Part.select q).parts → Id Expr}
    (hf : ∀ e he, Y.gives s (onExpr e he) (f e he).run s) :
    Y.gives s (q.traverse onExpr) (q.traverse f).run s :=
  q.traverse_related (Y.relates s) hf

end Pointwise

theorem optionMapM_attach {m : Type → Type} [Monad m] {α β : Type} (o : Option α) (f : α → m β) :
    (o.attach.mapM fun a => f a.val) = o.mapM f := by
  cases o <;> rfl

theorem optionMapM_attach_map {α β : Type} (o : Option α) (f : α → β) :
    (o.attach.mapM fun a => (pure (f a.val) : Id β)).run = o.map f := by
  cases o <;> rfl

@[simp] theorem optionMapM_attach_pure {α : Type} (o : Option α) :
    (o.attach.mapM fun a => (pure a.val : Id α)).run = o := by
  cases o <;> rfl

theorem Command.traverse_pure : (c : Command Expr) →
    (c.traverse fun e _ => (pure e : Id Expr)).run = c
  | .insert _ _ | .update _ _ _ | .delete _ none | .delete _ (some _) => by
    simp [Command.traverse]
  | .conditional _ onTrue none => by
    simp [Command.traverse, traverse_pure onTrue]
  | .conditional _ onTrue (some onFalse) => by
    simp [Command.traverse, traverse_pure onTrue, traverse_pure onFalse]
  | .batch _ _ operation => by
    simp [Command.traverse, traverse_pure operation]

theorem Expr.traverse_pure (e : Expr) :
    (e.traverse (fun c _ => (pure c : Id Expr)) (fun s _ => pure s) fun p _ => pure p).run = e := by
  cases e <;> simp [Expr.traverse, Command.traverse_pure]

theorem Select.traverse_pure (q : Select Expr) :
    (q.traverse fun e _ => (pure e : Id Expr)).run = q := by
  simp [Select.traverse]

/-- A select is rebuilt over its source and then over its clauses. -/
theorem Select.traverse_source {m : Type → Type} [Monad m] [LawfulMonad m] (s : Select Expr)
    (f : Expr → m Expr) : s.traverse (fun e _ => f e) = (do
      let source ← s.source.mapM f
      let rest ← { s with source := none }.traverse fun e _ => f e
      return { rest with source }) := by
  simp [Select.traverse, optionMapM_attach]

end ObjectQuery
