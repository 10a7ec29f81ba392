import ObjectQuery.Proofs.Traversal

/-!
Walks that go over their own result in the same way. Such a walk, taken again from the state in which it
started, leaves what it has made as it is and ends in the same state. A traversal is one where the walks
through the parts are.
-/

namespace ObjectQuery

variable {σ α β γ : Type}

def Retraced (again : α → StateM σ α) (act : StateM σ α) : Prop :=
  ∀ st, (again (act.run st).1).run st = act.run st

namespace Retraced

variable {A : α → StateM σ α} {B : β → StateM σ β} {x : StateM σ α} {y : StateM σ β}

/-- One step after another: the second one starts where the first one ends, both times. -/
theorem pair (hx : Retraced A x) (hy : Retraced B y) :
    Retraced (fun p : α × β => do return (← A p.1, ← B p.2)) (do return (← x, ← y)) := by
  intro st
  have first := hx st
  have second := hy (x.run st).2
  change (fun a : α × σ => (fun b : β × σ => ((a.1, b.1), b.2))
    ((B (y.run (x.run st).2).1).run a.2)) ((A (x.run st).1).run st) = _
  rw [first]
  exact congrArg (fun b : β × σ => (((x.run st).1, b.1), b.2)) second

/-- What is built from some parts is built again from the same parts. -/
theorem build {m : α → γ} {again : γ → StateM σ γ} {act : StateM σ γ} (hx : Retraced A x)
    (builds : act = m <$> x) (rebuilds : ∀ a, again (m a) = m <$> A a) : Retraced again act := by
  subst builds
  intro st
  rw [StateT.run_map]
  change (again (m (x.run st).1)).run st = _
  rw [rebuilds, StateT.run_map, hx st]

theorem mapM {f : α → StateM σ α} {l : List α} (h : ∀ a ∈ l, Retraced f (f a)) :
    Retraced (fun l => l.mapM f) (l.mapM f) := by
  induction l with
  | nil => exact fun _ => rfl
  | cons a rest ih =>
    have both := (h a (by simp)).pair (ih fun b hb => h b (by simp [hb]))
    exact both.build (m := fun p => p.1 :: p.2) (by simp) fun p => by simp

theorem optionMapM {f : α → StateM σ α} {o : Option α} (h : ∀ a ∈ o, Retraced f (f a)) :
    Retraced (fun o => o.mapM f) (o.mapM f) := by
  cases o with
  | none => exact fun _ => rfl
  | some a => exact (h a rfl).build (m := some) rfl fun _ => rfl

end Retraced

section Traversal

variable {F : Expr → StateM σ Expr} {G : Select Expr → StateM σ (Select Expr)}
  {K : Projection Expr → StateM σ (Projection Expr)}

theorem Assignment.retraced {a : Assignment Expr} (h : Retraced F (F a.expr)) :
    Retraced (fun a : Assignment Expr => do return { a with expr := ← F a.expr })
      (do return { a with expr := ← F a.expr }) :=
  h.build (m := fun e => { a with expr := e }) rfl fun _ => rfl

theorem Order.retraced {o : Order Expr} (h : Retraced F (F o.expr)) :
    Retraced (fun o : Order Expr => do return { o with expr := ← F o.expr })
      (do return { o with expr := ← F o.expr }) :=
  h.build (m := fun e => { o with expr := e }) rfl fun _ => rfl

theorem Field.retraced {f : Field Expr} (h : Retraced F (F f.expr)) :
    Retraced (fun f : Field Expr => do return { f with expr := ← F f.expr })
      (do return { f with expr := ← F f.expr }) :=
  h.build (m := fun e => { f with expr := e }) rfl fun _ => rfl

theorem ColumnDecl.retraced {d : ColumnDecl Expr} (h : Retraced F (F d.expr)) :
    Retraced (fun d : ColumnDecl Expr => do return { d with expr := ← F d.expr })
      (do return { d with expr := ← F d.expr }) :=
  h.build (m := fun e => { d with expr := e }) rfl fun _ => rfl

theorem Command.traverse_retraced : (c : Command Expr) → (∀ e ∈ c.exprs, Retraced F (F e)) →
    Retraced (fun c : Command Expr => c.traverse fun e _ => F e) (c.traverse fun e _ => F e)
  | .insert table assignments, h => by
    have parts := Retraced.mapM (l := assignments) fun a ha =>
      Assignment.retraced (h a.expr (List.mem_map_of_mem ha))
    exact parts.build (m := Command.insert table) (by simp [traverse]) fun _ => by simp [traverse]
  | .update table filter assignments, h => by
    have parts := (h filter List.mem_cons_self).pair (Retraced.mapM (l := assignments) fun a ha =>
      Assignment.retraced (h a.expr (List.mem_cons_of_mem _ (List.mem_map_of_mem ha))))
    exact parts.build (m := fun p => Command.update table p.1 p.2) (by simp [traverse])
      fun _ => by simp [traverse]
  | .delete table filter, h => by
    have parts := Retraced.optionMapM (o := filter) fun e he => h e (by simp_all [exprs])
    exact parts.build (m := Command.delete table) (by simp [traverse, optionMapM_attach])
      fun _ => by simp [traverse, optionMapM_attach]
  | .conditional check onTrue none, h => by
    have parts := (h check List.mem_cons_self).pair
      (traverse_retraced onTrue fun e he => h e (by simp_all [exprs]))
    exact parts.build (m := fun p => Command.conditional p.1 p.2 none) (by simp [traverse])
      fun _ => by simp [traverse]
  | .conditional check onTrue (some onFalse), h => by
    have parts := (h check List.mem_cons_self).pair
      ((traverse_retraced onTrue fun e he => h e (by simp_all [exprs])).pair
        (traverse_retraced onFalse fun e he => h e (by simp_all [exprs])))
    exact parts.build (m := fun p => Command.conditional p.1 p.2.1 (some p.2.2)) (by simp [traverse])
      fun _ => by simp [traverse]
  | .batch item items operation, h => by
    have parts := (Retraced.mapM (l := items) fun e he => h e (List.mem_append_left _ he)).pair
      (traverse_retraced operation fun e he => h e (List.mem_append_right _ he))
    exact parts.build (m := fun p => Command.batch item p.1 p.2) (by simp [traverse])
      fun _ => by simp [traverse]

theorem Expr.traverse_retraced (e : Expr)
    (hF : ∀ c, Part.expr c ∈ (Part.expr e).parts → Retraced F (F c))
    (hG : ∀ s, Part.select s ∈ (Part.expr e).parts → Retraced G (G s))
    (hK : ∀ p, Part.projection p ∈ (Part.expr e).parts → Retraced K (K p)) :
    Retraced (fun e : Expr => e.traverse (fun c _ => F c) (fun s _ => G s) fun p _ => K p)
      (e.traverse (fun c _ => F c) (fun s _ => G s) fun p _ => K p) := by
  cases e with
  | const _ | param _ | operator _ | table _ | column _ => exact fun _ => rfl
  | member a name =>
    exact (hF a (by simp [Part.parts])).build (m := (Expr.member · name)) rfl fun _ => rfl
  | unary op a => exact (hF a (by simp [Part.parts])).build (m := Expr.unary op) rfl fun _ => rfl
  | lambda l =>
    exact (hF l.body (by simp [Part.parts])).build (m := fun e => Expr.lambda { l with body := e }) rfl
      fun _ => rfl
  | isNull a => exact (hF a (by simp [Part.parts])).build (m := Expr.isNull) rfl fun _ => rfl
  | entity name a => exact (hF a (by simp [Part.parts])).build (m := Expr.entity name) rfl fun _ => rfl
  | select s => exact (hG s (by simp [Part.parts])).build (m := Expr.select) rfl fun _ => rfl
  | scalar s => exact (hG s (by simp [Part.parts])).build (m := Expr.scalar) rfl fun _ => rfl
  | existsIn s => exact (hG s (by simp [Part.parts])).build (m := Expr.existsIn) rfl fun _ => rfl
  | projection p => exact (hK p (by simp [Part.parts])).build (m := Expr.projection) rfl fun _ => rfl
  | binary op a b =>
    exact ((hF a (by simp [Part.parts])).pair (hF b (by simp [Part.parts]))).build
      (m := fun p => Expr.binary op p.1 p.2) rfl fun _ => rfl
  | outerJoined a b =>
    exact ((hF a (by simp [Part.parts])).pair (hF b (by simp [Part.parts]))).build
      (m := fun p => Expr.outerJoined p.1 p.2) rfl fun _ => rfl
  | grouping a b =>
    exact ((hF a (by simp [Part.parts])).pair (hF b (by simp [Part.parts]))).build
      (m := fun p => Expr.grouping p.1 p.2) rfl fun _ => rfl
  | setOp rel kind s t =>
    exact ((hG s (by simp [Part.parts])).pair (hG t (by simp [Part.parts]))).build
      (m := fun p => Expr.setOp rel kind p.1 p.2) rfl fun _ => rfl
  | groupAggregate correlation owner a s =>
    exact ((hF a (by simp [Part.parts])).pair (hG s (by simp [Part.parts]))).build
      (m := fun p => Expr.groupAggregate correlation owner p.1 p.2) rfl fun _ => rfl
  | inSelect a s =>
    exact ((hF a (by simp [Part.parts])).pair (hG s (by simp [Part.parts]))).build
      (m := fun p => Expr.inSelect p.1 p.2) rfl fun _ => rfl
  | cond a b c =>
    exact ((hF a (by simp [Part.parts])).pair ((hF b (by simp [Part.parts])).pair
      (hF c (by simp [Part.parts])))).build (m := fun p => Expr.cond p.1 p.2.1 p.2.2) rfl fun _ => rfl
  | between a b c =>
    exact ((hF a (by simp [Part.parts])).pair ((hF b (by simp [Part.parts])).pair
      (hF c (by simp [Part.parts])))).build (m := fun p => Expr.between p.1 p.2.1 p.2.2) rfl fun _ => rfl
  | call function args =>
    have parts := Retraced.mapM (l := args) fun a ha => hF a (by simp [Part.parts, ha])
    exact parts.build (m := Expr.call function) (by simp [traverse]) fun _ => by simp [traverse]
  | construct typeName fields =>
    have parts := Retraced.mapM (l := fields) fun f hf => Field.retraced (hF f.expr (Expr.field_mem hf))
    exact parts.build (m := Expr.construct typeName) (by simp [traverse]) fun _ => by simp [traverse]
  | join kind a b on =>
    have parts := (hF a (by simp [Part.parts])).pair ((hF b (by simp [Part.parts])).pair
      (Retraced.optionMapM (o := on) fun c hc => hF c (by simp_all [Part.parts])))
    exact parts.build (m := fun p => Expr.join kind p.1 p.2.1 p.2.2)
      (by simp [traverse, optionMapM_attach]) fun _ => by simp [traverse, optionMapM_attach]
  | aggregate kind argument distinct =>
    have parts := Retraced.optionMapM (o := argument) fun c hc => hF c (by simp_all [Part.parts])
    exact parts.build (m := (Expr.aggregate kind · distinct))
      (by simp [traverse, optionMapM_attach]) fun _ => by simp [traverse, optionMapM_attach]
  | inValues a values =>
    have parts := (hF a (by simp [Part.parts])).pair
      (Retraced.mapM (l := values) fun v hv => hF v (by simp [Part.parts, hv]))
    exact parts.build (m := fun p => Expr.inValues p.1 p.2) (by simp [traverse])
      fun _ => by simp [traverse]
  | rowNumber orders =>
    have parts := Retraced.mapM (l := orders) fun o ho =>
      Order.retraced (hF o.expr (by simpa [Part.parts] using ⟨o, ho, rfl⟩))
    exact parts.build (m := Expr.rowNumber) (by simp [traverse]) fun _ => by simp [traverse]
  | clientJoin p outer inner =>
    have parts := (Retraced.mapM (l := outer) fun k hk => hF k (by simp [Part.parts, hk])).pair
      ((hK p (by simp [Part.parts])).pair
        (Retraced.mapM (l := inner) fun k hk => hF k (by simp [Part.parts, hk])))
    exact parts.build (m := fun p => Expr.clientJoin p.2.1 p.1 p.2.2) (by simp [traverse])
      fun _ => by simp [traverse]
  | command c =>
    exact (Command.traverse_retraced c fun e he => hF e (by simp [Part.parts, he])).build
      (m := Expr.command) rfl fun _ => rfl

end Traversal

end ObjectQuery
