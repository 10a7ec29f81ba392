import ObjectQuery.Proofs.Correspondence
import ObjectQuery.Proofs.Expansion
import ObjectQuery.Proofs.StackOrdering

/-!
The two readings of a stack. `Meaning.direct` reads expressions as they stand. `Meaning.unfolded`
reads them with the comparisons of objects expanded, which have no value before that. The pass that
expands them in the stack leads from the second reading to the first one.
-/

namespace ObjectQuery

open Eval

namespace Plain

variable {members : Prop} {P : Column → Prop} {e : Expr}

theorem client_lifted (h : Plain members P e) (tables : Tables) (scope : Scope) :
    Lifted (client tables e scope) :=
  Eval.client_lifted h.unjoined tables scope

end Plain

namespace Meaning

variable (tables : Tables)

theorem isTrue_and (a b : Value) :
    ((Value.binary .and a b).toOption.getD .null).isTrue = (a.isTrue && b.isTrue) := by
  cases a with
  | bool a =>
    cases b with
    | bool b => cases a <;> cases b <;> rfl
    | _ => cases a <;> rfl
  | null =>
    cases b with
    | bool b => cases b <;> rfl
    | _ => rfl
  | _ => rfl

theorem scalar_of_reads {scope : Scope} {e : Expr} {v : Value} (h : Reads True scope e v) :
    scalar tables e scope = .ok v := by
  rcases h with ⟨c, rfl, hc⟩ | ⟨-, rfl⟩
  · rw [scalar.eq_2]
    exact hc
  · rw [scalar]

def direct : Meaning tables where
  members := True
  constants := True
  value e scope := (scalar tables e scope).toOption.getD .null
  object e scope := ((client tables e scope).run []).toOption.map (·.1)
  value_of_scalar _ h := by simp [h, Except.toOption]
  object_of_client {_ e scope _ _ _} plain h := by
    obtain ⟨x, hx⟩ := plain.client_lifted tables scope
    rw [hx] at h ⊢
    cases x with
    | error _ => cases h
    | ok v =>
      cases h
      rfl
  value_replace plain h := by
    refine congrArg (Option.getD · .null) (plain.scalar_replace fun c hc => ?_)
    obtain ⟨v, hv, reads⟩ := h c hc
    rw [scalar_of_reads tables reads, hv]
    exact Alike.refl _
  object_replace plain h := by
    refine congrArg (Option.map (·.1)) (plain.client_replace (fun c hc => ?_) (fun c hc => ?_) [])
    · obtain ⟨v, -, ⟨c', hc', -⟩ | ⟨-, hv⟩⟩ := h c hc
      · exact .inl ⟨c', hc'⟩
      · exact .inr ⟨v, hv⟩
    · obtain ⟨v, hv, reads⟩ := h c hc
      rw [scalar_of_reads tables reads, hv]
      exact Alike.refl _
  isTrue_both a b scope := by
    simp only [Expr.both, scalar]
    cases scalar tables a scope with
    | error _ => rfl
    | ok x =>
      cases scalar tables b scope with
      | error _ => exact (Bool.and_false _).symm
      | ok y => exact isTrue_and x y

def unfolded (m : Mapping) : Meaning tables where
  members := False
  constants := False
  value e := (direct tables).value (e.expanded m)
  object e := (direct tables).object (e.expanded m)
  value_of_scalar plain h :=
    (direct tables).value_of_scalar (Opened.plain plain).plain_expanded
      ((Opened.plain plain).scalar_expanded h)
  object_of_client plain h :=
    (direct tables).object_of_client (Opened.plain plain).plain_expanded
      ((Opened.plain plain).client_expanded h)
  value_replace plain h := by
    rw [(Opened.plain plain).expanded_replace fun c hc => ?_]
    · refine (direct tables).value_replace (Opened.plain plain).plain_expanded fun c hc => ?_
      obtain ⟨v, hv, reads⟩ := h c hc
      exact ⟨v, hv, reads.imp_right fun h => h.1.elim⟩
    · obtain ⟨_, -, ⟨c', hc', -⟩ | ⟨none, -⟩⟩ := h c hc
      · exact ⟨c', hc'⟩
      · exact none.elim
  object_replace plain h := by
    rw [(Opened.plain plain).expanded_replace fun c hc => ?_]
    · refine (direct tables).object_replace (Opened.plain plain).plain_expanded fun c hc => ?_
      obtain ⟨v, hv, reads⟩ := h c hc
      exact ⟨v, hv, reads.imp_right fun h => h.1.elim⟩
    · obtain ⟨_, -, ⟨c', hc', -⟩ | ⟨none, -⟩⟩ := h c hc
      · exact ⟨c', hc'⟩
      · exact none.elim
  isTrue_both a b scope := by
    rw [Expr.expanded_both]
    exact (direct tables).isTrue_both _ _ _

end Meaning

namespace Stack

variable {tables : Tables} {m : Mapping} {t : Table} {offered : List String} {base : List Row}
  {l : Layer} {s below : Stack} {projector : Expr}

def expanded (m : Mapping) (s : Stack) : Stack := s.map (Layer.mapExprs (Expr.expanded m))

theorem expanded_cons (m : Mapping) (l : Layer) (below : Stack) :
    expanded m (l :: below) = l.mapExprs (Expr.expanded m) :: expanded m below := rfl

theorem top_expanded (s : Stack) : top t (expanded m s) = top t s := by
  cases s <;> rfl

theorem names_mapExprs (f : Expr → Expr) (l : Layer) : (l.mapExprs f).names = l.names := by
  simp [Layer.names, Layer.mapExprs, Function.comp_def]

theorem exprs_mapExprs (f : Expr → Expr) (l : Layer) : (l.mapExprs f).exprs = l.exprs.map f := by
  cases hf : l.filter <;> simp [Layer.exprs, Layer.mapExprs, Function.comp_def, hf]

theorem offers_expanded (s : Stack) : offers offered (expanded m s) = offers offered s := by
  cases s with
  | nil => rfl
  | cons l below => exact names_mapExprs _ l

theorem sees_expanded (s : Stack) : Sees t offered (expanded m s) = Sees t offered s := by
  funext c
  rw [Sees, Sees, top_expanded, offers_expanded]

theorem aliases_expanded (s : Stack) : aliases t (expanded m s) = aliases t s := by
  simp [aliases, expanded, Layer.mapExprs, Function.comp_def]

theorem trace_expanded (s : Stack) :
    trace (.direct tables) t (expanded m s) = trace (.unfolded tables m) t s := by
  induction s with
  | nil => rfl
  | cons l below ih =>
    funext row
    rw [trace, ← ih, ← top_expanded (m := m) below]
    simp only [expanded, List.map_cons, trace, Layer.mapExprs, List.map_map, Function.comp_def]
    rfl

theorem view_expanded (s : Stack) :
    view (.direct tables) t (expanded m s) = view (.unfolded tables m) t s := by
  funext row
  rw [view, view, trace_expanded, top_expanded]

theorem passes_expanded (l : Layer) (below : Stack) :
    passes (.direct tables) t (l.mapExprs (Expr.expanded m)) (expanded m below)
      = passes (.unfolded tables m) t l below := by
  funext row
  rw [passes, passes, view_expanded, Layer.mapExprs]
  cases l.filter <;> rfl

theorem keys_expanded (l : Layer) (below : Stack) :
    keys (.direct tables) t (l.mapExprs (Expr.expanded m)) (expanded m below)
      = keys (.unfolded tables m) t l below := by
  rw [keys, keys, view_expanded, Layer.mapExprs, List.map_map]
  rfl

theorem picked_expanded (s : Stack) :
    picked (.direct tables) t base (expanded m s) = picked (.unfolded tables m) t base s := by
  induction s with
  | nil => rfl
  | cons l below ih =>
    rw [picked, ← ih, ← passes_expanded, ← keys_expanded]
    rfl

theorem order_expanded (s : Stack) :
    order (.direct tables) t (expanded m s) = order (.unfolded tables m) t s := by
  induction s with
  | nil => rfl
  | cons l below ih =>
    rw [order, ← ih, ← keys_expanded]
    rfl

theorem uniform_expanded (h : Uniform (.unfolded tables m) t base s) :
    Uniform (.direct tables) t base (expanded m s) := by
  induction s with
  | nil => trivial
  | cons l below ih =>
    rw [expanded_cons]
    refine ⟨?_, ih h.2⟩
    rw [picked_expanded, passes_expanded, keys_expanded]
    exact h.1

theorem refined_expanded (h : Refined (.unfolded tables m) t offered s) :
    Refined (.direct tables) t offered (expanded m s) := by
  induction s with
  | nil => trivial
  | cons l below ih =>
    rw [expanded_cons]
    refine ⟨?_, ih h.2⟩
    rw [order_expanded, keys_expanded]
    exact h.1

theorem sound_expanded (h : Sound (Meaning.unfolded tables m).toGrammar.loosened t offered s) :
    Sound (Meaning.direct tables).toGrammar t offered (expanded m s) := by
  induction s with
  | nil => trivial
  | cons l below ih =>
    rw [expanded_cons]
    refine ⟨?_, ⟨fun e he => ?_, ?_, fun _ _ _ _ => trivial⟩, ih h.2.2⟩
    · rw [aliases_expanded]
      exact h.1
    · rw [sees_expanded]
      rw [exprs_mapExprs] at he
      obtain ⟨e', he', rfl⟩ := List.mem_map.mp he
      exact (Opened.plain (h.2.1.plain e' he')).plain_expanded
    · rw [names_mapExprs]
      exact h.2.1.nodup

theorem unnumbered_expanded (h : Unnumbered offered s) : Unnumbered offered (expanded m s) := by
  refine ⟨h.1, fun l hl => ?_⟩
  obtain ⟨l', hl', rfl⟩ := List.mem_map.mp hl
  rw [names_mapExprs]
  exact h.2 l' hl'

theorem objects_expanded (s : Stack) (projector : Expr) :
    objects (.direct tables) t base (expanded m s) (projector.expanded m)
      = objects (.unfolded tables m) t base s projector := by
  rw [objects, objects, picked_expanded, view_expanded]
  rfl

/-- The pass expands the comparisons in every layer and in the projector. -/
theorem expandComparisons_eq {G : Grammar} (closed : G.members → False)
    (sound : Sound G t offered (l :: below)) (plain : Plain G.members (Sees t offered (l :: below)) projector) {e : Expr}
    (h : (Expr.projection (projected t l below projector)).expandComparisons m = .ok e) :
    e = .projection (projected t (l.mapExprs (Expr.expanded m)) (expanded m below)
      (projector.expanded m)) := by
  let Y := Yields.ofOnly RewriteError
  have onPlain : ∀ {P e}, Plain G.members P e →
      Y.gives () (e.expandComparisons m) (e.expanded m) () := fun h =>
    (Opened.plain (h.mono closed fun _ hc => hc)).eq_expanded
  have onLayer : ∀ {l : Layer} {P source source'}, l.Fits G P →
      Y.gives () (source.expandComparisons m) source' () →
      Y.gives () ((l.above source).expandComparisons m) ((l.mapExprs (Expr.expanded m)).above source') () := by
    intro l P source source' fits below
    rw [Select.expandComparisons]
    refine Layer.traverse_gives Y _ below (fun e he => onPlain (fits.plain e he)) fun n => ?_
    have := onPlain (P := fun _ => False) (.const (.int n))
    rwa [Expr.expanded_const] at this
  have onTree : ∀ s : Stack, Sound G t offered s →
      Y.gives () ((tree t s).expandComparisons m) (tree t (expanded m s)) () := by
    intro s sound
    induction s with
    | nil =>
      rw [tree, Expr.expandComparisons] <;> first | exact Y.pure _ _ | simp
    | cons l below ih =>
      rw [tree, Expr.expandComparisons]
      · exact Y.bind (onLayer sound.2.1 (ih sound.2.2)) (Y.pure _ _)
      · simp
  have whole : Y.gives () ((Expr.projection (projected t l below projector)).expandComparisons m)
      (.projection (projected t (l.mapExprs (Expr.expanded m)) (expanded m below)
        (projector.expanded m))) () := by
    rw [Expr.expandComparisons]
    · refine Y.bind (?_ : Y.gives _ (Projection.expandComparisons _ _) _ _) (Y.pure _ _)
      rw [Projection.expandComparisons]
      exact Y.bind (onLayer sound.2.1 (onTree below sound.2.2)) (Y.bind (onPlain plain) (Y.pure _ _))
    · simp
  exact whole e h

end Stack

end ObjectQuery
