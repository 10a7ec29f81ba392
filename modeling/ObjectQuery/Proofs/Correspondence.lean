import ObjectQuery.Proofs.Congruence
import ObjectQuery.Proofs.Nodes

/-!
Evaluating two trees side by side. A correspondence says which rows one tree sees where the other sees
others; a node follows another one when it does so in all corresponding scopes. Nodes of the same shape
do where their parts do, so that a rewriting is justified by what it does at the nodes it changes.
-/

namespace ObjectQuery

open Eval

structure Correspondence where
  shared : Alias → Prop
  frame : Frame → Frame → Prop
  rows : Frame → Frame → Prop
  nil : frame [] []
  single : ∀ {rel : Alias}, shared rel → ∀ row, frame [(rel, row)] [(rel, row)]
  append : ∀ {f f' g g' : Frame}, frame f f' → frame g g' → frame (f ++ g) (f' ++ g')
  extend : ∀ {f f' r r' : Frame}, frame f f' → rows r r' → rows (f.reverse ++ r) (f'.reverse ++ r')

namespace Correspondence

variable (M : Correspondence) (tables : Tables)

structure ExprFollows (e e' : Expr) : Prop where
  value : ∀ σ σ' : Scope, M.rows σ.rows σ'.rows →
    ((Part.expr e).aggregates = true → Option.Rel (List.Forall₂ M.frame) σ.group σ'.group) →
    Follows Eq (scalar tables e σ) (scalar tables e' σ')
  frames : ∀ σ σ' : Scope, M.rows σ.rows σ'.rows →
    Follows (List.Forall₂ M.frame) (source tables e σ) (source tables e' σ')
  unmatched : M.frame (nullFrame (some e)) (nullFrame (some e'))
  aggregates : (Part.expr e).aggregates = (Part.expr e').aggregates
  unnumbered : ∀ orders, e' ≠ .rowNumber orders

structure SelectFollows (s s' : Select Expr) : Prop where
  shared : M.shared s.rel
  rel : s.rel = s'.rel
  names : s.columnNames = s'.columnNames
  rows : ∀ σ σ' : Scope, M.rows σ.rows σ'.rows →
    Follows Eq (select tables s σ) (select tables s' σ')
  aggregates : (Part.select s).aggregates = (Part.select s').aggregates

variable {M} {tables} {e e' : Expr} {s s' : Select Expr} {R : Alias → Prop}

/-- Outside of a group. -/
theorem ExprFollows.extended (h : M.ExprFollows tables e e') {r r' : Frame} (hr : M.rows r r') :
    Follows Eq (scalar tables e ⟨r, none, none⟩) (scalar tables e' ⟨r', none, none⟩) :=
  h.value _ _ hr fun _ => .none

theorem numbering?_eq_none (h : ∀ c ∈ s.columns, ∀ orders, c.expr ≠ .rowNumber orders) :
    numbering? s = none := by
  rw [numbering?, List.findSome?_eq_none_iff]
  rintro ⟨c, hc⟩ -
  have := h c hc
  split
  simp_all

/-- Selects whose clauses follow one another. -/
theorem SelectFollows.of_shaped (tame : (Part.select s).Every (Part.Tame M.shared R))
    (shaped : s.Shaped (M.ExprFollows tables) s') : M.SelectFollows tables s s' where
  shared := tame.here.1
  rel := shaped.rel
  names := by
    rw [Select.columnNames, Select.columnNames, ← List.forall₂_eq_eq_eq, List.forall₂_map_left_iff,
      List.forall₂_map_right_iff]
    exact shaped.columns.imp fun _ _ h => h.1
  aggregates := shaped.aggregates fun _ _ h => h.aggregates
  rows := by
    intro σ σ' hr
    have unnumbered : numbering? s = none := numbering?_eq_none fun c hc orders hce => by
      have := (tame.part (Select.columns_mem hc)).here
      rw [hce] at this
      exact this
    have unnumbered' : numbering? s' = none := numbering?_eq_none fun c' hc' => by
      obtain ⟨c, -, h⟩ := exists_of_forall₂_right shaped.columns c' hc'
      exact h.2.2.unnumbered
    refine select_follows (F := M.frame) shaped ?_ ?_ (fun _ => shaped.hasAggregates fun _ _ h => h.aggregates)
      unnumbered unnumbered' ?_ ?_
    · have hsource := shaped.source
      rw [Eval.frames, Eval.frames]
      generalize s.source = source, s'.source = source' at hsource
      cases hsource with
      | none => exact .pure (.cons M.nil .nil)
      | some h => exact h.frames σ σ' hr
    · have hsource := shaped.source
      generalize s.source = source, s'.source = source' at hsource
      cases hsource with
      | none => exact M.nil
      | some h => exact h.unmatched
    · intro c _ c' h τ τ' inner
      cases inner with
      | frame hf => exact h.extended (M.extend hf hr)
      | group hf hg => exact h.value _ _ (M.extend hf hr) fun _ => .some hg
    · intro c hc c' h
      refine h.value σ σ' hr fun aggregates => ?_
      rw [tame.here.2 c hc] at aggregates
      cases aggregates

/-- Expressions of the same kind whose parts follow one another. -/
theorem ExprFollows.of_shaped {QP : Projection Expr → Projection Expr → Prop}
    (tame : Part.Tame M.shared R (.expr e))
    (shaped : e.Shaped (M.ExprFollows tables) (M.SelectFollows tables) QP e')
    (projections : ∀ p p', QP p p' → (Part.projection p).aggregates = (Part.projection p').aggregates)
    (value : ∀ c, e = .column c → ∀ σ σ' : Scope, M.rows σ.rows σ'.rows →
      Follows Eq (scalar tables e σ) (scalar tables e' σ')) :
    M.ExprFollows tables e e' where
  value := by
    intro σ σ' hr groups
    by_cases column : ∃ c, e = .column c
    · obtain ⟨c, hc⟩ := column
      exact value c hc σ σ' hr
    -- The parts of the node are aggregates only where the node is one.
    have parts : e.Shaped (fun c c' => M.ExprFollows tables c c'
        ∧ ((Part.expr c).aggregates = true → (Part.expr e).aggregates = true))
        (M.SelectFollows tables) QP e' :=
      shaped.imp (fun c c' hc h => ⟨h, tame.aggregates_of_part hc⟩) (fun _ _ _ h => h) fun _ _ _ h => h
    refine scalar_follows parts (fun c hc => column ⟨c, hc⟩)
      (fun c c' h => h.1.value σ σ' hr fun aggregates => groups (h.2 aggregates))
      (fun t t' h => (h.rows σ σ' hr).mono fun _ _ h => h ▸ rfl)
      (fun t t' _ h => (h.rows σ σ' hr).mono fun _ _ h => h ▸ rfl) ?_ ?_
    · rintro kind argument distinct rfl
      have hg := groups (by simp [Part.aggregates_eq, Part.isAggregate])
      generalize σ.group = g, σ'.group = g' at hg
      cases hg with
      | none => exact .none
      | some hg => exact .some (hg.imp fun f f' hf c c' h => h.1.extended (M.extend hf hr))
    · rintro orders rfl
      exact tame.elim
  frames := by
    intro σ σ' hr
    cases shaped with
    | table t => exact table_follows rfl fun row => M.single tame _
    | select h =>
      refine rows_follows (h.rows σ σ' hr).forall₂_eq fun row _ same => ?_
      rw [← same, ← h.rel]
      exact M.single h.shared _
    | setOp rel kind hs ht =>
      exact setOp_follows hs.names (hs.rows σ σ' hr) (ht.rows σ σ' hr) fun row => M.single tame _
    | join kind hl hright hon =>
      refine join_follows (F := M.frame) (G := M.frame) ?_ hright.unmatched
        (fun _ _ _ _ => M.append) (hl.frames σ σ' hr) (fun _ => hright.frames σ σ' hr)
        fun _ f f' hf => hright.frames _ _ (M.extend hf hr)
      cases hon with
      | none => exact .none
      | some h => exact .some fun f f' g g' hf hg => h.extended (M.extend hg (M.extend hf hr))
    | _ =>
      simp only [source]
      exact .error _ _
  unmatched := by
    cases shaped with
    | table t => exact M.single tame none
    | @select s s' h =>
      have singles : ∀ q : Select Expr, nullFrame (some (.select q)) = [(q.rel, none)] := fun _ => rfl
      rw [singles, singles, ← h.rel]
      exact M.single h.shared none
    | setOp rel kind hs ht => exact M.single tame none
    | join kind hl hr hon =>
      have append : ∀ a b on, nullFrame (some (.join kind a b on))
          = nullFrame (some a) ++ nullFrame (some b) := by
        intro a b on
        simp [nullFrame, Expr.declares]
      rw [append, append]
      exact M.append hl.unmatched hr.unmatched
    | _ => exact M.nil
  aggregates := by
    refine shaped.aggregates fun p p' h => ?_
    cases h with
    | expr h => exact h.aggregates
    | select h => exact h.aggregates
    | projection h => exact projections _ _ h
  unnumbered := by
    rintro orders rfl
    cases shaped
    exact tame.elim

variable (M tables) in
structure ObjectFollows (e e' : Expr) : Prop extends M.ExprFollows tables e e' where
  objects : ∀ r r' : Frame, M.rows r r' →
    FollowsRun (client tables e ⟨r, none, none⟩) (client tables e' ⟨r', none, none⟩)

variable (M tables) in
structure ProjectionFollows (p p' : Projection Expr) : Prop where
  aggregates : (Part.projection p).aggregates = (Part.projection p').aggregates
  objects : ∀ r r' : Frame, M.rows r r' →
    FollowsRun (project tables p ⟨r, none, none⟩) (project tables p' ⟨r', none, none⟩)

/-- Other expressions than columns, whose parts follow one another. -/
theorem ObjectFollows.of_shaped (tame : Part.Tame M.shared R (.expr e))
    (unjoined : Part.Unjoined (.expr e)) (noColumn : ∀ c, e ≠ .column c)
    (shaped : e.Shaped (M.ObjectFollows tables) (M.SelectFollows tables)
      (M.ProjectionFollows tables) e') : M.ObjectFollows tables e e' := by
  have follows : M.ExprFollows tables e e' := .of_shaped tame
    (shaped.imp (fun _ _ _ h => h.toExprFollows) (fun _ _ _ h => h) fun _ _ _ h => h)
    (fun _ _ h => h.aggregates) fun c hc => absurd hc (noColumn c)
  refine ⟨follows, fun r r' hr => ?_⟩
  refine client_follows shaped (follows.extended hr) (fun _ _ h => h.extended hr)
    (fun _ _ h => h.objects r r' hr) (fun _ _ h => h.objects r r' hr) ?_
  rintro p outer inner rfl
  exact unjoined.elim

/-- Columns that are read alike. -/
theorem ObjectFollows.of_column {c c' : Column} (value : ∀ σ σ' : Scope, M.rows σ.rows σ'.rows →
    Follows Eq (scalar tables (.column c) σ) (scalar tables (.column c') σ')) :
    M.ObjectFollows tables (.column c) (.column c') := by
  have plain : ∀ c : Column, (Part.expr (.column c)).aggregates = false := fun _ => by
    simp [Part.aggregates_eq, Part.isAggregate, Part.parts]
  refine ⟨⟨fun σ σ' hr _ => value σ σ' hr, fun σ σ' _ => ?_, M.nil, by rw [plain, plain], by simp⟩,
    fun r r' hr => ?_⟩
  · simp only [source]
    exact .error _ _
  · rw [client_value rfl, client_value rfl]
    exact (FollowsRun.lift (value _ _ hr)).bind fun _ => .refl _

theorem ProjectionFollows.of_shaped {p p' : Projection Expr}
    (shaped : p.Shaped (M.ObjectFollows tables) (M.SelectFollows tables) p') :
    M.ProjectionFollows tables p p' := by
  refine ⟨shaped.aggregates fun q q' h => ?_, fun r r' hr => ?_⟩
  · cases h with
    | expr h => exact h.aggregates
    | select h => exact h.aggregates
    | projection h => exact h.elim
  · refine project_follows shaped.select.rel shaped.pick (shaped.select.rows _ _ hr).forall₂_eq ?_
    rintro row _ rfl
    exact shaped.projector.objects _ _ (M.extend (M.single shaped.select.shared (some row)) hr)

def agreeing (A : Alias → Prop) : Correspondence where
  shared _ := True
  frame := Eq
  rows r r' := ∀ a, A a → r.lookup a = r'.lookup a
  nil := rfl
  single _ _ := rfl
  append := by
    rintro f _ g _ rfl rfl
    rfl
  extend := by
    rintro f _ r r' rfl h a ha
    rw [List.lookup_append, List.lookup_append, h a ha]

variable {A : Alias → Prop}

/-- A tree sees no more of a scope than the rows of the aliases that it reads. -/
theorem agreeing_follows {p : Part} (tame : p.Every (Part.Tame (fun _ => True) A)) :
    p.Matches ((agreeing A).ExprFollows tables) ((agreeing A).SelectFollows tables) Eq p := by
  induction tame with
  | @node p here parts ih =>
    have exprs : ∀ c c', Part.expr c ∈ p.parts → c = c' → (agreeing A).ExprFollows tables c c' := by
      rintro c _ hc rfl
      cases ih _ hc with
      | expr h => exact h
    have selects : ∀ s s', Part.select s ∈ p.parts → s = s' →
        (agreeing A).SelectFollows tables s s' := by
      rintro s _ hs rfl
      cases ih _ hs with
      | select h => exact h
    cases p with
    | expr e =>
      refine .expr (.of_shaped here ((Expr.Shaped.refl e).imp exprs selects fun _ _ _ h => h)
        (fun p p' h => h ▸ rfl) ?_)
      rintro c rfl σ σ' hr
      rw [scalar, scalar, Scope.column, Scope.column, hr c.rel here]
      exact .refl _
    | select s => exact .select (.of_shaped (.node here parts) ((Select.Shaped.refl s).imp exprs))
    | projection p => exact .projection rfl

theorem ExprFollows.of_agreeing (tables : Tables) (tame : (Part.expr e).Every (Part.Tame (fun _ => True) A)) :
    (agreeing A).ExprFollows tables e e := by
  cases agreeing_follows tame with
  | expr h => exact h

end Correspondence

def Row.Covers (C : Column → Prop) (rel : Alias) (row row' : Row) : Prop :=
  ∀ c, C c → c.rel = rel → ∀ v, row'.get? c.name = some v → row.get? c.name = some v

abbrev Frame.Covers (C : Column → Prop) : Frame → Frame → Prop :=
  List.Forall₂ fun x x' => x.1 = x'.1 ∧ Option.Rel (Row.Covers C x.1) x.2 x'.2

section Covering

variable {C : Column → Prop}

theorem Row.Covers.refl (rel : Alias) (row : Option Row) : Option.Rel (Row.Covers C rel) row row :=
  optionRel_refl_mem fun _ _ _ _ _ _ h => h

theorem Frame.Covers.refl (f : Frame) : Frame.Covers C f f :=
  List.forall₂_same.mpr fun _ _ => ⟨rfl, Row.Covers.refl _ _⟩

theorem Frame.Covers.trans {f g h : Frame} (hfg : Frame.Covers C f g) (hgh : Frame.Covers C g h) :
    Frame.Covers C f h := by
  induction hfg generalizing h with
  | nil => exact hgh
  | @cons x y _ _ head _ ih =>
    cases hgh with
    | @cons _ z _ _ head' rest' =>
      obtain ⟨a, row⟩ := x
      obtain ⟨_, row'⟩ := y
      obtain ⟨_, row''⟩ := z
      obtain ⟨rfl, covers⟩ := head
      obtain ⟨rfl, covers'⟩ := head'
      refine .cons ⟨rfl, ?_⟩ (ih rest')
      cases covers with
      | none => exact covers'
      | some covers =>
        cases covers' with
        | some covers' => exact .some fun c hc hr v hv => covers c hc hr v (covers' c hc hr v hv)

theorem Frame.Covers.lookup {r r' : Frame} (h : Frame.Covers C r r') (a : Alias) :
    Option.Rel (Option.Rel (Row.Covers C a)) (r.lookup a) (r'.lookup a) := by
  induction h with
  | nil => exact .none
  | @cons x x' _ _ head _ ih =>
    obtain ⟨b, row⟩ := x
    obtain ⟨b', row'⟩ := x'
    obtain ⟨rfl, covers⟩ := head
    rw [List.lookup_cons, List.lookup_cons]
    by_cases hab : a = b
    · subst hab
      simp only [beq_self_eq_true]
      exact .some covers
    · simpa [beq_false_of_ne hab] using ih

namespace Correspondence

def covering (C : Column → Prop) : Correspondence where
  shared _ := True
  frame := Frame.Covers C
  rows := Frame.Covers C
  nil := .nil
  single _ _ := Frame.Covers.refl _
  append hf hg := List.rel_append hf hg
  extend hf hr := List.rel_append (List.rel_reverse hf) hr

variable {tables : Tables}

theorem covering_column {c : Column} (hc : C c) {σ σ' : Scope}
    (h : (covering C).rows σ.rows σ'.rows) :
    Follows Eq (scalar tables (.column c) σ) (scalar tables (.column c) σ') := by
  rw [scalar, scalar, Scope.column, Scope.column]
  have found := Frame.Covers.lookup h c.rel
  generalize σ.rows.lookup c.rel = x, σ'.rows.lookup c.rel = x' at found
  cases found with
  | none => exact .error _ _
  | some found =>
    cases found with
    | none => exact .refl _
    | @some row row' covers =>
      intro v hv
      refine ⟨v, ?_, rfl⟩
      cases hr : row'.get? c.name with
      | none => simp [hr] at hv
      | some w =>
        simp only [hr] at hv
        simp only [covers c hc rfl w hr]
        exact hv

end Correspondence

end Covering

namespace Eval

theorem lifted_of_unjoined (tables : Tables) {p : Part} (unjoined : p.Every Part.Unjoined) :
    (∀ e, p = .expr e → ∀ σ, Lifted (client tables e σ))
    ∧ ∀ q, p = .projection q → ∀ σ, Lifted (project tables q σ) := by
  induction unjoined with
  | @node p here parts ih =>
    refine ⟨?_, ?_⟩
    · rintro e rfl σ
      have value : isValue e = true → Lifted (client tables e σ) := fun h => by
        rw [client_value h]
        exact (Lifted.lift _).bind fun _ => .pure _
      have part : ∀ c, Part.expr c ∈ (Part.expr e).parts → Lifted (client tables c σ) :=
        fun c hc => (ih _ hc).1 c rfl σ
      cases e with
      | clientJoin _ _ _ => exact here.elim
      | cond test a b =>
        rw [client]
        refine (Lifted.lift _).bind fun v => (Lifted.lift _).bind fun b => ?_
        split
        · exact part _ (by simp [Part.parts])
        · exact part _ (by simp [Part.parts])
      | construct name fields =>
        rw [client_construct]
        exact (Lifted.mapM fun f hf => (part _ (Expr.field_mem hf)).bind fun _ => .pure _).bind
          fun _ => .pure _
      | entity name a =>
        rw [client]
        exact part _ (by simp [Part.parts])
      | outerJoined test a =>
        rw [client]
        refine (Lifted.lift _).bind fun v => ?_
        split
        · exact .pure _
        · exact part _ (by simp [Part.parts])
      | grouping key group =>
        rw [client]
        exact (part _ (by simp [Part.parts])).bind fun _ => (part _ (by simp [Part.parts])).bind
          fun _ => .pure _
      | member a name =>
        rw [client]
        refine (part _ (by simp [Part.parts])).bind fun v => ?_
        split
        · exact .pure _
        · split
          · exact .pure _
          · exact .lift (.error _)
      | projection q =>
        rw [client]
        exact (ih _ (by simp [Part.parts])).2 q rfl σ
      | _ =>
        first
          | exact value rfl
          | rw [client] <;> first | exact (Lifted.lift _).bind fun _ => .pure _ | simp
    · rintro q rfl σ
      rw [project_eq]
      exact (Lifted.lift _).bind fun rows => (Lifted.mapM fun row _ =>
        (ih _ Projection.projector_mem).1 _ rfl _).bind fun values => .lift _

/-- A tree without client joins uses no rows of client joins. -/
theorem client_lifted {e : Expr} (unjoined : (Part.expr e).Every Part.Unjoined) (tables : Tables)
    (σ : Scope) : Lifted (client tables e σ) :=
  (lifted_of_unjoined tables unjoined).1 e rfl σ

end Eval

end ObjectQuery
