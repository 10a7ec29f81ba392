import ObjectQuery.Proofs.ApplyJoins
import ObjectQuery.Sample

/-!
Replacing applies by joins does not change what a query answers. Where the rewritten tree is executed
with success, so is the tree it was made from, with the same result: the rewriting may evaluate more
than the tree it starts from, and never less.
-/

namespace ObjectQuery

open Eval

section Rewriting

variable {tables : Tables} {C : Column → Prop}

structure Select.Kept (tables : Tables) (C : Column → Prop) (s s' : Select Expr) : Prop where
  rel : s'.rel = s.rel
  names : s'.columnNames = s.columnNames
  sources : s'.sourceAliases = s.sourceAliases
  typed : ∀ σ σ' : Scope, Frame.Covers C σ.rows σ'.rows → s.OrdersByTypeIn tables σ →
    s'.OrdersByTypeIn tables σ'
  filter : ∀ D R : Alias → Prop, (∀ a, D a → R a) →
    (∀ e ∈ s.filter, (Part.expr e).Every (Part.Tame D R)) →
    ∀ e ∈ s'.filter, (Part.expr e).Every (Part.Tame D R)
  tame : ∀ D R : Alias → Prop, (∀ a, D a → R a) → (Part.select s).Every (Part.Tame D R) →
    (Part.select s').Every (Part.Tame D R)

structure Downgraded (tables : Tables) (C : Column → Prop) (e e' : Expr) : Prop where
  follows : (Correspondence.covering C).ExprFollows tables e e'
  objects : ∀ r r' : Frame, Frame.Covers C r r' →
    FollowsRun (client tables e ⟨r, none, none⟩) (client tables e' ⟨r', none, none⟩)
  declares : e'.declares = e.declares
  tame : ∀ D R : Alias → Prop, (∀ a, D a → R a) → (Part.expr e).Every (Part.Tame D R) →
    (Part.expr e').Every (Part.Tame D R)
  select : ∀ s', e' = .select s' → ∃ s, e = .select s ∧ s.Kept tables C s'
  table : ∀ t, e' = .table t → e = .table t

structure DowngradedSelect (tables : Tables) (C : Column → Prop) (s s' : Select Expr) : Prop where
  follows : (Correspondence.covering C).SelectFollows tables s s'
  kept : s.Kept tables C s'

structure DowngradedProjection (tables : Tables) (C : Column → Prop) (p p' : Projection Expr) :
    Prop where
  rel : p.select.rel = p'.select.rel
  pick : p.pick = p'.pick
  aggregates : (Part.projection p).aggregates = (Part.projection p').aggregates
  tame : ∀ D R : Alias → Prop, (∀ a, D a → R a) → (Part.projection p).Every (Part.Tame D R) →
    (Part.projection p').Every (Part.Tame D R)
  objects : ∀ r r' : Frame, Frame.Covers C r r' →
    FollowsRun (project tables p ⟨r, none, none⟩) (project tables p' ⟨r', none, none⟩)
  joined : ∀ inner inner', List.Forall₂ (Downgraded tables C) inner inner' →
    FollowsRun (joinedRows tables p inner) (joinedRows tables p' inner')

/-- What a tree has to observe so that its applies can be replaced: column names are apart, no select
reads itself, columns that are read are there, an apply has no condition, and keys compare. -/
def Part.Sound (tables : Tables) (C : Column → Prop) : Part → Prop
  | .expr (.join kind _ _ on) => kind.isApply = true → on = none
  | .select s => s.columnNames.Nodup ∧ s.rel ∉ (Part.select s).referenced
    ∧ (∀ c, C c → c.rel = s.rel → c.name ∈ s.columnNames) ∧ ∀ σ, s.OrdersByTypeIn tables σ
  | _ => True

variable {D R : Alias → Prop}

/-- Keys that compare go on to compare. -/
theorem typed_of_shaped {s s' : Select Expr} (shaped : s.Shaped (Downgraded tables C) s') {σ σ' : Scope}
    (hr : Frame.Covers C σ.rows σ'.rows) (typed : s.OrdersByTypeIn tables σ) :
    s'.OrdersByTypeIn tables σ' := by
  intro frames' hframes' o' ho'
  have sources : Follows (List.Forall₂ (Frame.Covers C)) (Eval.frames tables s σ)
      (Eval.frames tables s' σ') := by
    have hsource := shaped.source
    rw [Eval.frames, Eval.frames]
    generalize s.source = source, s'.source = source' at hsource
    cases hsource with
    | none => exact .pure (.cons .nil .nil)
    | some h => exact h.follows.frames σ σ' hr
  obtain ⟨frames, hframes, same⟩ := sources frames' hframes'
  obtain ⟨o, ho, -, hd⟩ := exists_of_forall₂_right shaped.orderBy o' ho'
  obtain ⟨type, admits⟩ := typed frames hframes o ho
  refine ⟨type, fun f' hf' => ?_⟩
  obtain ⟨f, hf, covers⟩ := exists_of_forall₂_right same f' hf'
  have key : Follows Eq (scalar tables o.expr (σ.extend f)) (scalar tables o'.expr (σ'.extend f')) :=
    hd.follows.extended ((Correspondence.covering C).extend covers hr)
  cases h' : scalar tables o'.expr (σ'.extend f') with
  | error e =>
    rw [valueIn, h']
    exact trivial
  | ok v =>
    have := admits f hf
    rw [valueIn, key.eq_ok h'] at this
    rw [valueIn, h']
    exact this

/-- A select over rewritten clauses. -/
theorem DowngradedSelect.of_shaped {s s' : Select Expr}
    (tame : (Part.select s).Every (Part.Tame (fun _ => True) fun _ => True))
    (shaped : s.Shaped (Downgraded tables C) s') : DowngradedSelect tables C s s' where
  follows := .of_shaped (R := fun _ => True) tame (shaped.imp fun _ _ _ h => h.follows)
  kept := by
    refine ⟨shaped.rel.symm, ?_, ?_, ?_, ?_, ?_⟩
    · rw [Select.columnNames, Select.columnNames, ← List.forall₂_eq_eq_eq, List.forall₂_map_left_iff,
        List.forall₂_map_right_iff]
      exact shaped.columns.flip.imp fun _ _ h => h.1.symm
    · have hsource := shaped.source
      rw [Select.sourceAliases, Select.sourceAliases]
      generalize s.source = source, s'.source = source' at hsource
      cases hsource with
      | none => rfl
      | some h => exact h.declares
    · exact fun σ σ' hr typed => typed_of_shaped shaped hr typed
    · intro D R sub h e' he'
      have hfilter := shaped.filter
      rw [show s'.filter = some e' from he'] at hfilter
      generalize hs : s.filter = filter at hfilter
      cases hfilter with
      | some hfilter => exact hfilter.tame D R sub (h _ hs)
    · intro D R sub h
      have shaped' : s.Shaped (fun c c' => Downgraded tables C c c'
          ∧ (Part.expr c).Every (Part.Tame D R)) s' :=
        shaped.imp fun c c' hc hd => ⟨hd, h.part hc⟩
      exact .of_matches
        (shaped.tame h.here fun _ _ h => h.follows.aggregates) shaped'.parts
        (fun _ _ h => h.1.tame D R sub h.2) (fun _ _ h => h.elim) fun _ _ h => h.elim

/-- An expression over rewritten parts. -/
theorem Downgraded.of_shaped {e e' : Expr}
    (tame : (Part.expr e).Every (Part.Tame (fun _ => True) fun _ => True))
    (sound : ∀ c, e = .column c → C c)
    (shaped : e.Shaped (Downgraded tables C) (DowngradedSelect tables C)
      (DowngradedProjection tables C) e') : Downgraded tables C e e' := by
  have follows : (Correspondence.covering C).ExprFollows tables e e' := by
    refine .of_shaped (R := fun _ => True) tame.here (shaped.imp (fun _ _ _ h => h.follows)
      (fun _ _ _ h => h.follows) fun _ _ _ h => h) (fun _ _ h => h.aggregates) ?_
    rintro c rfl σ σ' hr
    cases shaped
    exact Correspondence.covering_column (sound c rfl) hr
  refine ⟨follows, fun r r' hr => ?_, ?_, fun D R sub h => ?_, ?_, ?_⟩
  · exact client_follows shaped (follows.extended hr) (fun _ _ h => h.follows.extended hr)
      (fun _ _ h => h.objects r r' hr) (fun _ _ h => h.objects r r' hr)
      fun p outer inner _ p' inner' h hinner => ⟨h.rel, h.pick, h.joined inner inner' hinner⟩
  · cases shaped with
    | select h => simp only [Expr.declares, h.kept.rel]
    | join _ hl hr _ => simp only [Expr.declares, hl.declares, hr.declares]
    | _ => rfl
  · have shaped' : e.Shaped (fun c c' => Downgraded tables C c c'
          ∧ (Part.expr c).Every (Part.Tame D R))
        (fun s s' => DowngradedSelect tables C s s' ∧ (Part.select s).Every (Part.Tame D R))
        (fun p p' => DowngradedProjection tables C p p'
          ∧ (Part.projection p).Every (Part.Tame D R)) e' :=
      shaped.imp (fun _ _ hc hd => ⟨hd, h.part hc⟩) (fun _ _ hc hd => ⟨hd, h.part hc⟩)
        fun _ _ hc hd => ⟨hd, h.part hc⟩
    exact .of_matches (shaped.tame h.here fun _ _ h => h.follows.aggregates) shaped'.parts
      (fun _ _ h => h.1.tame D R sub h.2) (fun _ _ h => h.1.kept.tame D R sub h.2)
      fun _ _ h => h.1.tame D R sub h.2
  · rintro s' rfl
    cases shaped with
    | select h => exact ⟨_, rfl, h.kept⟩
  · rintro t rfl
    cases shaped
    rfl

/-- A projection over rewritten parts. -/
theorem DowngradedProjection.of_shaped {p p' : Projection Expr}
    (shaped : p.Shaped (Downgraded tables C) (DowngradedSelect tables C) p') :
    DowngradedProjection tables C p p' := by
  have rel : p.select.rel = p'.select.rel := shaped.select.kept.rel.symm
  refine ⟨rel, shaped.pick, ?_, fun D R sub h => ?_, fun r r' hr => ?_, fun inner inner' h => ?_⟩
  · refine shaped.aggregates fun q q' h => ?_
    cases h with
    | expr h => exact h.follows.aggregates
    | select h => exact h.follows.aggregates
    | projection h => exact h.elim
  · have projector := shaped.projector.tame D R sub (h.part Projection.projector_mem)
    have select := shaped.select.kept.tame D R sub (h.part Projection.select_mem)
    refine .node trivial fun q hq => ?_
    simp only [Part.parts, List.mem_cons, List.not_mem_nil, or_false] at hq
    rcases hq with rfl | rfl
    · exact select
    · exact projector
  · refine project_follows rel shaped.pick (Follows.forall₂_eq (shaped.select.follows.rows _ _ hr)) ?_
    rintro row _ rfl
    exact shaped.projector.objects _ _ (.cons ⟨rfl, Row.Covers.refl _ _⟩ hr)
  · have root : ∀ row : Row, Frame.Covers C [(p.select.rel, some row)] [(p.select.rel, some row)] :=
      fun _ => Frame.Covers.refl _
    refine joinedRows_follows rel (Follows.forall₂_eq (shaped.select.follows.rows .root .root .nil)) ?_ ?_
    · rintro row _ rfl
      exact h.imp fun k k' hk => hk.follows.extended (root row)
    · rintro row _ rfl
      exact shaped.projector.objects _ _ (root row)

/-- What the filter of a select declares is apart from its source and the select itself. -/
theorem Select.filter_apart {s : Select Expr} (h : (Part.select s).declared.Nodup) {e : Expr}
    (he : e ∈ s.filter) :
    ∀ a ∈ (Part.expr e).declared, a ∉ s.sourceAliases ∧ a ≠ s.rel := by
  intro a ha
  rw [Part.declared, Part.gather_eq] at h
  refine ⟨fun inside => ?_, ?_⟩
  · have h := (List.nodup_append.mp h).2.1
    rw [Part.parts, Select.exprs, show s.filter = some e from he] at h
    cases hs : s.source with
    | none => simp [Select.sourceAliases, hs] at inside
    | some source =>
      rw [Select.sourceAliases, hs] at inside
      have inside : a ∈ (Part.expr source).declared := Part.declares_subset_declared source inside
      simp only [hs, Option.toList_some, List.cons_append, List.nil_append, List.map_cons,
        List.flatMap_cons, List.nodup_append] at h
      exact h.2.2 a inside a (List.mem_append_left _ ha) rfl
  · rintro rfl
    refine (List.nodup_append.mp h).2.2 s.rel (by simp) s.rel ?_ rfl
    exact List.mem_flatMap.mpr ⟨_, Select.filter_mem he, ha⟩

/-- What the two sides of a join declare is apart. -/
theorem join_apart {kind : JoinKind} {left right : Expr} {on : Option Expr}
    (h : (Part.expr (.join kind left right on)).declared.Nodup) :
    ∀ a ∈ (Part.expr right).declared, a ∉ left.declares := by
  intro a ha inside
  rw [Part.declared, Part.gather_eq] at h
  simp only [Part.parts, List.flatMap_cons, List.nil_append, List.nodup_append] at h
  exact h.2.2 a (Part.declares_subset_declared left inside) a (List.mem_append_left _ ha) rfl

/-- A join that is followed by the join in place of it. -/
theorem Downgraded.replace {e e₁ left right : Expr} {kind : JoinKind} {on : Option Expr}
    (h : Downgraded tables C e e₁)
    (frames : ∀ σ σ' : Scope, Frame.Covers C σ.rows σ'.rows → Follows (List.Forall₂ (Frame.Covers C))
      (source tables e₁ σ') (source tables (.join kind left right on) σ'))
    (declares : (Expr.join kind left right on).declares = e₁.declares)
    (aggregates : (Part.expr e₁).aggregates = (Part.expr (.join kind left right on)).aggregates)
    (tame : ∀ D R : Alias → Prop, (∀ a, D a → R a) → (Part.expr e).Every (Part.Tame D R) →
      (Part.expr (.join kind left right on)).Every (Part.Tame D R)) :
    Downgraded tables C e (.join kind left right on) := by
  have declares := declares.trans h.declares
  refine ⟨⟨fun σ σ' _ _ => ?_, fun σ σ' hr => ?_, ?_, h.follows.aggregates.trans aggregates, by simp⟩,
    fun r r' _ s => ?_, declares, tame, by simp, by simp⟩
  · intro v hv
    simp [scalar] at hv
  · refine ((h.follows.frames σ σ' hr).trans (frames σ σ' hr)).mono fun fs fs' => ?_
    rintro ⟨mid, first, second⟩
    exact forall₂_trans (S := Frame.Covers C) (fun _ _ _ hfg hgh => hfg.trans hgh) first second
  · rw [nullFrame, nullFrame, Option.map_some, Option.map_some, declares]
    exact Frame.Covers.refl _
  · intro v hv
    simp [client, scalar] at hv

/-- A table is the same wherever it is applied. -/
theorem appliedTable_follows {kind kind' : JoinKind} (apply : kind.isApply = true)
    (shared : kind'.isApply = false)
    (outer : (kind == .leftOuter || kind == .outerApply) = (kind' == .leftOuter || kind' == .outerApply))
    {on : Option Expr} (always : ∀ scope, meets tables on scope = .ok true) (left : Expr) (t : Table)
    (σ : Scope) :
    Follows Eq (source tables (.join kind left (.table t) none) σ)
      (source tables (.join kind' left (.table t) on) σ) := by
  have fixed : ∀ σ', source tables (.table t) σ' = source tables (.table t) σ := by
    intro σ'
    rw [source, source]
  have never : ∀ scope, meets tables none scope = .ok true := fun _ => rfl
  have same : ∀ frame rights, joinFrame tables kind (.table t) none σ frame rights
      = joinFrame tables kind' (.table t) on σ frame rights := by
    intro frame rights
    simp only [joinFrame, never, always, outer]
  rw [source_apply apply, source_join shared]
  intro out hout
  obtain ⟨lefts, hlefts, hout⟩ := bind_eq_ok.mp hout
  obtain ⟨rights, hrights, hout⟩ := bind_eq_ok.mp hout
  refine ⟨out, ?_, rfl⟩
  simp only [hlefts, ok_bind, fixed, hrights, same]
  exact hout

/-- The join that stands for an apply of a table. -/
theorem Downgraded.replace_table {e left : Expr} {t : Table} {kind kind' : JoinKind}
    {on : Option Expr} (h : Downgraded tables C e (.join kind left (.table t) none))
    (apply : kind.isApply = true) (shared : kind'.isApply = false)
    (outer : (kind == .leftOuter || kind == .outerApply) = (kind' == .leftOuter || kind' == .outerApply))
    (always : ∀ c ∈ on, c = Applies.always) :
    Downgraded tables C e (.join kind' left (.table t) on) := by
  have meets_always : ∀ scope, meets tables on scope = .ok true := by
    intro scope
    cases on with
    | none => rfl
    | some c =>
      rw [always c rfl, meets, Applies.scalar_always]
      rfl
  refine h.replace (fun _ σ' _ => (appliedTable_follows apply shared outer meets_always left t σ').mono ?_)
    rfl ?_ fun D R sub tame => ?_
  · rintro frames _ rfl
    exact List.forall₂_same.mpr fun f _ => Frame.Covers.refl f
  · rw [Applies.aggregates_join (by simp), Applies.aggregates_join]
    intro c hc
    rw [always c hc]
    exact Applies.aggregates_always
  · have before := h.tame D R sub tame
    refine .node trivial fun q hq => ?_
    simp only [Part.parts, List.mem_cons, List.mem_map, Option.mem_toList] at hq
    rcases hq with rfl | rfl | ⟨c, hc, rfl⟩
    · exact before.part (by simp [Part.parts])
    · exact before.part (by simp [Part.parts])
    · rw [always c hc]
      exact Applies.tame_always

/-- An apply of a select that was rewritten itself. -/
theorem Select.Kept.suits {s s' : Select Expr} {left left' : Expr} {kind : JoinKind}
    {on : Option Expr} (kept : s.Kept tables C s') (declares : left'.declares = left.declares)
    (every : (Part.select s).Every fun p =>
      Part.Tame (fun _ => True) (fun _ => True) p ∧ Part.Sound tables C p)
    (nodup : (Part.expr (.join kind left (.select s) on)).declared.Nodup) :
    Applies.Suits tables C (fun a => ∃ e ∈ s.filter, a ∈ (Part.expr e).declared)
      (fun a => ∃ e ∈ s.filter, a ∈ (Part.expr e).declared ∨ ∃ c ∈ (Part.expr e).columnRefs, c.rel = a)
      left' s' := by
  obtain ⟨names, unread, offered, -⟩ := every.here.2
  have tame := every.mono fun _ h => h.1
  have inside : Part.select s ∈ (Part.expr (.select s)).parts := by simp [Part.parts]
  have right : Part.expr (.select s) ∈ (Part.expr (.join kind left (.select s) on)).parts := by
    simp [Part.parts]
  have apart : ∀ a ∈ (Part.select s).declared, a ∉ left'.declares := by
    intro a ha
    rw [declares]
    exact join_apart nodup a (Part.declared_subset inside ha)
  have nodup : (Part.select s).declared.Nodup :=
    nodup.sublist ((Part.declared_sublist inside).trans (Part.declared_sublist right))
  refine ⟨kept.tame _ _ (fun _ _ => trivial) tame, kept.names ▸ names, ?_, ?_, ?_, ?_, ?_⟩
  · rw [kept.rel, kept.names]
    exact offered
  · rw [kept.sources]
    exact fun a ha => apart a (Part.sourceAliases_subset_declared s ha)
  · refine kept.filter _ _ (fun a ⟨e, he, ha⟩ => ⟨e, he, .inl ha⟩) fun e he => ?_
    exact (tame.part (Select.filter_mem he)).names (fun a ha => ⟨e, he, ha⟩)
      fun c hc => ⟨e, he, .inr ⟨c, hc, rfl⟩⟩
  · rintro a ⟨e, he, ha⟩
    rw [kept.sources, kept.rel]
    exact ⟨Select.filter_apart nodup he a ha,
      apart a (Part.declared_subset (Select.filter_mem he) ha)⟩
  · rw [kept.rel]
    rintro a ⟨e, he, ha | ⟨c, hc, rfl⟩⟩
    · exact (Select.filter_apart nodup he a ha).2
    · rintro same
      refine unread ?_
      rw [Part.referenced, List.mem_eraseDups, ← same]
      exact List.mem_map_of_mem (Part.columnRefs_subset (Select.filter_mem he) hc)

/-- Joins over rewritten parts, with a join in place of an apply where there is one. -/
theorem Downgraded.of_join (affinity : Affinity) {kind : JoinKind} {left right : Expr}
    {on : Option Expr} {e' : Expr}
    (every : (Part.expr (.join kind left right on)).Every fun p =>
      Part.Tame (fun _ => True) (fun _ => True) p ∧ Part.Sound tables C p)
    (nodup : (Part.expr (.join kind left right on)).declared.Nodup)
    (shaped : (Expr.join kind left right on).Shaped (Downgraded tables C)
      (DowngradedSelect tables C) (DowngradedProjection tables C) e') :
    Downgraded tables C (.join kind left right on) (Applies.finish affinity e') := by
  have same : Downgraded tables C (.join kind left right on) e' :=
    .of_shaped (every.mono fun _ h => h.1) (by simp) shaped
  cases shaped with
  | @join _ left' _ right' _ on' _ hleft hright hon =>
    rw [Applies.finish]
    split
    · rename_i apply
      have bare : on = none := every.here.2 apply
      subst bare
      cases hon
      cases found : Applies.downgrade? affinity kind left' right' with
      | none => exact same
      | some joined =>
        cases right' with
        | table t =>
          rw [Option.getD_some, ← Option.some.inj found]
          cases kind with
          | cross | inner | leftOuter => cases apply
          | crossApply => exact same.replace_table rfl rfl rfl (by simp)
          | outerApply => exact same.replace_table rfl rfl rfl (by simp)
        | select s' =>
          obtain ⟨s, rfl, kept⟩ := hright.select s' rfl
          have hs : Part.expr (.select s) ∈ (Part.expr (.join kind left (.select s) none)).parts := by
            simp [Part.parts]
          have every := (every.part hs).part (q := .select s) (by simp [Part.parts])
          obtain ⟨kind', added, on', rfl, stands⟩ :=
            Applies.joinSelect_cases (kept.suits hleft.declares every nodup) apply found
          obtain ⟨-, -, offered, typed⟩ := every.here.2
          refine same.replace (fun σ σ' hr => ?_) rfl stands.aggregates fun D R sub tame => ?_
          · exact stands.follows apply (kept.typed σ σ' hr (typed σ)) (by rwa [kept.rel, kept.names])
          · have select := (tame.part hs).part (q := .select s) (by simp [Part.parts])
            refine stands.tame (fun a ⟨e, he, ha⟩ => ?_) (fun a ⟨e, he, ha⟩ => ?_) sub
              (same.tame D R sub tame)
            · exact (select.part (Select.filter_mem he)).declared a ha
            · rcases ha with ha | ⟨c, hc, rfl⟩
              · exact sub a ((select.part (Select.filter_mem he)).declared a ha)
              · exact (select.part (Select.filter_mem he)).reads c hc
        | _ => cases found
    · exact same

/-- An expression over rewritten parts, finished. -/
theorem Downgraded.finish (affinity : Affinity) {e e' : Expr}
    (every : (Part.expr e).Every fun p =>
      Part.Tame (fun _ => True) (fun _ => True) p ∧ Part.Sound tables C p)
    (nodup : (Part.expr e).declared.Nodup) (reads : ∀ c ∈ (Part.expr e).columnRefs, C c)
    (shaped : e.Shaped (Downgraded tables C) (DowngradedSelect tables C)
      (DowngradedProjection tables C) e') :
    Downgraded tables C e (Applies.finish affinity e') := by
  by_cases join : ∃ kind left right on, e = .join kind left right on
  · obtain ⟨kind, left, right, on, rfl⟩ := join
    exact .of_join affinity every nodup shaped
  · have kept : Applies.finish affinity e' = e' := by
      cases shaped with
      | join => exact absurd ⟨_, _, _, _, rfl⟩ join
      | _ => rfl
    rw [kept]
    refine .of_shaped (every.mono fun _ h => h.1) ?_ shaped
    rintro c rfl
    exact reads c (Part.mem_gather.mpr (.inl (by simp)))

abbrev Applies.finishing (affinity : Affinity) : Finish Id :=
  ⟨fun e => pure (Applies.finish affinity e), pure⟩

/-- What the rewriting makes of a tree. -/
theorem Part.Every.downgraded (affinity : Affinity) {p : Part}
    (every : p.Every fun p => Tame (fun _ => True) (fun _ => True) p ∧ Sound tables C p)
    (nodup : p.declared.Nodup) (reads : ∀ c ∈ p.columnRefs, C c) :
    (∀ e, p = .expr e → Downgraded tables C e (e.bottomUp (Applies.finishing affinity)))
    ∧ (∀ s, p = .select s → DowngradedSelect tables C s (s.bottomUp (Applies.finishing affinity)))
    ∧ ∀ q, p = .projection q →
      DowngradedProjection tables C q (q.bottomUp (Applies.finishing affinity)) := by
  induction every with
  | @node p here parts ih =>
    have every := Every.node here parts
    have ih := fun q hq => ih q hq (nodup.sublist (declared_sublist hq))
      fun c hc => reads c (columnRefs_subset hq hc)
    refine ⟨?_, ?_, ?_⟩
    · rintro e rfl
      rw [Expr.bottomUp]
      exact .finish affinity every nodup reads (Yields.makes_ofId.mp (Expr.traverse_makes
        (Y := Yields.ofId) (G := Growth.still) e
        (fun c hc => Yields.makes_ofId.mpr ((ih _ hc).1 c rfl))
        (fun s hs => Yields.makes_ofId.mpr ((ih _ hs).2.1 s rfl))
        fun q hq => Yields.makes_ofId.mpr ((ih _ hq).2.2 q rfl)))
    · rintro s rfl
      rw [Select.bottomUp]
      exact .of_shaped (every.mono fun _ h => h.1) (Yields.makes_ofId.mp (Select.traverse_makes
        (Y := Yields.ofId) (G := Growth.still) s
        fun c hc => Yields.makes_ofId.mpr ((ih _ hc).1 c rfl)))
    · rintro q rfl
      rw [Projection.bottomUp]
      exact .of_shaped (Yields.makes_ofId.mp (Projection.traverse_makes (Y := Yields.ofId)
        (G := Growth.still) q (fun c hc => Yields.makes_ofId.mpr ((ih _ hc).1 c rfl))
        fun s hs => Yields.makes_ofId.mpr ((ih _ hs).2.1 s rfl)))

structure Expr.Regular (tables : Tables) (e : Expr) : Prop where
  tame : (Part.expr e).Every (Part.Tame (fun _ => True) fun _ => True)
  apart : (Part.expr e).declared.Nodup
  sound : (Part.expr e).Every (Part.Sound tables (· ∈ (Part.expr e).columnRefs))

/-- Where the tree with joins for its applies is executed, so is the tree itself, with the same
result: the same rows in the same order, those of unmatched left rows among them. -/
theorem Expr.execute_of_downgradeApplies (affinity : Affinity) {e : Expr} (regular : e.Regular tables)
    {v : ClientValue} (h : (e.downgradeApplies affinity).execute tables = .ok v) :
    e.execute tables = .ok v := by
  obtain ⟨-, joined, run⟩ := Expr.execute_eq_ok.mp h
  have downgraded : Downgraded tables (· ∈ (Part.expr e).columnRefs) e (e.downgradeApplies affinity) :=
    ((regular.tame.and regular.sound).downgraded affinity regular.apart fun _ hc => hc).1 e rfl
  refine Expr.execute_eq_ok.mpr ⟨?_, joined, (downgraded.objects [] [] .nil []).eq_ok run⟩
  rintro c rfl
  exact regular.tame.here

end Rewriting

namespace Sample

def reports : Select Expr :=
  { rel := ⟨3⟩, columns := [⟨"Name", .column ⟨⟨2⟩, "Name", .text⟩, .text⟩]
    source := some (.table ⟨⟨2⟩, "Employee", "Staff"⟩)
    filter := some (.equals (.column ⟨⟨2⟩, "boss_id", .int⟩) (.column ⟨⟨1⟩, "ID", .int⟩))
    orderBy := [⟨.descending, .column ⟨⟨2⟩, "Name", .text⟩⟩]
    groupBy := [], distinct := false, skip := none, take := none, reversed := false }

def bossesWithReports : Select Expr :=
  { rel := ⟨4⟩
    columns := [⟨"Boss", .column ⟨⟨1⟩, "Name", .text⟩, .text⟩,
      ⟨"Name", .column ⟨⟨3⟩, "Name", .text⟩, .text⟩]
    source := some (.join .outerApply (.table ⟨⟨1⟩, "Employee", "Staff"⟩) (.select reports) none)
    filter := none, orderBy := [], groupBy := [], distinct := false, skip := none, take := none
    reversed := false }

def teams : Expr :=
  .projection ⟨bossesWithReports, .construct none [⟨"Boss", .column ⟨⟨4⟩, "Boss", .text⟩⟩,
    ⟨"Name", .column ⟨⟨4⟩, "Name", .text⟩⟩], none⟩

theorem ordered_reports (σ : Scope) : reports.OrdersByTypeIn tables σ := by
  intro frames h o ho
  have h : source tables (.table ⟨⟨2⟩, "Employee", "Staff"⟩) σ = .ok frames := h
  rw [source] at h
  have rows : staff.map (fun row => [((⟨2⟩ : Alias), some row)]) = frames := Except.ok.inj h
  refine ⟨.text, fun f hf => ?_⟩
  rw [← rows] at hf
  obtain ⟨row, hrow, rfl⟩ := List.mem_map.mp hf
  rw [List.mem_singleton.mp ho, valueIn, scalar]
  have typed : ∀ row ∈ staff, KeyType.text.admits
      (((Scope.root.extend [(⟨2⟩, some row)]).column ⟨⟨2⟩, "Name", .text⟩).toOption.getD .null) := by
    decide
  exact typed row hrow

theorem regular_teams : teams.Regular tables where
  tame := by
    simp [teams, bossesWithReports, reports, Part.every_iff (p := .expr _),
      Part.every_iff (p := .select _), Part.every_iff (p := .projection _), Part.parts, Part.Tame,
      Select.exprs, Expr.equals]
  apart := by decide +kernel
  sound := by
    have offered : ∀ s ∈ [reports, bossesWithReports], ∀ c ∈ (Part.expr teams).columnRefs,
        c.rel = s.rel → c.name ∈ s.columnNames := by decide +kernel
    have inner : Part.Sound tables (· ∈ (Part.expr teams).columnRefs) (.select reports) :=
      ⟨by decide, by decide +kernel, offered _ (by simp), ordered_reports⟩
    have outer : Part.Sound tables (· ∈ (Part.expr teams).columnRefs) (.select bossesWithReports) :=
      ⟨by decide, by decide +kernel, offered _ (by simp), fun _ _ _ _ ho => by cases ho⟩
    generalize (fun c => c ∈ (Part.expr teams).columnRefs) = read at inner outer ⊢
    have inner : (Part.select reports).Every (Part.Sound tables read) := .node inner (by
      simp [reports, Part.parts, Select.exprs, Part.every_iff (p := .expr _), Part.Sound, Expr.equals])
    have outer : (Part.select bossesWithReports).Every (Part.Sound tables read) := .node outer (by
      simp [bossesWithReports, Part.parts, Select.exprs, Part.every_iff (p := .expr _), Part.Sound, inner])
    simp [teams, Part.parts, Part.every_iff (p := .expr _), Part.every_iff (p := .projection _),
      Part.Sound, outer]

/-- Both trees of the teams are executed, with the same result. -/
theorem execute_teams : ∃ v, teams.Regular tables
    ∧ (teams.downgradeApplies .server).execute tables = .ok v ∧ teams.execute tables = .ok v := by
  have executes : ((teams.downgradeApplies .server).execute tables).toOption.isSome = true := by
    decide +kernel
  cases h : (teams.downgradeApplies .server).execute tables with
  | error e =>
    rw [h] at executes
    cases executes
  | ok v => exact ⟨v, regular_teams, rfl, Expr.execute_of_downgradeApplies .server regular_teams h⟩

end Sample

end ObjectQuery
