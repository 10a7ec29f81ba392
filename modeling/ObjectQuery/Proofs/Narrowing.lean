import ObjectQuery.Proofs.Correspondence
import ObjectQuery.Proofs.StableSort

/-!
Evaluating a tree beside one whose selects have more columns. The rows of the first tree are those of
the second with fewer columns, so that the same is read from them as long as no column is dropped
that anything reads.
-/

namespace ObjectQuery

open Eval

variable {tables : Tables} {C : Column → Prop} {keep : String → Bool}

def Row.kept (keep : String → Bool) (row : Row) : Row := row.filter fun x => keep x.1

structure Row.Narrows (keep : String → Bool) (names : List String) (row row' : Row) : Prop where
  eq : row = row'.kept keep
  names : row'.map (·.1) = names

theorem Row.get?_kept {name : String} (h : keep name = true) (row : Row) :
    (row.kept keep).get? name = row.get? name := by
  induction row with
  | nil => rfl
  | cons x rest ih =>
    obtain ⟨n, v⟩ := x
    rw [Row.kept, List.filter_cons]
    rw [Row.kept] at ih
    split
    · rw [Row.get?, Row.get?, List.lookup_cons, List.lookup_cons]
      split
      · rfl
      · exact ih
    · have other : (name == n) = false := beq_eq_false_iff_ne.mpr fun same => by simp_all
      rw [Row.get?, Row.get?, List.lookup_cons, other]
      exact ih

theorem Row.kept_all {row : Row} (h : ∀ n, keep n = true) : row.kept keep = row := by
  simp [Row.kept, h]

namespace Row.Narrows

variable {names : List String} {row row' : Row}

theorem covers (h : Row.Narrows keep names row row') {rel : Alias}
    (reads : ∀ c, C c → c.rel = rel → keep c.name = true) : Row.Covers C rel row row' := by
  intro c hc hr v hv
  rw [h.eq, Row.get?_kept (reads c hc hr)]
  exact hv

theorem head (h : Row.Narrows keep names row row') (first : ∀ n ∈ names.head?, keep n = true) :
    row.head = row'.head := by
  obtain ⟨rfl, rfl⟩ := h
  cases row' with
  | nil => rfl
  | cons x rest =>
    have kept : keep x.1 = true := first x.1 rfl
    rw [Row.kept, List.filter_cons, if_pos kept]
    rfl

end Row.Narrows

structure Scope.Covers (C : Column → Prop) (σ σ' : Scope) : Prop where
  rows : Frame.Covers C σ.rows σ'.rows
  group : Option.Rel (List.Forall₂ (Frame.Covers C)) σ.group σ'.group

namespace Scope.Covers

variable {σ σ' τ τ' : Scope}

theorem refl (σ : Scope) : Scope.Covers C σ σ :=
  ⟨Frame.Covers.refl _, optionRel_refl_mem fun _ _ => List.forall₂_same.mpr fun _ _ =>
    Frame.Covers.refl _⟩

theorem extend (h : Scope.Covers C σ σ') {f f' : Frame} (hf : Frame.Covers C f f') :
    Scope.Covers C (σ.extend f) (σ'.extend f') :=
  ⟨List.rel_append (List.rel_reverse hf) h.rows, .none⟩

theorem bind (h : Scope.Covers C σ σ') {rel : Alias} {row row' : Row}
    (hrow : Row.Covers C rel row row') : Scope.Covers C (σ.bind rel row) (σ'.bind rel row') :=
  h.extend (.cons ⟨rfl, .some hrow⟩ .nil)

theorem inner (h : Scope.Covers C σ σ') (hτ : Inner (Frame.Covers C) σ σ' τ τ') :
    Scope.Covers C τ τ' := by
  cases hτ with
  | frame hf => exact h.extend hf
  | group hf hg => exact ⟨(h.extend hf).rows, .some hg⟩

end Scope.Covers

def Select.keeping (keep : String → Bool) (s : Select Expr) : Select Expr :=
  { s with columns := s.columns.filter fun d => keep d.name }

def Eval.Produced.kept (keep : String → Bool) (p : Produced) : Produced :=
  { p with row := p.row.kept keep }

namespace Eval

variable {s : Select Expr} {σ : Scope}

theorem distinctBy_subset {α : Type} (key : α → List Value) (items : List α) :
    distinctBy key items ⊆ items := by
  have step : ∀ kept : List α, items.foldl (fun kept a =>
      if kept.any (fun b => Value.keysEqual (key b) (key a)) then kept else kept ++ [a]) kept
      ⊆ kept ++ items := by
    induction items with
    | nil => simp
    | cons a rest ih =>
      intro kept
      refine List.Subset.trans (ih _) ?_
      dsimp only
      intro b
      split
      · simp
        tauto
      · simp
  exact step []

theorem mem_of_arrange {produced : List Produced} {row : Row} (h : row ∈ arrange s produced) :
    ∃ p ∈ produced, p.row = row := by
  have sorted : ∀ row ∈ (sortStable (fun a b => compareKeys (s.orderBy.map (·.direction)) a.keys b.keys == .lt)
      (if s.distinct then distinctBy (·.row.values) produced else produced)).map (·.row),
      ∃ p ∈ produced, p.row = row := by
    rintro row hrow
    obtain ⟨p, hp, rfl⟩ := List.mem_map.mp hrow
    have hp := (sortStable_perm _).mem_iff.mp hp
    refine ⟨p, ?_, rfl⟩
    split at hp
    · exact distinctBy_subset _ _ hp
    · exact hp
  rw [arrange] at h
  refine sorted row ?_
  split at h
  · exact List.mem_reverse.mp h
  · exact h

theorem names_of_produce {τ : Scope} {p : Produced}
    (h : produce s (fun e _ => scalar tables e) τ = .ok p) : p.row.map (·.1) = s.columnNames := by
  rw [produce_eq] at h
  obtain ⟨row, hrow, h⟩ := bind_eq_ok.mp h
  obtain ⟨keys, -, h⟩ := bind_eq_ok.mp h
  cases h
  rw [Select.columnNames, ← List.forall₂_eq_eq_eq, List.forall₂_map_left_iff,
    List.forall₂_map_right_iff]
  refine (forall₂_of_mapM hrow).flip.imp fun x d hx => ?_
  obtain ⟨v, -, hx⟩ := bind_eq_ok.mp hx
  cases hx
  rfl

theorem skipped_subset {env : Scope} {rows rows' : List Row}
    (h : skipped s (fun e _ => scalar tables e) env rows = .ok rows') : rows' ⊆ rows := by
  rw [skipped_eq] at h
  split at h
  · cases h
    exact List.Subset.refl _
  · obtain ⟨v, -, h⟩ := bind_eq_ok.mp h
    obtain ⟨n, -, h⟩ := bind_eq_ok.mp h
    cases h
    exact List.drop_subset _ _

theorem taken_subset {env : Scope} {rows rows' : List Row}
    (h : taken s (fun e _ => scalar tables e) env rows = .ok rows') : rows' ⊆ rows := by
  rw [taken_eq] at h
  split at h
  · cases h
    exact List.Subset.refl _
  · obtain ⟨v, -, h⟩ := bind_eq_ok.mp h
    obtain ⟨n, -, h⟩ := bind_eq_ok.mp h
    cases h
    exact List.take_subset _ _

/-- Every row of a select has its columns. -/
theorem names_of_select {rows : List Row} (h : select tables s σ = .ok rows) :
    ∀ row ∈ rows, row.map (·.1) = s.columnNames := by
  rw [select_eq] at h
  obtain ⟨_, -, h⟩ := bind_eq_ok.mp h
  obtain ⟨_, -, h⟩ := bind_eq_ok.mp h
  obtain ⟨_, -, h⟩ := bind_eq_ok.mp h
  obtain ⟨_, -, h⟩ := bind_eq_ok.mp h
  obtain ⟨produced, hproduced, h⟩ := bind_eq_ok.mp h
  obtain ⟨behind, hskip, htake⟩ := bind_eq_ok.mp h
  intro row hrow
  obtain ⟨p, hp, rfl⟩ := mem_of_arrange (skipped_subset hskip (taken_subset htake hrow))
  obtain ⟨τ, -, run⟩ := exists_of_forall₂_right (forall₂_of_mapM hproduced) p hp
  exact names_of_produce run

theorem arrange_kept (whole : s.distinct = true → ∀ n, keep n = true) (produced : List Produced) :
    arrange (s.keeping keep) (produced.map (·.kept keep)) = (arrange s produced).map (Row.kept keep) := by
  cases distinct : s.distinct with
  | true =>
    have same : ∀ row : Row, row.kept keep = row := fun _ => Row.kept_all (whole distinct)
    have all : produced.map (·.kept keep) = produced := by
      simp [Produced.kept, same]
    rw [all, List.map_congr_left (fun row _ => same row), List.map_id']
    rfl
  | false =>
    let less : Produced → Produced → Bool := fun a b =>
      compareKeys (s.orderBy.map (·.direction)) a.keys b.keys == .lt
    have sorted : sortStable less (produced.map (·.kept keep))
        = (sortStable less produced).map (·.kept keep) := sortStable_map _ (fun _ _ => rfl) produced
    simp only [arrange, Select.keeping, distinct, Bool.false_eq_true, if_false]
    rw [sorted]
    split <;> simp [less, Function.comp_def, Produced.kept]

theorem produce_kept (τ : Scope) :
    Follows (fun p p' => p = p'.kept keep) (produce (s.keeping keep) (fun e _ => scalar tables e) τ)
      (produce s (fun e _ => scalar tables e) τ) := by
  rw [produce_eq, produce_eq]
  refine Follows.bind (R := fun row row' : Row => row = row'.kept keep) (Follows.mapM_filter ?_) ?_
  · intro d _ x hx
    obtain ⟨v, -, hx⟩ := bind_eq_ok.mp hx
    cases hx
    rfl
  · rintro _ row rfl
    exact Follows.bind_same (Follows.refl _) fun keys => Follows.pure rfl

theorem skipped_map (f : Row → Row) (rows : List Row) :
    Follows (fun rows rows' => rows = rows'.map f)
      (skipped (s.keeping keep) (fun e _ => scalar tables e) σ (rows.map f))
      (skipped s (fun e _ => scalar tables e) σ rows) := by
  rw [skipped_eq, skipped_eq, show (s.keeping keep).skip = s.skip from rfl]
  cases s.skip with
  | none => exact Follows.pure rfl
  | some e =>
    exact Follows.bind_same (Follows.refl _) fun v => Follows.bind_same (Follows.refl _) fun n =>
      Follows.pure List.map_drop.symm

theorem taken_map (f : Row → Row) (rows : List Row) :
    Follows (fun rows rows' => rows = rows'.map f)
      (taken (s.keeping keep) (fun e _ => scalar tables e) σ (rows.map f))
      (taken s (fun e _ => scalar tables e) σ rows) := by
  rw [taken_eq, taken_eq, show (s.keeping keep).take = s.take from rfl]
  cases s.take with
  | none => exact Follows.pure rfl
  | some e =>
    exact Follows.bind_same (Follows.refl _) fun v => Follows.bind_same (Follows.refl _) fun n =>
      Follows.pure List.map_take.symm

/-- A select without some of its columns has the same rows without them. -/
theorem select_kept (whole : s.distinct = true → ∀ n, keep n = true)
    (aggregates : s.groupBy = [] → (s.keeping keep).hasAggregates = s.hasAggregates)
    (unnumbered : numbering? s = none) (unnumbered' : numbering? (s.keeping keep) = none) :
    Follows (List.Forall₂ (Row.Narrows keep s.columnNames)) (select tables (s.keeping keep) σ)
      (select tables s σ) := by
  have grouped : (!(s.keeping keep).groupBy.isEmpty || (s.keeping keep).hasAggregates)
      = (!s.groupBy.isEmpty || s.hasAggregates) := by
    change (!s.groupBy.isEmpty || _) = _
    cases h : s.groupBy with
    | nil => rw [aggregates h]
    | cons _ _ => rfl
  have rows : Follows (fun rows rows' => rows = rows'.map (Row.kept keep))
      (select tables (s.keeping keep) σ) (select tables s σ) := by
    rw [select_eq, select_eq]
    refine Follows.bind_same (Follows.refl _) fun frames => ?_
    rw [filtered_eq, filtered_eq]
    refine Follows.bind_same (Follows.refl _) fun frames => ?_
    rw [scopes_eq, scopes_eq, grouped]
    refine Follows.bind_same (Follows.refl _) fun scopes => ?_
    rw [numbered, numbered, unnumbered, unnumbered', ok_bind, ok_bind]
    refine Follows.bind (R := fun produced produced' => produced = produced'.map (·.kept keep)) ?_ ?_
    · have each : Follows (List.Forall₂ fun p p' => p = p'.kept keep)
          (scopes.mapM (produce (s.keeping keep) fun e _ => scalar tables e))
          (scopes.mapM (produce s fun e _ => scalar tables e)) :=
        Follows.mapM (R := Eq) (List.forall₂_same.mpr fun _ _ => rfl) fun τ _ _ same =>
          same ▸ produce_kept τ
      refine each.mono fun produced produced' h => ?_
      rwa [← List.forall₂_eq_eq_eq, List.forall₂_map_right_iff]
    rintro _ produced rfl
    rw [arrange_kept whole]
    refine Follows.bind (skipped_map _ _) ?_
    rintro _ rows rfl
    exact taken_map _ _
  intro rows' h
  obtain ⟨_, run, rfl⟩ := rows rows' h
  refine ⟨_, run, List.forall₂_map_left_iff.mpr (List.forall₂_same.mpr fun row hrow => ?_)⟩
  exact ⟨rfl, names_of_select h row hrow⟩

end Eval

structure Expr.Narrows (tables : Tables) (C : Column → Prop) (e e' : Expr) : Prop where
  value : ∀ σ σ' : Scope, Scope.Covers C σ σ' →
    Follows Eq (Eval.scalar tables e σ) (Eval.scalar tables e' σ')
  frames : ∀ σ σ' : Scope, Scope.Covers C σ σ' →
    Follows (List.Forall₂ (Frame.Covers C)) (source tables e σ) (source tables e' σ')
  objects : ∀ σ σ' : Scope, Scope.Covers C σ σ' →
    FollowsRun (client tables e σ) (client tables e' σ')
  declares : e.declares = e'.declares
  aggregates : (Part.expr e).aggregates = true → (Part.expr e').aggregates = true
  unnumbered : ∀ orders, e ≠ .rowNumber orders

structure Select.Narrows (tables : Tables) (C : Column → Prop) (keep : String → Bool)
    (s s' : Select Expr) : Prop where
  rel : s.rel = s'.rel
  names : s.columnNames = s'.columnNames.filter keep
  reads : ∀ c, C c → c.rel = s'.rel → keep c.name = true
  rows : ∀ σ σ' : Scope, Scope.Covers C σ σ' →
    Follows (List.Forall₂ (Row.Narrows keep s'.columnNames)) (select tables s σ) (select tables s' σ')
  aggregates : (Part.select s).aggregates = true → (Part.select s').aggregates = true

theorem Select.parts_keeping (keep : String → Bool) (s : Select Expr) :
    (Part.select (s.keeping keep)).parts ⊆ (Part.select s).parts := by
  simp only [Part.parts, Select.exprs, Select.keeping]
  refine List.map_subset _ (List.append_subset.mpr ⟨List.subset_append_left _ _, ?_⟩)
  exact List.Subset.trans (List.map_subset _ (List.filter_subset_self _))
    (List.subset_append_right _ _)

theorem Select.hasAggregates_of_keeping {s : Select Expr}
    (h : (s.keeping keep).hasAggregates = true) : s.hasAggregates = true := by
  simp only [hasAggregates, keeping, Bool.or_eq_true, List.any_eq_true] at h ⊢
  refine h.imp id ?_
  rintro ⟨d, hd, aggregates⟩
  exact ⟨d, List.mem_of_mem_filter hd, aggregates⟩

theorem nullFrame_congr {e e' : Expr} (h : e.declares = e'.declares) :
    nullFrame (some e) = nullFrame (some e') := by
  simp only [nullFrame, Option.map_some, h]

/-- Selects over clauses of which the first ones follow the second ones, without some columns. -/
theorem Select.Narrows.of_shaped {s s' : Select Expr}
    (shaped : s.Shaped (Expr.Narrows tables C) (s'.keeping keep))
    (whole : s'.distinct = true → ∀ n, keep n = true)
    (reads : ∀ c, C c → c.rel = s'.rel → keep c.name = true)
    (aggregating : s'.groupBy = [] → s'.hasAggregates = true → s.hasAggregates = true)
    (unnumbered : ∀ d ∈ s'.columns, ∀ orders, d.expr ≠ .rowNumber orders) :
    s.Narrows tables C keep s' where
  rel := shaped.rel
  names := by
    have names : s.columnNames = (s'.keeping keep).columnNames := by
      rw [columnNames, columnNames, ← List.forall₂_eq_eq_eq, List.forall₂_map_left_iff,
        List.forall₂_map_right_iff]
      exact shaped.columns.imp fun _ _ h => h.1
    rw [names, columnNames, columnNames, keeping, List.filter_map]
    rfl
  reads := reads
  aggregates h := Part.aggregates_mono (p := .select (s'.keeping keep)) rfl rfl
    (fun q hq under => ⟨q, parts_keeping keep s' hq, under⟩)
    (shaped.aggregates_mono (fun _ _ h => h.aggregates) h)
  rows := by
    intro σ σ' hσ
    have more := shaped.hasAggregates_mono fun _ _ h => h.aggregates
    have unnumbered₁ : numbering? s = none := Correspondence.numbering?_eq_none fun d hd => by
      obtain ⟨d', -, h⟩ := exists_of_forall₂_right shaped.columns.flip d hd
      exact h.2.2.unnumbered
    have unnumbered₂ : numbering? (s'.keeping keep) = none :=
      Correspondence.numbering?_eq_none fun d hd => unnumbered d (List.mem_of_mem_filter hd)
    have kept : Follows (List.Forall₂ (Row.Narrows keep s'.columnNames))
        (Eval.select tables (s'.keeping keep) σ') (Eval.select tables s' σ') := select_kept whole
      (fun hg => Bool.eq_iff_iff.mpr ⟨hasAggregates_of_keeping, fun h => more (aggregating hg h)⟩)
      (Correspondence.numbering?_eq_none unnumbered) unnumbered₂
    have same : Follows Eq (select tables s σ) (select tables (s'.keeping keep) σ') := by
      refine select_follows (F := Frame.Covers C) shaped ?_ ?_ ?_ unnumbered₁ unnumbered₂ ?_ ?_
      · have hsource := shaped.source
        rw [Eval.frames, Eval.frames]
        generalize s.source = source, (s'.keeping keep).source = source' at hsource
        cases hsource with
        | none => exact .pure (.cons .nil .nil)
        | some h => exact h.frames σ σ' hσ
      · have hsource := shaped.source
        generalize s.source = source, (s'.keeping keep).source = source' at hsource
        cases hsource with
        | none => exact .nil
        | some h =>
          rw [nullFrame_congr h.declares]
          exact Frame.Covers.refl _
      · intro hg
        have ungrouped : s'.groupBy = [] := by
          have := shaped.groupBy
          rw [hg] at this
          cases h : s'.groupBy with
          | nil => rfl
          | cons _ _ => simp [keeping, h] at this
        exact Bool.eq_iff_iff.mpr ⟨more, fun h => aggregating ungrouped (hasAggregates_of_keeping h)⟩
      · exact fun c _ c' h τ τ' hτ => h.value τ τ' (hσ.inner hτ)
      · exact fun c _ c' h => h.value σ σ' hσ
    refine (same.trans kept).mono ?_
    rintro rows rows' ⟨_, rfl, h⟩
    exact h

theorem Select.Narrows.covers {s s' : Select Expr} (h : s.Narrows tables C keep s') {row row' : Row}
    (hrow : Row.Narrows keep s'.columnNames row row') : Row.Covers C s.rel row row' :=
  hrow.covers (h.rel ▸ h.reads)

/-- A select that keeps all its columns has the same rows. -/
theorem Select.Narrows.rows_eq {s s' : Select Expr} (h : s.Narrows tables C (fun _ => true) s')
    {σ σ' : Scope} (hσ : Scope.Covers C σ σ') :
    Follows Eq (Eval.select tables s σ) (Eval.select tables s' σ') := by
  refine (h.rows σ σ' hσ).mono fun rows rows' hrows => ?_
  rw [← List.forall₂_eq_eq_eq]
  exact hrows.imp fun row row' h => by rw [h.eq, Row.kept_all fun _ => rfl]

abbrev Projection.Narrows (tables : Tables) (C : Column → Prop) :
    Projection Expr → Projection Expr → Prop :=
  Projection.Shaped (Expr.Narrows tables C) fun s s' => ∃ keep, s.Narrows tables C keep s'

namespace Projection.Narrows

variable {p p' : Projection Expr} {σ σ' : Scope}

theorem objects (h : Narrows tables C p p') (hσ : Scope.Covers C σ σ') :
    FollowsRun (project tables p σ) (project tables p' σ') := by
  obtain ⟨keep, hs⟩ := h.select
  exact project_follows hs.rel h.pick (hs.rows σ σ' hσ) fun row row' hrow =>
    h.projector.objects _ _ (hσ.bind (hs.covers hrow))

theorem joined (h : Narrows tables C p p') {inner inner' : List Expr}
    (keys : List.Forall₂ (Expr.Narrows tables C) inner inner') :
    FollowsRun (joinedRows tables p inner) (joinedRows tables p' inner') := by
  obtain ⟨keep, hs⟩ := h.select
  have inRow : ∀ row row', Row.Narrows keep p'.select.columnNames row row' → Scope.Covers C
      (Scope.root.bind p.select.rel row) (Scope.root.bind p.select.rel row') :=
    fun row row' hrow => (Scope.Covers.refl _).bind (hs.covers hrow)
  refine joinedRows_follows hs.rel (hs.rows _ _ (.refl _)) (fun row row' hrow => ?_) fun row row' hrow => ?_
  · exact keys.imp fun k k' h => h.value _ _ (inRow row row' hrow)
  · exact h.projector.objects _ _ (inRow row row' hrow)

theorem aggregates (h : Narrows tables C p p') :
    (Part.projection p).aggregates = true → (Part.projection p').aggregates = true :=
  Part.aggregates_mono rfl rfl fun q hq under => by
    obtain ⟨q', hq', hm⟩ := exists_of_forall₂_right h.parts.flip q hq
    refine ⟨q', hq', ?_⟩
    cases hm with
    | expr h => exact h.aggregates under
    | select h =>
      obtain ⟨keep, h⟩ := h
      exact h.aggregates under
    | projection h => exact h.elim

end Projection.Narrows

theorem Expr.Shaped.readFirst? {Q : Expr → Expr → Prop} {QS : Select Expr → Select Expr → Prop}
    {QP : Projection Expr → Projection Expr → Prop} {e e' : Expr} (h : e.Shaped Q QS QP e')
    {s s' : Select Expr} (hs : e.readFirst? = some s)
    (hs' : Part.select s' ∈ (Part.expr e').parts) : e'.readFirst? = some s' := by
  cases h with
  | scalar _ | inSelect _ _ | groupAggregate _ _ _ _ =>
    simp only [Part.parts, List.mem_cons, Part.select.injEq, reduceCtorEq, List.not_mem_nil, or_false,
      false_or] at hs'
    rw [hs']
    rfl
  | _ => cases hs

section Nodes

variable {QS : Select Expr → Select Expr → Prop} {e e' : Expr} {σ σ' : Scope}
  (shaped : e.Shaped (Expr.Narrows tables C) QS (Projection.Narrows tables C) e')
  (selects : ∀ s s', QS s s' → ∃ keep, s.Narrows tables C keep s')
include shaped selects

theorem scalar_narrows (reads : ∀ c, e' = .column c → C c)
    (first : ∀ s, e'.readFirst? = some s → ∀ d ∈ s.columns.head?, C ⟨s.rel, d.name, d.type⟩)
    (unnumbered : ∀ orders, e ≠ .rowNumber orders) (hσ : Scope.Covers C σ σ') :
    Follows Eq (scalar tables e σ) (scalar tables e' σ') := by
  by_cases column : ∃ c, e = .column c
  · obtain ⟨c, rfl⟩ := column
    cases shaped
    exact Correspondence.covering_column (reads c rfl) hσ.rows
  have within := shaped.imp_right (fun _ _ _ h => h) (fun s s' hs' h => (⟨h, hs'⟩ :
    QS s s' ∧ Part.select s' ∈ (Part.expr e').parts)) fun _ _ _ h => h
  refine scalar_follows within (fun c hc => column ⟨c, hc⟩) (fun c c' h => h.value σ σ' hσ) ?_ ?_ ?_
    fun orders hr => absurd hr (unnumbered orders)
  · rintro s s' ⟨h, -⟩
    obtain ⟨keep, h⟩ := selects s s' h
    exact (h.rows σ σ' hσ).mono fun _ _ h => forall₂_isEmpty h
  · rintro s s' hs ⟨h, hs'⟩
    obtain ⟨keep, h⟩ := selects s s' h
    have kept : ∀ n ∈ s'.columnNames.head?, keep n = true := by
      intro n hn
      rw [Select.columnNames, List.head?_map] at hn
      obtain ⟨d, hd, rfl⟩ := Option.map_eq_some_iff.mp hn
      exact h.reads _ (first s' (shaped.readFirst? hs hs') d hd) rfl
    refine (h.rows σ σ' hσ).mono fun rows rows' hrows => ?_
    rw [← List.forall₂_eq_eq_eq, List.forall₂_map_left_iff, List.forall₂_map_right_iff]
    exact hrows.imp fun row row' h => h.head kept
  · rintro kind argument distinct -
    exact optionRel_imp_mem hσ.group fun g _ g' hg => hg.imp fun f f' hf c c' h =>
      h.value _ _ (hσ.extend hf)

theorem source_narrows (sets : ∀ rel kind s t, e' = .setOp rel kind s t → ∀ q q', QS q q' →
      q.Narrows tables C (fun _ => true) q') (hσ : Scope.Covers C σ σ') :
    Follows (List.Forall₂ (Frame.Covers C)) (source tables e σ) (source tables e' σ') := by
  cases shaped with
  | table t => exact table_follows rfl fun row => Frame.Covers.refl _
  | select h =>
    obtain ⟨keep, h⟩ := selects _ _ h
    exact rows_follows (h.rows σ σ' hσ) fun row row' hrow =>
      .cons ⟨h.rel, .some (h.covers hrow)⟩ .nil
  | setOp rel kind hs ht =>
    have hs := sets _ _ _ _ rfl _ _ hs
    have ht := sets _ _ _ _ rfl _ _ ht
    exact setOp_follows (by rw [hs.names, List.filter_true]) (hs.rows_eq hσ) (ht.rows_eq hσ)
      fun row => Frame.Covers.refl _
  | join kind hl hr hon =>
    refine join_follows (F := Frame.Covers C) (G := Frame.Covers C) ?_ ?_
      (fun _ _ _ _ hf hg => List.rel_append hf hg) (hl.frames σ σ' hσ) (fun _ => hr.frames σ σ' hσ)
      fun _ f f' hf => hr.frames _ _ (hσ.extend hf)
    · exact optionRel_imp_mem hon fun c _ c' h f f' g g' hf hg =>
        h.value _ _ ((hσ.extend hf).extend hg)
    · rw [nullFrame_congr hr.declares]
      exact Frame.Covers.refl _
  | _ =>
    simp only [source]
    exact .error _ _

theorem declares_narrows : e.declares = e'.declares := by
  cases shaped with
  | select h =>
    obtain ⟨keep, h⟩ := selects _ _ h
    simp [Expr.declares, h.rel]
  | join kind hl hr hon => simp [Expr.declares, hl.declares, hr.declares]
  | _ => rfl

theorem aggregates_narrows :
    (Part.expr e).aggregates = true → (Part.expr e').aggregates = true := by
  refine shaped.aggregates_mono fun q q' hq => ?_
  cases hq with
  | expr h => exact h.aggregates
  | select h =>
    obtain ⟨keep, h⟩ := selects _ _ h
    exact h.aggregates
  | projection h => exact Projection.Narrows.aggregates h

/-- Nodes of the same kind over parts of which the first ones follow the second ones. -/
theorem Expr.Narrows.of_shaped
    (sets : ∀ rel kind s t, e' = .setOp rel kind s t → ∀ q q', QS q q' →
      q.Narrows tables C (fun _ => true) q')
    (reads : ∀ c, e' = .column c → C c)
    (first : ∀ s, e'.readFirst? = some s → ∀ d ∈ s.columns.head?, C ⟨s.rel, d.name, d.type⟩)
    (unnumbered : ∀ orders, e' ≠ .rowNumber orders) : e.Narrows tables C e' := by
  have unnumbered₁ : ∀ orders, e ≠ .rowNumber orders := by
    rintro orders rfl
    cases shaped
    exact unnumbered _ rfl
  have value : ∀ σ σ' : Scope, Scope.Covers C σ σ' →
      Follows Eq (Eval.scalar tables e σ) (Eval.scalar tables e' σ') :=
    fun σ σ' hσ => scalar_narrows shaped selects reads first unnumbered₁ hσ
  refine ⟨value, fun σ σ' hσ => source_narrows shaped selects sets hσ, fun σ σ' hσ => ?_,
    declares_narrows shaped selects, aggregates_narrows shaped selects, unnumbered₁⟩
  refine client_follows shaped (value σ σ' hσ) (fun c c' h => h.value σ σ' hσ)
    (fun c c' h => h.objects σ σ' hσ) (fun p p' hp => Projection.Narrows.objects hp hσ) ?_
  intro p outer inner _ p' inner' hp hinner
  obtain ⟨keep, hs⟩ := hp.select
  exact ⟨hs.rel, hp.pick, Projection.Narrows.joined hp hinner⟩

end Nodes

end ObjectQuery
