import ObjectQuery.Proofs.FlatSelects
import ObjectQuery.Rewrite.Applies

/-!
Applies and the joins that stand for them. A select that is applied to every row of the left side and
filters its own rows there is one that is evaluated once, before the left side is looked at, and whose
rows are filtered by the condition of the join. The rows come in the same order, since a stable sort
commutes with a filter.
-/

namespace ObjectQuery

open Eval

variable {tables : Tables} {s : Select Expr} {σ : Scope}

def Select.widened (s : Select Expr) (added : List (ColumnDecl Expr)) : Select Expr :=
  { s with filter := none, columns := s.columns ++ added }

structure Select.Detached (A : Alias → Prop) (s : Select Expr) (added : List (ColumnDecl Expr)) :
    Prop where
  flat : s.Flat
  wide : (s.widened added).Flat
  source : ∀ e ∈ s.source, (Part.expr e).Every (Part.Tame (fun _ => True) A)
  columns : ∀ d ∈ s.columns ++ added, (Part.expr d.expr).Every (Part.Tame (fun _ => True) A)
    ∧ (Part.expr d.expr).aggregates = false
  orders : ∀ o ∈ s.orderBy, (Part.expr o.expr).Every (Part.Tame (fun _ => True) A)
    ∧ (Part.expr o.expr).aggregates = false

namespace Select.Detached

variable {A : Alias → Prop} {C : Column → Prop} {added : List (ColumnDecl Expr)} {σ₁ : Scope}
  {frames : List Frame}

theorem scalar_eq {e : Expr} (tame : (Part.expr e).Every (Part.Tame (fun _ => True) A)
      ∧ (Part.expr e).aggregates = false)
    (agrees : (Correspondence.agreeing A).rows σ₁.rows σ.rows) {f : Frame} {v : Value}
    (h : scalar tables e (σ.extend f) = .ok v) : scalar tables e (σ₁.extend f) = .ok v := by
  have follows := (Correspondence.ExprFollows.of_agreeing tables tame.1).value
    (σ₁.extend f) (σ.extend f) ((Correspondence.agreeing A).extend rfl agrees) (by simp [tame.2])
  exact follows.eq_ok h

theorem frames_eq (h : s.Detached A added)
    (agrees : (Correspondence.agreeing A).rows σ₁.rows σ.rows)
    (hframes : Eval.frames tables s σ = .ok frames) : Eval.frames tables s σ₁ = .ok frames := by
  rw [Eval.frames] at hframes ⊢
  cases hs : s.source with
  | none =>
    rw [hs] at hframes
    exact hframes
  | some e =>
    rw [hs] at hframes
    obtain ⟨frames', run, same⟩ := (Correspondence.ExprFollows.of_agreeing tables
      (h.source e hs)).frames σ₁ σ agrees frames hframes
    have same : List.Forall₂ Eq frames' frames := same
    rw [List.forall₂_eq_eq_eq] at same
    rw [← same]
    exact run

/-- A row with more columns covers the row without them. -/
theorem covers_append {row more : Row} (names : ∀ c, C c → c.rel = s.rel → c.name ∈ s.columnNames)
    (hrow : row.map (·.1) = s.columnNames) : Row.Covers C s.rel row (row ++ more) := by
  intro c hc hr v hv
  have mem := names c hc hr
  rw [← hrow] at mem
  obtain ⟨x, hx, hname⟩ := List.mem_map.mp mem
  rw [Row.get?, List.lookup_append] at hv
  cases found : row.lookup c.name with
  | none => exact absurd hname.symm (by simpa using List.lookup_eq_none_iff.mp found x hx)
  | some w =>
    rw [found] at hv
    rw [Row.get?, found]
    exact hv

/-- The frames that one frame of the left side is joined to: with the select applied to it, and with
the rows of the widened select that pass the condition. -/
theorem joinFrame_follows (h : s.Detached A added) (typed : s.OrdersByTypeIn tables σ)
    {kind kind' : JoinKind} (outer : (kind == .leftOuter || kind == .outerApply)
      = (kind' == .leftOuter || kind' == .outerApply))
    (names : ∀ c, C c → c.rel = s.rel → c.name ∈ s.columnNames) {frame : Frame}
    (agrees : (Correspondence.agreeing A).rows (σ.extend frame).rows σ.rows) {on : Option Expr}
    {rows : List Row} (hrows : select tables (s.widened added) σ = .ok rows)
    (tests : ∀ frames, Eval.frames tables s σ = .ok frames →
      Known tables (s.widened added) σ frames → ∀ f ∈ frames,
      Follows Eq (meets tables s.filter ((σ.extend frame).extend f))
        (meets tables on ((σ.extend frame).extend
          [(s.rel, some (rowIn tables σ (s.columns ++ added) f))]))) :
    Follows (List.Forall₂ (Frame.Covers C))
      (Eval.source tables (.select s) (σ.extend frame) >>= joinFrame tables kind (.select s) none σ frame)
      (joinFrame tables kind' (.select (s.widened added)) on σ frame
        (rows.map fun row => [(s.rel, some row)])) := by
  intro out hout
  obtain ⟨frames, hframes, known⟩ := h.wide.of_select rfl hrows
  have hframes : Eval.frames tables s σ = .ok frames := hframes
  have wide : rows = (s.ordered tables σ frames).map (rowIn tables σ (s.columns ++ added)) := by
    have := h.wide.select_eq_ok (σ := σ) hframes (fun _ => true) (fun _ _ => rfl)
      (fun f hf => (known f hf).1) (fun f hf => (known f hf).2) (typed frames hframes)
    rw [hrows] at this
    rw [Except.ok.inj this, List.filter_true]
    rfl
  subst wide
  obtain ⟨matched, hm, hout⟩ := bind_eq_ok.mp hout
  -- The frames whose rows pass the condition of the join.
  let keep : Frame → Bool := fun f => (meets tables on ((σ.extend frame).extend
    [(s.rel, some (rowIn tables σ (s.columns ++ added) f))])).toOption.getD false
  have kept : ∀ f ∈ frames, meets tables on ((σ.extend frame).extend
      [(s.rel, some (rowIn tables σ (s.columns ++ added) f))]) = .ok (keep f) := by
    intro f hf
    obtain ⟨b, hb⟩ := ok_of_filterM hm [(s.rel, some (rowIn tables σ (s.columns ++ added) f))] (by
      simp only [List.map_map, List.mem_map, Function.comp_def]
      exact ⟨f, Select.mem_ordered.mpr hf, rfl⟩)
    simp only [keep, hb]
    rfl
  have after : matched = ((s.ordered tables σ frames).filter keep).map fun f =>
      [(s.rel, some (rowIn tables σ (s.columns ++ added) f))] := by
    rw [eq_filter_of_filterM (q := fun other => (meets tables on
      ((σ.extend frame).extend other)).toOption.getD false) hm fun _ _ b hb => by
        rw [hb]
        rfl, List.map_map, List.filter_map]
    rfl
  have before : select tables s (σ.extend frame)
      = .ok (((s.ordered tables σ frames).filter keep).map (rowIn tables σ s.columns)) := by
    refine h.flat.select_eq_ok (h.frames_eq agrees hframes) keep
      (fun f hf => (tests frames hframes known f hf).eq_ok (kept f hf)) (fun f hf d hd => ?_)
      (fun f hf o ho => ?_) (typed frames hframes)
    · have hd : d ∈ s.columns ++ added := List.mem_append_left _ hd
      exact scalar_eq (h.columns d hd) agrees ((known f hf).1 d hd)
    · exact scalar_eq (h.orders o ho) agrees ((known f hf).2 o ho)
  have rights : Eval.source tables (.select s) (σ.extend frame)
      = .ok (((s.ordered tables σ frames).filter keep).map fun f =>
        [(s.rel, some (rowIn tables σ s.columns f))]) := by
    rw [source_select, before, ok_bind, List.map_map]
    rfl
  rw [rights, ok_bind, joinFrame, filterM_meets_none, ok_bind, outer]
  rw [after] at hout
  generalize (s.ordered tables σ frames).filter keep = kept at hout
  rw [List.isEmpty_map] at hout ⊢
  split at hout
  · cases hout
    refine ⟨_, by rw [if_pos ‹_›]; rfl, .cons ?_ .nil⟩
    exact List.rel_append (Frame.Covers.refl frame) (Frame.Covers.refl [(s.rel, none)])
  · cases hout
    refine ⟨_, by rw [if_neg ‹_›]; rfl, ?_⟩
    rw [List.map_map, List.map_map, List.forall₂_map_left_iff, List.forall₂_map_right_iff,
      List.forall₂_same]
    intro f _
    refine List.rel_append (Frame.Covers.refl frame) (.cons ⟨rfl, .some ?_⟩ .nil)
    rw [rowIn, rowIn, List.map_append]
    refine covers_append names ?_
    rw [List.map_map]
    rfl

end Select.Detached

structure Applies.Suits (tables : Tables) (C : Column → Prop) (D R : Alias → Prop) (left : Expr)
    (s : Select Expr) : Prop where
  tame : (Part.select s).Every (Part.Tame (fun _ => True) fun _ => True)
  names : s.columnNames.Nodup
  offered : ∀ c, C c → c.rel = s.rel → c.name ∈ s.columnNames
  sources : ∀ a ∈ s.sourceAliases, a ∉ left.declares
  filter : ∀ e ∈ s.filter, (Part.expr e).Every (Part.Tame D R)
  declared : ∀ a, D a → (a ∉ s.sourceAliases ∧ a ≠ s.rel) ∧ a ∉ left.declares
  reads : ∀ a, R a → a ≠ s.rel

namespace Applies

variable {affinity : Affinity} {C : Column → Prop} {D R : Alias → Prop} {left : Expr}
  {added : List (ColumnDecl Expr)}

theorem scalar_always (scope : Scope) : scalar tables always scope = .ok (.bool true) := by
  simp only [always, Expr.equals, Expr.int, scalar, ok_bind]
  rfl

theorem Suits.flat (h : Suits tables C D R left s) (flat : isFlat s = true) : s.Flat := by
  simp only [isFlat, Bool.and_eq_true, Option.isNone_iff_eq_none, List.isEmpty_iff,
    Bool.not_eq_true'] at flat
  obtain ⟨⟨⟨⟨take, skip⟩, groupBy⟩, distinct⟩, aggregates⟩ := flat
  exact ⟨groupBy, aggregates, distinct, skip, take, Correspondence.numbering?_eq_none fun d hd =>
    Expr.not_rowNumber (h.tame.part (Select.columns_mem hd))⟩

/-- The clauses of a flat select compute no aggregate. -/
theorem aggregates_of_flat (flat : s.Flat) :
    (∀ e ∈ s.filter, (Part.expr e).aggregates = false)
      ∧ (∀ o ∈ s.orderBy, (Part.expr o.expr).aggregates = false)
      ∧ ∀ d ∈ s.columns, (Part.expr d.expr).aggregates = false := by
  have := flat.aggregates
  rw [Select.hasAggregates] at this
  simp only [Bool.or_eq_false_iff, Option.any_eq_false, List.any_eq_false, Bool.not_eq_true] at this
  exact ⟨this.1.1, this.1.2, this.2⟩

theorem Suits.detached (h : Suits tables C D R left s) (flat : isFlat s = true)
    (unread : ∀ a ∈ left.declares, a ∉ (Expr.select { s with filter := none }).referenced)
    (fits : ∀ d ∈ added, Split.Fits D s.sourceAliases d) :
    s.Detached (· ∉ left.declares) added := by
  obtain ⟨-, orders, columns⟩ := aggregates_of_flat (h.flat flat)
  have flat := h.flat flat
  -- The parts that stay are parts of the select without its filter.
  have apart : ∀ e, Part.expr e ∈ (Part.select { s with filter := none }).parts →
      (Part.expr e).Every (Part.Tame (fun _ => True) fun _ => True) →
      (Part.expr e).Every (Part.Tame (fun _ => True) (· ∉ left.declares)) := by
    intro e he tame
    refine tame.names (fun _ _ => trivial) fun c hc declared => unread _ declared ?_
    rw [Expr.referenced, Part.referenced, List.mem_eraseDups]
    exact List.mem_map_of_mem (Part.columnRefs_subset (by simp [Part.parts])
      (Part.columnRefs_subset he hc))
  have more : ∀ d ∈ added, (Part.expr d.expr).Every (Part.Tame (fun _ => True) (· ∉ left.declares))
      ∧ (Part.expr d.expr).aggregates = false := by
    intro d hd
    refine ⟨(fits d hd).1.names (fun _ _ => trivial) fun c hc => ?_, (fits d hd).2⟩
    rcases (fits d hd).1.reads c hc with source | own
    · exact h.sources _ source
    · exact (h.declared _ own).2
  have all : ∀ d ∈ s.columns ++ added,
      (Part.expr d.expr).Every (Part.Tame (fun _ => True) (· ∉ left.declares))
      ∧ (Part.expr d.expr).aggregates = false := by
    intro d hd
    rcases List.mem_append.mp hd with hd | hd
    · exact ⟨apart _ (Select.columns_mem (s := { s with filter := none }) hd)
        (h.tame.part (Select.columns_mem hd)), columns d hd⟩
    · exact more d hd
  refine ⟨flat, ⟨flat.groupBy, ?_, flat.distinct, flat.skip, flat.take,
    Correspondence.numbering?_eq_none fun d hd => Expr.not_rowNumber (all d hd).1⟩, fun e he => ?_, all,
    fun o ho => ⟨?_, orders o ho⟩⟩
  · simp only [Select.hasAggregates, Select.widened, Option.any_none, Bool.false_or,
      Bool.or_eq_false_iff, List.any_eq_false, Bool.not_eq_true]
    exact ⟨orders, fun d hd => (all d hd).2⟩
  · exact apart e (Select.source_mem (s := { s with filter := none }) he)
      (h.tame.part (Select.source_mem he))
  · exact apart _ (Select.orderBy_mem (s := { s with filter := none }) ho)
      (h.tame.part (Select.orderBy_mem ho))

def Tests (tables : Tables) (left : Expr) (s : Select Expr) (added : List (ColumnDecl Expr))
    (on : Option Expr) : Prop :=
  ∀ σ σ₁ : Scope, (Correspondence.agreeing (· ∉ left.declares)).rows σ₁.rows σ.rows →
    ∀ frames, Eval.frames tables s σ = .ok frames → Known tables (s.widened added) σ frames →
    ∀ f ∈ frames, Follows Eq (meets tables s.filter (σ₁.extend f))
      (meets tables on (σ₁.extend [(s.rel, some (rowIn tables σ (s.columns ++ added) f))]))

structure Stands (tables : Tables) (D R : Alias → Prop) (kind : JoinKind) (left : Expr)
    (s : Select Expr) (kind' : JoinKind) (added : List (ColumnDecl Expr)) (on : Option Expr) :
    Prop where
  shared : kind'.isApply = false
  outer : (kind == .leftOuter || kind == .outerApply) = (kind' == .leftOuter || kind' == .outerApply)
  detached : s.Detached (· ∉ left.declares) added
  fits : ∀ d ∈ added, Split.Fits D s.sourceAliases d
  condition : ∀ e ∈ on, (Part.expr e).Every (Part.Tame D fun a => R a ∨ a = s.rel)
    ∧ (Part.expr e).aggregates = false
  tests : Tests tables left s added on

theorem tame_always : (Part.expr always).Every (Part.Tame D R) := by
  refine .node trivial fun q hq => ?_
  have literal : (Part.expr (.int 1)).Every (Part.Tame D R) := .node (.int 1) (by simp [Expr.int, Part.parts])
  simp only [always, Expr.equals, Part.parts, List.mem_cons, List.not_mem_nil, or_false, or_self] at hq
  rw [hq]
  exact literal

theorem aggregates_always : (Part.expr always).aggregates = false := by
  simp [Part.aggregates_eq, always, Expr.equals, Expr.int, Part.parts, Part.isAggregate]

/-- A join computes the aggregates of its sides where its condition has none. -/
theorem aggregates_join {kind : JoinKind} {right : Expr} {on : Option Expr}
    (plain : ∀ e ∈ on, (Part.expr e).aggregates = false) :
    (Part.expr (.join kind left right on)).aggregates
      = ((Part.expr left).aggregates || (Part.expr right).aggregates) := by
  rw [Part.aggregates_eq]
  cases on with
  | none => simp [Part.parts, Part.isAggregate, Part.aggregatesApart]
  | some e => simp [Part.parts, Part.isAggregate, Part.aggregatesApart, plain e rfl]

/-- How a select is joined that was applied. -/
theorem joinSelect_cases (h : Suits tables C D R left s) {kind : JoinKind}
    (apply : kind.isApply = true) {joined : Expr}
    (hj : joinSelect? affinity kind left s = some joined) :
    ∃ kind' added on, joined = .join kind' left (.select (s.widened added)) on
      ∧ Stands tables D R kind left s kind' added on := by
  rw [joinSelect?] at hj
  split at hj
  · cases hj
  rename_i cond
  simp only [Bool.or_eq_true, Bool.not_eq_true', not_or, Bool.not_eq_false, List.any_eq_true,
    not_exists, not_and, List.contains_iff_mem] at cond
  obtain ⟨flat, unread⟩ := cond
  cases hf : s.filter with
  | none =>
    have narrow : { s with filter := none } = s.widened [] := by simp [Select.widened]
    have detached : s.Detached (· ∉ left.declares) [] := h.detached flat unread (by simp)
    simp only [hf, narrow] at hj
    cases kind with
    | cross | inner | leftOuter => cases apply
    | crossApply =>
      cases hj
      refine ⟨_, [], _, rfl, rfl, rfl, detached, by simp, by simp, fun _ _ _ _ _ _ _ _ => ?_⟩
      rw [hf]
      exact .refl _
    | outerApply =>
      cases hj
      refine ⟨_, [], _, rfl, rfl, rfl, detached, by simp, ?_, fun _ _ _ _ _ _ _ _ => ?_⟩
      · intro e he
        rw [← Option.some.inj he]
        exact ⟨tame_always, aggregates_always⟩
      · rw [hf, Option.getD_none, meets, meets, scalar_always]
        exact .refl _
  | some condition =>
    have apart := (aggregates_of_flat (h.flat flat)).1 condition hf
    obtain ⟨⟨added, columns, names, fits⟩, rebuilt⟩ := Expr.split_rebuilds affinity tables
      s.columns (h.filter condition hf) apart (fun a ha => (h.declared a ha).1) h.reads
    have wide : { s with filter := none, columns :=
        (condition.split affinity s.columns s.rel s.sourceAliases).columns } = s.widened added := by
      rw [columns]
      rfl
    have detached := h.detached flat unread fits
    simp only [hf, wide] at hj
    have names := columns ▸ names h.names
    rw [columns] at rebuilt
    have stands : ∀ kind', kind'.isApply = false →
        (kind == .leftOuter || kind == .outerApply) = (kind' == .leftOuter || kind' == .outerApply) →
        Stands tables D R kind left s kind' added
          (some (condition.split affinity s.columns s.rel s.sourceAliases).projector) := by
      refine fun kind' shared outer => ⟨shared, outer, detached, fits, ?_, ?_⟩
      · intro e he
        rw [← Option.some.inj he]
        exact ⟨rebuilt.tame, rebuilt.aggregates.symm.trans apart⟩
      · intro σ σ₁ agrees frames hframes known f hf'
        rw [hf]
        refine (rebuilt.value (σ₁.extend f) _ _ (fun d hd => ⟨_, get?_rowIn names f hd, ?_⟩)
          (Split.viewing_rows hframes hf' _ σ₁) rfl rfl).bind_same fun _ => .refl _
        exact Select.Detached.scalar_eq (detached.columns d hd) agrees ((known f hf').1 d hd)
    cases kind with
    | cross | inner | leftOuter => cases apply
    | crossApply =>
      cases hj
      exact ⟨_, added, _, rfl, stands _ rfl rfl⟩
    | outerApply =>
      cases hj
      exact ⟨_, added, _, rfl, stands _ rfl rfl⟩

namespace Stands

variable {kind kind' : JoinKind} {on : Option Expr}

/-- An apply of a select gives what the join that stands for it gives, where that one succeeds. -/
theorem follows (h : Stands tables D R kind left s kind' added on) (apply : kind.isApply = true)
    (typed : s.OrdersByTypeIn tables σ)
    (offered : ∀ c, C c → c.rel = s.rel → c.name ∈ s.columnNames) :
    Follows (List.Forall₂ (Frame.Covers C)) (source tables (.join kind left (.select s) none) σ)
      (source tables (.join kind' left (.select (s.widened added)) on) σ) := by
  rw [source_apply apply, source_join h.shared]
  intro out hout
  obtain ⟨lefts, hlefts, hout⟩ := bind_eq_ok.mp hout
  obtain ⟨rights, hrights, hout⟩ := bind_eq_ok.mp hout
  rw [source_select] at hrights
  obtain ⟨rows, hrows, hrights⟩ := bind_eq_ok.mp hrights
  cases hrights
  have each : Follows (List.Forall₂ (List.Forall₂ (Frame.Covers C)))
      (lefts.mapM fun frame => source tables (.select s) (σ.extend frame)
        >>= joinFrame tables kind (.select s) none σ frame)
      (lefts.mapM fun frame => joinFrame tables kind' (.select (s.widened added)) on σ frame
        (rows.map fun row => [(s.rel, some row)])) := by
    refine .mapM (R := Eq) (List.forall₂_same.mpr fun _ _ => rfl) fun frame hframe _ same => ?_
    subst same
    have agrees : (Correspondence.agreeing (· ∉ left.declares)).rows (σ.extend frame).rows σ.rows := by
      intro a ha
      refine Split.lookup_append_of_forall fun x hx => ?_
      rintro rfl
      refine ha ?_
      rw [← aliases_of_source left hlefts frame hframe]
      exact List.mem_map_of_mem (List.mem_reverse.mp hx)
    exact h.detached.joinFrame_follows typed h.outer offered agrees hrows (h.tests σ _ agrees)
  rw [hlefts, ok_bind]
  exact each.bind (fun _ _ h => .pure (List.rel_flatten h)) out hout

theorem aggregates (h : Stands tables D R kind left s kind' added on) :
    (Part.expr (.join kind left (.select s) none)).aggregates
      = (Part.expr (.join kind' left (.select (s.widened added)) on)).aggregates := by
  have apart : ∀ q : Select Expr, (Part.expr (.select q)).aggregates = false := fun q => by
    simp [Part.aggregates_eq, Part.isAggregate, Part.aggregatesApart]
  rw [aggregates_join (by simp), aggregates_join fun e he => (h.condition e he).2, apart, apart]

theorem mem_exprs_widened {e : Expr} (he : e ∈ (s.widened added).exprs) :
    e ∈ s.exprs ∨ ∃ d ∈ added, d.expr = e := by
  simp only [Select.exprs, Select.widened, Option.toList_none, List.append_nil, List.map_append,
    List.mem_append, List.mem_map] at he ⊢
  grind

/-- The join declares and reads what the apply does, and reads what its right side declares. -/
theorem tame {D' R' : Alias → Prop} (h : Stands tables D R kind left s kind' added on)
    (declared : ∀ a, D a → D' a) (reads : ∀ a, R a → R' a) (sub : ∀ a, D' a → R' a)
    (tame : (Part.expr (.join kind left (.select s) none)).Every (Part.Tame D' R')) :
    (Part.expr (.join kind' left (.select (s.widened added)) on)).Every (Part.Tame D' R') := by
  have select : (Part.select s).Every (Part.Tame D' R') :=
    (tame.part (q := .expr (.select s)) (by simp [Part.parts])).part (by simp [Part.parts])
  have sources : ∀ a ∈ s.sourceAliases, D' a := fun a ha =>
    select.declared a (Part.sourceAliases_subset_declared s ha)
  refine .node trivial fun q hq => ?_
  simp only [Part.parts, List.mem_cons, List.mem_map, Option.mem_toList] at hq
  rcases hq with rfl | rfl | ⟨e, he, rfl⟩
  · exact tame.part (by simp [Part.parts])
  · refine .node trivial fun q hq => ?_
    simp only [Part.parts, List.mem_cons, List.not_mem_nil, or_false] at hq
    subst hq
    refine .node select.here fun q hq => ?_
    obtain ⟨e, he, rfl⟩ := List.mem_map.mp hq
    rcases mem_exprs_widened he with he | ⟨d, hd, rfl⟩
    · exact select.part (List.mem_map_of_mem he)
    · exact (h.fits d hd).1.names (fun a ha => declared a ((h.fits d hd).1.declared a ha))
        fun c hc => ((h.fits d hd).1.reads c hc).elim (fun ha => sub _ (sources _ ha))
          fun ha => sub _ (declared _ ha)
  · have condition := (h.condition e he).1
    refine condition.names (fun a ha => declared a (condition.declared a ha)) fun c hc => ?_
    rcases condition.reads c hc with ha | ha
    · exact reads _ ha
    · rw [ha]
      exact sub _ select.here.1

end Stands

end Applies

end ObjectQuery
