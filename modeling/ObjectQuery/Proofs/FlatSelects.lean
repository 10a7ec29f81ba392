import ObjectQuery.Proofs.KeyOrder
import ObjectQuery.Proofs.Residual

/-!
Selects that neither group nor page nor drop or number rows. Such a select has a row for each frame
that it keeps, in the order of its keys.
-/

namespace ObjectQuery

open Eval

variable {tables : Tables} {s : Select Expr} {σ : Scope}

structure Select.Flat (s : Select Expr) : Prop where
  groupBy : s.groupBy = []
  aggregates : s.hasAggregates = false
  distinct : s.distinct = false
  skip : s.skip = none
  take : s.take = none
  unnumbered : numbering? s = none

theorem filterM_meets_none {α : Type} (frames : List α) (scope : α → Scope) :
    frames.filterM (fun f => meets tables none (scope f)) = .ok frames := by
  have all : frames.filterM (fun f => meets tables none (scope f))
      = .ok (frames.filter fun _ => true) := filterM_eq_ok fun _ _ => rfl
  rw [all, List.filter_true]

theorem Select.Flat.select_eq (flat : s.Flat) (tables : Tables) (σ : Scope) :
    select tables s σ = (do
      let frames ← Eval.frames tables s σ
      let kept ← frames.filterM fun f => meets tables s.filter (σ.extend f)
      let produced ← kept.mapM fun f => produce s (fun e _ => scalar tables e) (σ.extend f)
      return arrange s produced) := by
  rw [Eval.select_eq, Eval.frames]
  refine bind_congr fun frames => ?_
  have filtered : filtered s (fun e _ => scalar tables e) σ frames
      = frames.filterM fun f => meets tables s.filter (σ.extend f) := by
    rw [filtered_eq]
    cases s.filter with
    | none =>
      rw [filterM_meets_none]
    | some e => rfl
  rw [filtered]
  refine bind_congr fun kept => ?_
  rw [scopes_eq, flat.groupBy, flat.aggregates]
  simp only [List.isEmpty_nil, Bool.not_true, Bool.or_self, Bool.false_eq_true, if_false, ok_bind,
    numbered, flat.unnumbered, List.mapM_map, skipped_eq, taken_eq, flat.skip, flat.take]
  refine bind_congr fun produced => ?_
  rfl

def valueIn (tables : Tables) (σ : Scope) (e : Expr) (f : Frame) : Value :=
  (scalar tables e (σ.extend f)).toOption.getD .null

theorem scalar_eq_valueIn {e : Expr} {f : Frame} {v : Value}
    (h : scalar tables e (σ.extend f) = .ok v) :
    scalar tables e (σ.extend f) = .ok (valueIn tables σ e f) := by
  rw [valueIn, h]
  rfl

def Select.OrdersByTypeIn (tables : Tables) (s : Select Expr) (σ : Scope) : Prop :=
  ∀ frames, Eval.frames tables s σ = .ok frames → ∀ o ∈ s.orderBy, ∃ type : KeyType,
    ∀ f ∈ frames, type.admits (valueIn tables σ o.expr f)

def Select.ordered (tables : Tables) (s : Select Expr) (σ : Scope) (frames : List Frame) :
    List Frame :=
  let sorted := sortWith (byKeys (s.orderBy.map fun o => (o.direction, valueIn tables σ o.expr))) frames
  if s.reversed then sorted.reverse else sorted

theorem Select.mem_ordered {frames : List Frame} {f : Frame} :
    f ∈ s.ordered tables σ frames ↔ f ∈ frames := by
  rw [ordered]
  cases s.reversed <;> simp

theorem Select.ordered_filter (keep : Frame → Bool) (frames : List Frame) :
    s.ordered tables σ (frames.filter keep) = (s.ordered tables σ frames).filter keep := by
  rw [ordered, ordered, sortWith_filter]
  cases s.reversed <;> simp [List.filter_reverse]

theorem arrange_map (distinct : s.distinct = false) {frames : List Frame} {row : Frame → Row}
    (typed : ∀ o ∈ s.orderBy, ∃ type : KeyType, ∀ f ∈ frames, type.admits (valueIn tables σ o.expr f)) :
    arrange s (frames.map fun f => ⟨row f, s.orderBy.map (valueIn tables σ ·.expr f)⟩)
      = (s.ordered tables σ frames).map row := by
  have sorted : sortStable (fun a b : Produced =>
        compareKeys (s.orderBy.map (·.direction)) a.keys b.keys == .lt)
        (frames.map fun f => ⟨row f, s.orderBy.map (valueIn tables σ ·.expr f)⟩)
      = (sortWith (byKeys (s.orderBy.map fun o => (o.direction, valueIn tables σ o.expr))) frames).map
        fun f => ⟨row f, s.orderBy.map (valueIn tables σ ·.expr f)⟩ := by
    rw [sortStable_map _ fun _ _ => rfl]
    congr 1
    refine sortStable_congr fun f hf g hg => ?_
    rw [← compareKeys_eq_byKeys]
    · simp only [List.map_map, Function.comp_def]
    · simp only [List.mem_map, forall_exists_index, and_imp, forall_apply_eq_imp_iff₂]
      intro o ho
      obtain ⟨type, admits⟩ := typed o ho
      exact ⟨type, admits f hf, admits g hg⟩
  rw [arrange, distinct, Select.ordered]
  simp only [Bool.false_eq_true, if_false, sorted]
  cases s.reversed <;> simp [Function.comp_def]

/-- What is kept was there and passes. -/
theorem kept_of_filterM {ε α : Type} {p : α → Except ε Bool} {l l' : List α}
    (h : l.filterM p = .ok l') : ∀ a ∈ l', a ∈ l ∧ p a = .ok true := by
  intro a ha
  rw [eq_filter_of_filterM (q := fun a => (p a).toOption.getD false) h fun a _ b hb => by
    rw [hb]
    rfl, List.mem_filter] at ha
  obtain ⟨b, hb⟩ := ok_of_filterM h a ha.1
  rw [hb] at ha
  exact ⟨ha.1, hb.trans (congrArg _ ha.2)⟩

theorem mem_of_filterM {ε α : Type} {p : α → Except ε Bool} {l l' : List α}
    (h : l.filterM p = .ok l') : ∀ a ∈ l', a ∈ l := fun a ha => (kept_of_filterM h a ha).1

theorem mem_of_joinFrame {kind : JoinKind} {right : Expr} {on : Option Expr} {frame : Frame}
    {rights out : List Frame} (h : joinFrame tables kind right on σ frame rights = .ok out) :
    ∀ f ∈ out, ∃ g, f = frame ++ g ∧ (g ∈ rights ∨ g = nullFrame (some right)) := by
  intro f hf
  obtain ⟨matched, hm, h⟩ := bind_eq_ok.mp h
  split at h
  · cases h
    exact ⟨_, List.mem_singleton.mp hf, .inr rfl⟩
  · cases h
    obtain ⟨g, hg, rfl⟩ := List.mem_map.mp hf
    exact ⟨g, rfl, .inl (mem_of_filterM hm g hg)⟩

/-- The frames of a source have a row for each alias that it declares. -/
theorem aliases_of_source : (e : Expr) → ∀ {σ : Scope} {frames : List Frame},
    source tables e σ = .ok frames → ∀ f ∈ frames, f.map (·.1) = e.declares
  | .table t, σ, frames, h, f, hf => by
    rw [source] at h
    split at h
    · cases h
      obtain ⟨row, -, rfl⟩ := List.mem_map.mp hf
      rfl
    · cases h
  | .select s, σ, frames, h, f, hf => by
    rw [source_select] at h
    obtain ⟨rows, -, h⟩ := bind_eq_ok.mp h
    cases h
    obtain ⟨row, -, rfl⟩ := List.mem_map.mp hf
    rfl
  | .setOp rel kind left right, σ, frames, h, f, hf => by
    rw [source] at h
    obtain ⟨rows, -, h⟩ := bind_eq_ok.mp h
    obtain ⟨rows', -, h⟩ := bind_eq_ok.mp h
    cases h
    obtain ⟨row, -, rfl⟩ := List.mem_map.mp hf
    rfl
  | .join kind left right on, σ, frames, h, f, hf => by
    have joined : ∀ {σ' : Scope} {frame : Frame} {rights out : List Frame},
        frame.map (·.1) = left.declares → source tables right σ' = .ok rights →
        joinFrame tables kind right on σ frame rights = .ok out →
        ∀ f ∈ out, f.map (·.1) = (Expr.join kind left right on).declares := by
      intro σ' frame rights out hframe hrights hout f hf
      obtain ⟨g, rfl, hg⟩ := mem_of_joinFrame hout f hf
      rw [List.map_append, hframe, Expr.declares]
      rcases hg with hg | rfl
      · rw [aliases_of_source right hrights g hg]
      · simp [nullFrame, Function.comp_def]
    cases apply : kind.isApply with
    | true =>
      rw [source_apply apply] at h
      obtain ⟨lefts, hl, h⟩ := bind_eq_ok.mp h
      obtain ⟨outs, ho, h⟩ := bind_eq_ok.mp h
      cases h
      obtain ⟨out, hout, hf⟩ := List.mem_flatten.mp hf
      obtain ⟨frame, hframe, run⟩ := exists_of_forall₂_right (forall₂_of_mapM ho) out hout
      obtain ⟨rights, hr, run⟩ := bind_eq_ok.mp run
      exact joined (aliases_of_source left hl frame hframe) hr run f hf
    | false =>
      rw [source_join apply] at h
      obtain ⟨lefts, hl, h⟩ := bind_eq_ok.mp h
      obtain ⟨rights, hr, h⟩ := bind_eq_ok.mp h
      obtain ⟨outs, ho, h⟩ := bind_eq_ok.mp h
      cases h
      obtain ⟨out, hout, hf⟩ := List.mem_flatten.mp hf
      obtain ⟨frame, hframe, run⟩ := exists_of_forall₂_right (forall₂_of_mapM ho) out hout
      exact joined (aliases_of_source left hl frame hframe) hr run f hf
  | .const _, _, _, h, _, _ | .param _, _, _, h, _, _ | .member _ _, _, _, h, _, _
  | .binary _ _ _, _, _, h, _, _ | .unary _ _, _, _, h, _, _ | .cond _ _ _, _, _, h, _, _
  | .call _ _, _, _, h, _, _ | .construct _ _, _, _, h, _, _ | .lambda _, _, _, h, _, _
  | .operator _, _, _, h, _, _ | .column _, _, _, h, _, _ | .aggregate _ _ _, _, _, h, _, _
  | .groupAggregate _ _ _ _, _, _, h, _, _ | .scalar _, _, _, h, _, _ | .existsIn _, _, _, h, _, _
  | .inSelect _ _, _, _, h, _, _ | .inValues _ _, _, _, h, _, _ | .isNull _, _, _, h, _, _
  | .between _ _ _, _, _, h, _, _ | .rowNumber _, _, _, h, _, _ | .projection _, _, _, h, _, _
  | .clientJoin _ _ _, _, _, h, _, _ | .entity _ _, _, _, h, _, _ | .outerJoined _ _, _, _, h, _, _
  | .grouping _ _, _, _, h, _, _ | .command _, _, _, h, _, _ => by simp [source] at h

theorem aliases_of_frames {frames : List Frame} (h : Eval.frames tables s σ = .ok frames) :
    ∀ f ∈ frames, f.map (·.1) = s.sourceAliases := by
  rw [Eval.frames] at h
  rw [Select.sourceAliases]
  cases hs : s.source with
  | none =>
    rw [hs] at h
    cases h
    simp
  | some e =>
    rw [hs] at h
    exact aliases_of_source e h

def rowIn (tables : Tables) (σ : Scope) (columns : List (ColumnDecl Expr)) (f : Frame) : Row :=
  columns.map fun d => (d.name, valueIn tables σ d.expr f)

theorem produce_eq_ok {τ : Scope} {v : Expr → Value}
    (columns : ∀ d ∈ s.columns, scalar tables d.expr τ = .ok (v d.expr))
    (orders : ∀ o ∈ s.orderBy, scalar tables o.expr τ = .ok (v o.expr)) :
    produce s (fun e _ => scalar tables e) τ
      = .ok ⟨s.columns.map fun d => (d.name, v d.expr), s.orderBy.map (v ·.expr)⟩ := by
  rw [produce_eq, mapM_eq_ok (g := fun d => (d.name, v d.expr)) fun d hd => by
    rw [columns d hd]
    rfl, mapM_eq_ok (g := fun o => v o.expr) orders]
  rfl

theorem ok_of_produce {τ : Scope} {p : Produced}
    (h : produce s (fun e _ => scalar tables e) τ = .ok p) :
    (∀ d ∈ s.columns, ∃ v, scalar tables d.expr τ = .ok v)
      ∧ ∀ o ∈ s.orderBy, ∃ v, scalar tables o.expr τ = .ok v := by
  rw [produce_eq] at h
  obtain ⟨row, hrow, h⟩ := bind_eq_ok.mp h
  obtain ⟨keys, hkeys, -⟩ := bind_eq_ok.mp h
  refine ⟨fun d hd => ?_, ok_of_mapM hkeys⟩
  obtain ⟨_, run⟩ := ok_of_mapM hrow d hd
  obtain ⟨v, hv, -⟩ := bind_eq_ok.mp run
  exact ⟨v, hv⟩

def Known (tables : Tables) (s : Select Expr) (σ : Scope) (frames : List Frame) : Prop :=
  ∀ f ∈ frames,
    (∀ d ∈ s.columns, scalar tables d.expr (σ.extend f) = .ok (valueIn tables σ d.expr f))
    ∧ ∀ o ∈ s.orderBy, scalar tables o.expr (σ.extend f) = .ok (valueIn tables σ o.expr f)

namespace Select.Flat

/-- The rows of a flat select are those of the frames that it keeps, in its order. -/
theorem select_eq_ok (flat : s.Flat) {σ₁ : Scope} {frames : List Frame}
    (hframes : Eval.frames tables s σ₁ = .ok frames) (keep : Frame → Bool)
    (hkeep : ∀ f ∈ frames, meets tables s.filter (σ₁.extend f) = .ok (keep f))
    (columns : ∀ f ∈ frames, ∀ d ∈ s.columns,
      scalar tables d.expr (σ₁.extend f) = .ok (valueIn tables σ d.expr f))
    (orders : ∀ f ∈ frames, ∀ o ∈ s.orderBy,
      scalar tables o.expr (σ₁.extend f) = .ok (valueIn tables σ o.expr f))
    (typed : ∀ o ∈ s.orderBy, ∃ type : KeyType, ∀ f ∈ frames,
      type.admits (valueIn tables σ o.expr f)) :
    select tables s σ₁
      = .ok (((s.ordered tables σ frames).filter keep).map (rowIn tables σ s.columns)) := by
  have produced : (frames.filter keep).mapM
        (fun f => produce s (fun e _ => scalar tables e) (σ₁.extend f))
      = .ok ((frames.filter keep).map fun f =>
        ⟨rowIn tables σ s.columns f, s.orderBy.map (valueIn tables σ ·.expr f)⟩) := by
    refine mapM_eq_ok fun f hf => ?_
    have hf := List.mem_of_mem_filter hf
    exact produce_eq_ok (v := fun e => valueIn tables σ e f) (columns f hf) (orders f hf)
  have typed : ∀ o ∈ s.orderBy, ∃ type : KeyType, ∀ f ∈ frames.filter keep,
      type.admits (valueIn tables σ o.expr f) := by
    intro o ho
    obtain ⟨type, admits⟩ := typed o ho
    exact ⟨type, fun f hf => admits f (List.mem_of_mem_filter hf)⟩
  rw [flat.select_eq, hframes, ok_bind, filterM_eq_ok hkeep, ok_bind, produced, ok_bind,
    arrange_map flat.distinct typed, ordered_filter]
  rfl

/-- Where a flat select without a filter is evaluated, so are its source and all its clauses. -/
theorem of_select (flat : s.Flat) (unfiltered : s.filter = none) {rows : List Row}
    (h : select tables s σ = .ok rows) :
    ∃ frames, Eval.frames tables s σ = .ok frames ∧ Known tables s σ frames := by
  rw [flat.select_eq] at h
  obtain ⟨frames, hframes, h⟩ := bind_eq_ok.mp h
  obtain ⟨kept, hkept, h⟩ := bind_eq_ok.mp h
  obtain ⟨produced, hproduced, -⟩ := bind_eq_ok.mp h
  have all : kept = frames := by
    rw [eq_filter_of_filterM (q := fun _ => true) hkept fun f _ b hb => by
      rw [unfiltered] at hb
      exact Except.ok.inj hb]
    simp
  subst all
  refine ⟨kept, hframes, fun f hf => ?_⟩
  obtain ⟨p, hp⟩ := ok_of_mapM hproduced f hf
  obtain ⟨columns, orders⟩ := ok_of_produce hp
  refine ⟨fun d hd => ?_, fun o ho => ?_⟩
  · obtain ⟨v, hv⟩ := columns d hd
    exact scalar_eq_valueIn hv
  · obtain ⟨v, hv⟩ := orders o ho
    exact scalar_eq_valueIn hv

end Select.Flat

theorem get?_rowIn {columns : List (ColumnDecl Expr)} (names : (columns.map (·.name)).Nodup)
    (f : Frame) {d : ColumnDecl Expr} (hd : d ∈ columns) :
    (rowIn tables σ columns f).get? d.name = some (valueIn tables σ d.expr f) :=
  Row.get?_of_mem (x := (d.name, valueIn tables σ d.expr f)) (by simpa [rowIn, Function.comp_def] using names)
    (List.mem_map.mpr ⟨d, hd, rfl⟩)

/-- A row of a select in place of the rows of its source. -/
theorem Split.viewing_rows {affinity : Affinity} {frames : List Frame}
    (hframes : Eval.frames tables s σ = .ok frames) {f : Frame} (hf : f ∈ frames) (row : Row) (σ₁ : Scope) :
    ((Split.mk affinity s.rel s.sourceAliases).viewing (σ₁.extend f) row).rows
      (σ₁.extend f).rows (σ₁.extend [(s.rel, some row)]).rows := by
  refine ⟨fun _ _ => rfl, by simp [Scope.extend], fun a ha => ?_⟩
  have apart : ∀ x ∈ f.reverse, x.1 ≠ a := by
    rintro x hx rfl
    refine ha.1 ?_
    rw [← aliases_of_frames hframes f hf]
    exact List.mem_map_of_mem (List.mem_reverse.mp hx)
  have other : ∀ x ∈ [(s.rel, some row)], x.1 ≠ a := by simpa using ha.2.symm
  rw [Scope.extend, Scope.extend, Split.lookup_append_of_forall apart, List.reverse_singleton,
    Split.lookup_append_of_forall other]

theorem Expr.not_rowNumber {D R : Alias → Prop} {e : Expr} (tame : (Part.expr e).Every (Part.Tame D R)) :
    ∀ orders, e ≠ .rowNumber orders := by
  rintro orders rfl
  exact tame.here

def ColumnDecl.Single (d : ColumnDecl Expr) : Prop :=
  (Part.expr d.expr).aggregates = false ∧ ∀ orders, d.expr ≠ .rowNumber orders

variable {rel : Alias} {columns : List (ColumnDecl Expr)} {base : Expr}

namespace Select

theorem flat_plain (single : ∀ d ∈ columns, d.Single) {filter : Option Expr}
    (unaggregated : ∀ e ∈ filter, (Part.expr e).aggregates = false) :
    (plain rel columns (some base) filter).Flat where
  groupBy := rfl
  aggregates := by
    have none : columns.any (fun d => (Part.expr d.expr).aggregates) = false := by
      rw [List.any_eq_false]
      exact fun d hd => by simp [(single d hd).1]
    have test : filter.any (fun e => (Part.expr e).aggregates) = false := by
      cases filter with
      | none => rfl
      | some e => exact unaggregated e rfl
    simp [hasAggregates, plain, none, test]
  distinct := rfl
  skip := rfl
  take := rfl
  unnumbered := Correspondence.numbering?_eq_none fun d hd => (single d hd).2

def Computed (tables : Tables) (columns : List (ColumnDecl Expr)) (σ : Scope) (frames : List Frame) :
    Prop :=
  ∀ f ∈ frames, ∀ d ∈ columns,
    scalar tables d.expr (σ.extend f) = .ok (valueIn tables σ d.expr f)

theorem arrange_plain {filter : Option Expr} (frames : List Frame) :
    arrange (plain rel columns (some base) filter) (frames.map fun f => ⟨rowIn tables σ columns f, []⟩)
      = frames.map (rowIn tables σ columns) := by
  have unordered : (plain rel columns (some base) filter).ordered tables σ frames = frames := by
    rw [ordered]
    exact sortWith_eq_self_of_tied fun _ _ _ _ => rfl
  have rows : arrange (plain rel columns (some base) filter)
        (frames.map fun f => ⟨rowIn tables σ columns f, []⟩)
      = ((plain rel columns (some base) filter).ordered tables σ frames).map (rowIn tables σ columns) :=
    arrange_map rfl (by simp [plain])
  rw [rows, unordered]

/-- There is a row for each frame of the source that passes the filter, and the columns have values there. -/
theorem of_filtered_rows (single : ∀ d ∈ columns, d.Single) {filter : Option Expr}
    (unaggregated : ∀ e ∈ filter, (Part.expr e).aggregates = false) {rows : List Row}
    (h : select tables (plain rel columns (some base) filter) σ = .ok rows) :
    ∃ frames kept, Eval.source tables base σ = .ok frames
      ∧ frames.filterM (fun f => meets tables filter (σ.extend f)) = .ok kept
      ∧ Computed tables columns σ kept ∧ rows = kept.map (rowIn tables σ columns) := by
  rw [(flat_plain single unaggregated).select_eq] at h
  obtain ⟨frames, hframes, h⟩ := bind_eq_ok.mp h
  obtain ⟨kept, hkept, h⟩ := bind_eq_ok.mp h
  obtain ⟨produced, hproduced, h⟩ := bind_eq_ok.mp h
  have computed : Computed tables columns σ kept := by
    intro f hf d hd
    obtain ⟨p, hp⟩ := ok_of_mapM hproduced f hf
    obtain ⟨v, hv⟩ := (ok_of_produce hp).1 d hd
    exact scalar_eq_valueIn hv
  have made : kept.mapM (fun f => produce (plain rel columns (some base) filter) (fun e _ => scalar tables e)
        (σ.extend f)) = .ok (kept.map fun f => ⟨rowIn tables σ columns f, []⟩) :=
    mapM_eq_ok fun f hf => produce_eq_ok (v := fun e => valueIn tables σ e f) (computed f hf) (by simp [plain])
  obtain rfl := Except.ok.inj (hproduced.symm.trans made)
  exact ⟨frames, kept, hframes, hkept, computed, (Except.ok.inj h).symm.trans (arrange_plain kept)⟩

/-- There is a row for each frame of the source. -/
theorem plain_rows (single : ∀ d ∈ columns, d.Single) {frames : List Frame}
    (hframes : Eval.source tables base σ = .ok frames) (computed : Computed tables columns σ frames) :
    select tables (plain rel columns (some base) none) σ
      = .ok (frames.map (rowIn tables σ columns)) := by
  have made : frames.mapM (fun f => produce (plain rel columns (some base) none) (fun e _ => scalar tables e)
        (σ.extend f)) = .ok (frames.map fun f => ⟨rowIn tables σ columns f, []⟩) :=
    mapM_eq_ok fun f hf => produce_eq_ok (v := fun e => valueIn tables σ e f) (computed f hf) (by simp [plain])
  have source : Eval.frames tables (plain rel columns (some base) none) σ = .ok frames := hframes
  have all : frames.filterM (fun f => meets tables (plain rel columns (some base) none).filter (σ.extend f))
      = .ok frames := filterM_meets_none frames _
  rw [(flat_plain single (by simp)).select_eq, source, ok_bind, all, ok_bind, made, ok_bind, arrange_plain]
  rfl

theorem of_plain_rows (single : ∀ d ∈ columns, d.Single) {rows : List Row}
    (h : select tables (plain rel columns (some base) none) σ = .ok rows) :
    ∃ frames, Eval.source tables base σ = .ok frames ∧ Computed tables columns σ frames
      ∧ rows = frames.map (rowIn tables σ columns) := by
  obtain ⟨frames, kept, hframes, hkept, computed, rfl⟩ := of_filtered_rows single (by simp) h
  obtain rfl := Except.ok.inj (hkept.symm.trans (filterM_meets_none frames _))
  exact ⟨_, hframes, computed, rfl⟩

end Select

end ObjectQuery
