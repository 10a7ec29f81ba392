import ObjectQuery.Proofs.StraightenedRows
import ObjectQuery.Proofs.TidyOrderings
import ObjectQuery.Sample

/-!
Moving orderings up a cascade of selects: each is of one row, of a table, or of the next one, and its
clauses compute values from what its source shows. On the way up the rows below are those that they
were, in an order of their own, under columns that may be more than they were; what was gathered puts
them back in order. The last select orders by all of it, so that it has the rows that it had.
-/

namespace ObjectQuery

open Eval Orderings

namespace Select

/-- A select of one row, of a table, or of another such select; all of them have the property. -/
inductive Cascade (P : Select Expr → Prop) : Select Expr → Prop
  | row {s : Select Expr} : s.source = none → P s → Cascade P s
  | table {s : Select Expr} {t : Table} : s.source = some (.table t) → P s → Cascade P s
  | above {s below : Select Expr} : s.source = some (.select below) → P s → Cascade P below → Cascade P s

/-- A select of columns with different names that computes its clauses from what its source shows, and
neither groups nor reverses nor drops rows. -/
structure Linear (s : Select Expr) : Prop where
  distinct : s.distinct = false
  groupBy : s.groupBy = []
  reversed : s.reversed = false
  names : s.columnNames.Nodup
  computes : ∀ e ∈ s.clauses ++ s.skip.toList ++ s.take.toList,
    (Part.expr e).Every (Part.Computes (· ∈ s.sourceAliases))

def pages (tables : Tables) (s : Select Expr) (env : Scope) : Result (Int × Option Int) := do
  let count (e : Expr) : Result Int := do (← scalar tables e env).asInt
  let skip ← match s.skip with
    | none => pure 0
    | some e => count e
  let take ← s.take.mapM count
  return (skip, take)

def keptFrames (tables : Tables) (s : Select Expr) (env : Scope) : Result (List Frame) := do
  filtered s (fun e _ => scalar tables e) env (← frames tables s env)

/-- Each ordering key of the select is null or of one type in the frames that it keeps. -/
def KeysOfOneType (tables : Tables) (s : Select Expr) (env : Scope) : Prop :=
  ∀ kept, keptFrames tables s env = .ok kept → ∀ o ∈ s.orderBy, ∃ type : KeyType,
    ∀ f ∈ kept, type.admits (valueIn tables env o.expr f)

instance (tables : Tables) (s : Select Expr) (env : Scope) : Decidable (s.KeysOfOneType tables env) :=
  decidable_of_iff (∀ kept ∈ (keptFrames tables s env).toOption, ∀ o ∈ s.orderBy, ∃ type : KeyType,
    ∀ f ∈ kept, type.admits (valueIn tables env o.expr f)) <| by
      rw [KeysOfOneType]
      cases keptFrames tables s env <;> simp [Except.toOption]

namespace Linear

variable {tables : Tables} {env : Scope} {s : Select Expr}

theorem column (h : s.Linear) {d : ColumnDecl Expr} (hd : d ∈ s.columns) :
    (Part.expr d.expr).Every (Part.Computes (· ∈ s.sourceAliases)) := by
  refine h.computes _ ?_
  simp only [clauses, List.mem_append, List.mem_map]
  exact .inl (.inl (.inr ⟨d, hd, rfl⟩))

theorem order (h : s.Linear) {o : Order Expr} (ho : o ∈ s.orderBy) :
    (Part.expr o.expr).Every (Part.Computes (· ∈ s.sourceAliases)) := by
  refine h.computes _ ?_
  simp only [clauses, List.mem_append, List.mem_map]
  exact .inl (.inl (.inl (.inl (.inr ⟨o, ho, rfl⟩))))

theorem filter (h : s.Linear) {e : Expr} (he : s.filter = some e) :
    (Part.expr e).Every (Part.Computes (· ∈ s.sourceAliases)) :=
  h.computes _ (by simp [clauses, he])

theorem aggregates (h : s.Linear) : s.hasAggregates = false := by
  rw [hasAggregates_eq, List.any_eq_false]
  intro e he
  have computed := h.computes e (by
    simp only [computing, clauses, List.mem_append] at he ⊢
    grind)
  simp [computed.unaggregated]

theorem unnumbered (h : s.Linear) : numbering? s = none :=
  Correspondence.numbering?_eq_none fun d hd orders rowNumber => by
    have computed := (h.column hd).here
    rw [rowNumber] at computed
    exact computed

theorem paged_eq (s : Select Expr) (rows : List Row) : (do
      let rows ← skipped s (fun e _ => scalar tables e) env rows
      taken s (fun e _ => scalar tables e) env rows) = (do
      let p ← pages tables s env
      return page p.1 p.2 rows) := by
  simp only [skipped_eq, taken_eq, pages]
  cases s.skip with
  | none =>
    cases s.take with
    | none => rfl
    | some e =>
      simp only [Option.mapM_some, map_eq_pure_bind, bind_assoc, pure_bind]
      rfl
  | some e =>
    simp only [bind_assoc]
    refine bind_congr fun v => bind_congr fun n => ?_
    cases s.take with
    | none => rfl
    | some e =>
      simp only [Option.mapM_some, map_eq_pure_bind, bind_assoc, pure_bind]
      rfl

theorem select_eq (h : s.Linear) : select tables s env = (do
    let kept ← keptFrames tables s env
    let produced ← kept.mapM fun f => produce s (fun e _ => scalar tables e) (env.extend f)
    let p ← pages tables s env
    return page p.1 p.2 (arrange s produced)) := by
  have ungrouped : ∀ kept, scopes s (fun e _ => scalar tables e) env kept = .ok (kept.map env.extend) := by
    intro kept
    rw [scopes_eq, h.groupBy, h.aggregates]
    rfl
  rw [Eval.select_eq, keptFrames, Eval.frames, bind_assoc]
  refine bind_congr fun frames => bind_congr fun kept => ?_
  rw [ungrouped, ok_bind, numbered, h.unnumbered]
  simp only [ok_bind, List.mapM_map, ← paged_eq s]
  rfl

/-- The rows of the frames that it keeps, in its order, on its page. -/
theorem select_of_known (h : s.Linear) {kept : List Frame} (hkept : keptFrames tables s env = .ok kept)
    (known : Known tables s env kept)
    (typed : ∀ o ∈ s.orderBy, ∃ type : KeyType, ∀ f ∈ kept, type.admits (valueIn tables env o.expr f)) :
    select tables s env = (do
      let p ← pages tables s env
      return page p.1 p.2 ((sorted tables env s.orderBy kept).map
        (rowIn tables env s.columns))) := by
  have produced : kept.mapM (fun f => produce s (fun e _ => scalar tables e) (env.extend f))
      = .ok (kept.map fun f => ⟨rowIn tables env s.columns f, s.orderBy.map (valueIn tables env ·.expr f)⟩) :=
    mapM_eq_ok fun f hf => produce_eq_ok (v := fun e => valueIn tables env e f) (known f hf).1 (known f hf).2
  have inOrder : s.ordered tables env kept
      = sorted tables env s.orderBy kept := by
    rw [ordered, h.reversed]
    rfl
  rw [h.select_eq, hkept, ok_bind, produced, ok_bind, arrange_map h.distinct typed, inOrder]

/-- What is known where the select has rows. -/
theorem of_select (h : s.Linear) {rows : List Row} (hrows : select tables s env = .ok rows) :
    ∃ frames kept p, Eval.frames tables s env = .ok frames
      ∧ filtered s (fun e _ => scalar tables e) env frames = .ok kept
      ∧ Known tables s env kept ∧ pages tables s env = .ok p := by
  rw [h.select_eq, keptFrames, bind_assoc] at hrows
  obtain ⟨frames, hframes, hrows⟩ := bind_eq_ok.mp hrows
  obtain ⟨kept, hkept, hrows⟩ := bind_eq_ok.mp hrows
  obtain ⟨produced, hproduced, hrows⟩ := bind_eq_ok.mp hrows
  obtain ⟨p, hp, -⟩ := bind_eq_ok.mp hrows
  refine ⟨frames, kept, p, hframes, hkept, fun f hf => ?_, hp⟩
  obtain ⟨_, run⟩ := ok_of_mapM hproduced f hf
  obtain ⟨columns, orders⟩ := ok_of_produce run
  exact ⟨fun d hd => scalar_eq_valueIn (columns d hd).choose_spec,
    fun o ho => scalar_eq_valueIn (orders o ho).choose_spec⟩

end Linear

end Select

namespace Orderings

variable {R : Alias → Prop}

/-- A computed value passes no ordering on. -/
theorem hoist_computed {e : Expr} (h : (Part.expr e).Every (Part.Computes R)) (outermost : Bool)
    (gathered : List (Order Expr)) : (e.hoist outermost).run gathered = (e, gathered) := by
  have kept : ∀ p : Part, p.Every (Part.Computes R) → ∀ e, p = .expr e →
      (Outcomes.ofState (List (Order Expr))).Keeps (· = gathered) (e = ·) (e.hoist outermost) := by
    intro p h
    induction h with
    | @node p here _ ih =>
      rintro e rfl
      have parts : ∀ c, Part.expr c ∈ (Part.expr e).parts →
          (Outcomes.ofState (List (Order Expr))).Keeps (· = gathered) (c = ·) (c.hoist outermost) :=
        fun c hc => ih _ hc c rfl
      have selects : ∀ s, Part.select s ∈ (Part.expr e).parts → (Outcomes.ofState (List (Order Expr))).Keeps
          (· = gathered) (s = ·) (s.hoist outermost) := fun s hs => by
        obtain ⟨c, hc⟩ := here.exprs _ hs
        cases hc
      have projections : ∀ q, Part.projection q ∈ (Part.expr e).parts →
          (Outcomes.ofState (List (Order Expr))).Keeps (· = gathered) (q = ·) (q.hoist outermost) :=
        fun q hq => by
          obtain ⟨c, hc⟩ := here.exprs _ hq
          cases hc
      have walked := Walker.Keeps.related (W := walker outermost) parts selects projections
      have step : e.hoist outermost = e.traverse (fun c _ => c.hoist outermost)
          (fun s _ => s.hoist outermost) fun p _ => p.hoist outermost := by
        cases e <;> first | exact here.elim | (rw [Expr.hoist.eq_3 _ _ (by simp) (by simp)]; rfl)
      rw [step]
      refine walked.mono fun e' shaped => shaped.eq ?_
      rintro c rfl
      exact here.elim
  obtain ⟨same, still⟩ := kept _ h e rfl gathered _ _ rfl rfl
  exact Prod.ext same.symm still

end Orderings

namespace Orderings

variable {tables : Tables} {env : Scope} {gathered : List (Order Expr)} {narrow : Frame → Frame}
  {wide frames : List Frame} {R : Alias → Prop}

variable {s : Select Expr} {source : Option Expr}

structure Source (tables : Tables) (env : Scope) (s : Select Expr) (source : Option Expr)
    (gathered : List (Order Expr)) : Prop where
  aliases : Select.sourceAliases { s with source } = s.sourceAliases
  keys : ∀ o ∈ gathered, ∃ c, o.expr = .column c ∧ c.rel ∈ s.sourceAliases
  ordered : ∀ e ∈ source, ∀ q ∈ (Part.expr e).selects, q.orderBy = [] ∨ q.skip.isSome ∨ q.take.isSome
  frames : ∀ fs, Eval.frames tables s env = .ok fs →
    ∃ wide narrow, Eval.frames tables { s with source } env = .ok wide ∧ Straightens tables env gathered narrow wide fs

/-- How a select comes to its rows once it is settled: from frames that what was gathered puts in the
order that the select gave them, on the same page. -/
structure Settles (tables : Tables) (env : Scope) (gathered : List (Order Expr)) (s : Select Expr)
    (rows : List Row) (narrow : Frame → Frame) (wide own items : List Frame) (skip : Int) (take : Option Int) :
    Prop where
  straight : Straightens tables env gathered narrow wide own
  same : ∀ f ∈ wide, ∀ d ∈ s.columns, valueIn tables env d.expr f = valueIn tables env d.expr (narrow f)
  rows_eq : rows = Select.page skip take (own.map (rowIn tables env s.columns))
  sub : ∀ f ∈ items, f ∈ wide
  sorted : sorted tables env gathered items
    = Select.page skip take (sorted tables env gathered wide)

def passedOn (outermost : Bool) (s : Select Expr) (gathered : List (Order Expr)) :
    List (Order Expr) × List (ColumnDecl Expr) :=
  if outermost then ([], s.columns)
  else through s.rel s.sourceAliases (inFront s.orderBy gathered) s.columns

def settled (outermost : Bool) (s : Select Expr) (gathered : List (Order Expr)) : Select Expr :=
  { s with
    columns := (passedOn outermost s gathered).2
    orderBy := if outermost || s.take.isSome || s.skip.isSome then inFront s.orderBy gathered else []
    reversed := false }

theorem mem_settled {outermost : Bool} {o : Order Expr} (h : o ∈ (settled outermost s gathered).orderBy) :
    o ∈ inFront s.orderBy gathered := by
  rw [settled] at h
  simp only at h
  split at h
  · exact h
  · cases h

/-- A page of sorted frames is in order. -/
theorem sorted_page (skip : Int) (take : Option Int) (frames : List Frame) :
    sorted tables env gathered (Select.page skip take (sorted tables env gathered frames))
      = Select.page skip take (sorted tables env gathered frames) :=
  sortWith_of_inOrder ((inOrder_sortWith frames).sublist (Select.page_sublist _ _ _))

/-- A select that orders its frames has them in order; one that does not has them all. -/
theorem sorted_settled {outermost : Bool} {skip : Int} {take : Option Int}
    (pages : Select.pages tables s env = .ok (skip, take)) (frames : List Frame) :
    sorted tables env (inFront s.orderBy gathered)
        (Select.page skip take (sorted tables env (settled outermost { s with source } gathered).orderBy frames))
      = Select.page skip take (sorted tables env (inFront s.orderBy gathered) frames) := by
  cases paged : outermost || s.take.isSome || s.skip.isSome with
  | true =>
    have ordered : (settled outermost { s with source } gathered).orderBy = inFront s.orderBy gathered := if_pos paged
    rw [ordered, sorted_page]
  | false =>
    have unordered : (settled outermost { s with source } gathered).orderBy = [] := if_neg (by simp [paged])
    simp only [Bool.or_eq_false_iff, Option.isSome_eq_false_iff, Option.isNone_iff_eq_none] at paged
    have everything : (0, none) = (skip, take) := by
      rw [Select.pages, paged.1.2, paged.2] at pages
      exact Except.ok.inj pages
    cases everything
    have all : sorted tables env [] frames = frames := Stack.sortWith_nil frames
    rw [unordered, all]
    simp [Select.page]

theorem settle_linear (linear : s.Linear) (outermost : Bool) (gathered : List (Order Expr)) :
    (settle outermost s).run gathered
      = (settled outermost s gathered, inFront (passedOn outermost s gathered).1 []) := by
  have run : (settle outermost s).run gathered = ({ s with
      columns := (passedOn outermost s gathered).2
      orderBy := if (outermost || s.take.isSome || s.skip.isSome) && !s.hasAggregates then inFront s.orderBy gathered
        else if outermost || s.take.isSome || s.skip.isSome then s.orderBy else []
      reversed := false }, inFront (passedOn outermost s gathered).1 []) := by
    have distinct := linear.distinct
    have groupBy := linear.groupBy
    have reversed := linear.reversed
    clear linear
    obtain ⟨rel, columns, source, filter, orderBy, groupBy, distinct, skip, take, reversed⟩ := s
    simp only at distinct groupBy reversed
    subst distinct groupBy reversed
    cases outermost <;> cases skip <;> cases take <;> rfl
  rw [run, settled, linear.aggregates]
  cases outermost || s.take.isSome || s.skip.isSome <;> rfl

namespace Source

variable (h : Source tables env s source gathered) (linear : s.Linear)
include h linear

theorem linear_source : Select.Linear { s with source } where
  distinct := linear.distinct
  groupBy := linear.groupBy
  reversed := linear.reversed
  names := linear.names
  computes := by
    rw [h.aliases]
    exact linear.computes

theorem computes : ∀ o ∈ inFront s.orderBy gathered,
    (Part.expr o.expr).Every (Part.Computes (· ∈ s.sourceAliases)) := by
  intro o ho
  rcases List.mem_append.mp (mem_of_mem_inFront ho) with ho | ho
  · exact linear.order ho
  · obtain ⟨c, expr, inside⟩ := h.keys o ho
    rw [expr]
    exact .node inside (by simp [Part.parts])

/-- New columns compute orderings; those that are passed on read them. -/
theorem passedOn_spec (outermost : Bool) : ∃ extra,
    (passedOn outermost { s with source } gathered).2 = s.columns ++ extra
      ∧ (∀ d ∈ extra, ∃ o ∈ inFront s.orderBy gathered, d.expr = o.expr)
      ∧ ((s.columns ++ extra).map (·.name)).Nodup
      ∧ (outermost = false → ReadFrom s.rel (s.columns ++ extra)
        (passedOn outermost { s with source } gathered).1 (inFront s.orderBy gathered)) := by
  cases outermost with
  | true => exact ⟨[], (List.append_nil _).symm, by simp, by rw [List.append_nil]; exact linear.names, by simp⟩
  | false =>
    have computes := h.computes linear
    have inside : ∀ o ∈ inFront s.orderBy gathered, o.expr.isColumnOutside s.sourceAliases = false := by
      intro o ho
      have computed := (computes o ho).here
      cases he : o.expr with
      | column c =>
        rw [he] at computed
        have seen : c.rel ∈ s.sourceAliases := computed
        simp [Expr.isColumnOutside, seen]
      | _ => rfl
    obtain ⟨extra, all, origin, nodup, reads, -⟩ := through_spec s.rel inside
      (fun o ho => (computes o ho).mono fun _ here => here.exact) linear.names
    have passed : passedOn false { s with source } gathered
        = through s.rel s.sourceAliases (inFront s.orderBy gathered) s.columns := by
      rw [passedOn, h.aliases]
      rfl
    rw [passed]
    exact ⟨extra, all, origin, nodup, fun _ => reads⟩

theorem settled_linear (outermost : Bool) : (settled outermost { s with source } gathered).Linear := by
  obtain ⟨extra, all, origin, nodup, -⟩ := h.passedOn_spec linear outermost
  refine ⟨linear.distinct, linear.groupBy, rfl, ?_, fun e he => ?_⟩
  · rw [Select.columnNames, settled, all]
    exact nodup
  · have aliases : (settled outermost { s with source } gathered).sourceAliases = s.sourceAliases := h.aliases
    rw [aliases]
    simp only [settled, all, Select.clauses, List.mem_append, List.mem_map] at he
    have other := linear.computes e
    simp only [Select.clauses, List.mem_append, List.mem_map] at other
    rcases he with ((((he | ⟨o, ho, rfl⟩) | he) | ⟨d, hd | hd, rfl⟩) | he) | he
    · exact other (.inl (.inl (.inl (.inl (.inl he)))))
    · split at ho
      · exact h.computes linear o ho
      · cases ho
    · exact other (.inl (.inl (.inl (.inr he))))
    · exact linear.column hd
    · obtain ⟨o, ho, expr⟩ := origin d hd
      exact expr ▸ h.computes linear o ho
    · exact other (.inl (.inr he))
    · exact other (.inr he)

/-- The settled select keeps the frames that the select kept. -/
theorem kept {frames kept : List Frame} (hframes : Eval.frames tables s env = .ok frames)
    (hkept : filtered s (fun e _ => scalar tables e) env frames = .ok kept) (outermost : Bool) :
    ∃ wide narrow, Select.keptFrames tables (settled outermost { s with source } gathered) env = .ok wide
      ∧ Straightens tables env gathered narrow wide kept := by
  obtain ⟨all, narrow, hall, straight⟩ := h.frames frames hframes
  obtain ⟨wide, hwide, straight⟩ := straight.filtered (fun e he => linear.filter he) hkept
  have frames_eq : Eval.frames tables (settled outermost { s with source } gathered) env = .ok all := hall
  have filtered_eq : filtered (settled outermost { s with source } gathered) (fun e _ => scalar tables e) env all
      = .ok wide := by
    rw [Eval.filtered_eq] at hwide ⊢
    exact hwide
  refine ⟨wide, narrow, ?_, straight⟩
  rw [Select.keptFrames, frames_eq]
  exact filtered_eq

theorem settled_known {kept wide own : List Frame} {narrow : Frame → Frame}
    (straight : Straightens tables env gathered narrow wide kept)
    (front : Straightens tables env (inFront s.orderBy gathered) narrow wide own) (known : Known tables s env kept)
    (outermost : Bool) : Known tables (settled outermost { s with source } gathered) env wide := by
  refine fun f hf => ⟨fun d hd => ?_, fun o ho => front.known o (mem_settled ho) f hf⟩
  obtain ⟨extra, all, origin, -, -⟩ := h.passedOn_spec linear outermost
  rw [settled, all] at hd
  rcases List.mem_append.mp hd with hd | hd
  · exact (straight.valueIn_eq (linear.column hd) hf ((known _ (straight.narrow_mem hf)).1 d hd)).1
  · obtain ⟨o, ho, expr⟩ := origin d hd
    exact expr ▸ front.known o ho f hf

theorem settled_rows (typed : s.KeysOfOneType tables env) {rows : List Row}
    (hrows : select tables s env = .ok rows) (outermost : Bool) :
    ∃ narrow wide own items skip take,
      Settles tables env (inFront s.orderBy gathered) s rows narrow wide own items skip take
      ∧ select tables (settled outermost { s with source } gathered) env
        = .ok (items.map (rowIn tables env (passedOn outermost { s with source } gathered).2))
      ∧ (outermost = true → items = sorted tables env (inFront s.orderBy gathered) items) := by
  obtain ⟨frames, kept, ⟨skip, take⟩, hframes, hkept, known, hpages⟩ := linear.of_select hrows
  obtain ⟨wide, narrow, hwide, straight⟩ := h.kept linear hframes hkept outermost
  have keptFrames : Select.keptFrames tables s env = .ok kept := by
    rw [Select.keptFrames, hframes]
    exact hkept
  have types := typed kept keptFrames
  have front := straight.inFront (fun o ho => linear.order ho) (fun o ho f hf => (known f hf).2 o ho) types
  have rows_eq : rows = Select.page skip take ((sorted tables env s.orderBy kept).map (rowIn tables env s.columns)) := by
    rw [linear.select_of_known keptFrames known types, hpages] at hrows
    exact (Except.ok.inj hrows).symm
  have run := (h.settled_linear linear outermost).select_of_known hwide
    (h.settled_known linear straight front known outermost) fun o ho => front.typed o (mem_settled ho)
  have pages : Select.pages tables (settled outermost { s with source } gathered) env = .ok (skip, take) := hpages
  rw [pages, ok_bind, Select.page_map] at run
  refine ⟨narrow, wide, _, Select.page skip take (sorted tables env
    (settled outermost { s with source } gathered).orderBy wide), skip, take,
    ⟨front, fun f hf d hd => ?_, rows_eq, fun f hf => ?_, sorted_settled hpages wide⟩, run, ?_⟩
  · exact (straight.valueIn_eq (linear.column hd) hf ((known _ (straight.narrow_mem hf)).1 d hd)).2
  · exact mem_sortWith.mp ((Select.page_sublist _ _ _).mem hf)
  · rintro rfl
    exact (sorted_page skip take wide).symm

/-- Below the outermost select, the rows come out of order, with columns to put them in order by. -/
theorem straightens (typed : s.KeysOfOneType tables env) {rows : List Row}
    (hrows : select tables s env = .ok rows) :
    ∃ rows' narrow, select tables (settled false { s with source } gathered) env = .ok rows'
      ∧ Straightens tables env (inFront (passedOn false { s with source } gathered).1 []) narrow
        (rows'.map (rowFrame s.rel)) (rows.map (rowFrame s.rel)) := by
  obtain ⟨narrow, wide, own, items, skip, take, settles, run, -⟩ := h.settled_rows linear typed hrows false
  obtain ⟨extra, all, -, nodup, reads⟩ := h.passedOn_spec linear false
  refine ⟨_, firstColumns s.columns.length, run, ?_⟩
  rw [all, settles.rows_eq]
  exact settles.straight.pass nodup (reads rfl) settles.same settles.sub settles.sorted

/-- The outermost select has the rows that it had. -/
theorem select_eq (typed : s.KeysOfOneType tables env) {rows : List Row}
    (hrows : select tables s env = .ok rows) :
    select tables (settled true { s with source } gathered) env = .ok rows := by
  obtain ⟨narrow, wide, own, items, skip, take, settles, run, inOrder⟩ := h.settled_rows linear typed hrows true
  rw [run, settles.rows_eq, settles.straight.frames, List.map_map, Select.page_map, inOrder rfl, settles.sorted]
  refine congrArg Except.ok (List.map_congr_left fun f hf => ?_)
  have hf : f ∈ wide := mem_sortWith.mp ((Select.page_sublist _ _ _).mem hf)
  exact List.map_congr_left fun d hd => by rw [settles.same f hf d hd]

/-- Below the settled select, only selects that page are ordered. -/
theorem selects_tail (outermost : Bool) :
    ∀ q ∈ (Part.select (settled outermost { s with source } gathered)).selects.tail,
      q.orderBy = [] ∨ q.skip.isSome ∨ q.take.isSome := by
  intro q hq
  have computes := (h.settled_linear linear outermost).computes
  rw [Part.selects, Part.gather_eq] at hq
  obtain ⟨p, hp, hq⟩ := List.mem_flatMap.mp hq
  obtain ⟨e, he, rfl⟩ := List.mem_map.mp hp
  have split : e ∈ source ∨ e ∈ (settled outermost { s with source } gathered).clauses
      ++ (settled outermost { s with source } gathered).skip.toList
      ++ (settled outermost { s with source } gathered).take.toList := by
    simp only [Select.exprs, Select.clauses, settled, List.mem_append, Option.mem_toList] at he ⊢
    grind
  rcases split with he | he
  · exact h.ordered e he q hq
  · have none : q ∈ (Part.expr e).selects := hq
    rw [(computes e he).selects_eq] at none
    cases none

theorem selects (q : Select Expr) (hq : q ∈ (Part.select (settled false { s with source } gathered)).selects) :
    q.orderBy = [] ∨ q.skip.isSome ∨ q.take.isSome := by
  have tail := h.selects_tail linear false
  rw [Part.selects, Part.gather_eq] at hq tail
  rcases List.mem_cons.mp hq with rfl | hq
  · cases paged : s.take.isSome || s.skip.isSome with
    | true => exact .inr (Bool.or_eq_true _ _ ▸ paged : s.take.isSome ∨ s.skip.isSome).symm
    | false => exact .inl (if_neg (by simpa using paged))
  · exact tail q hq

theorem passed_keys : ∀ o ∈ inFront (passedOn false { s with source } gathered).1 [],
    ∃ c, o.expr = .column c ∧ c.rel = s.rel := by
  intro o ho
  obtain ⟨extra, -, -, -, reads⟩ := h.passedOn_spec linear false
  have ho : o ∈ (passedOn false { s with source } gathered).1 := by simpa using mem_of_mem_inFront ho
  obtain ⟨_, -, -, d, -, type, -, target⟩ := exists_of_forall₂_right (reads rfl).flip o ho
  exact ⟨_, target, rfl⟩

end Source

/-- The clauses of a select are walked in what state its source leaves. -/
theorem hoist_linear (linear : s.Linear) (below : (s.source.mapM (Expr.hoist false ·)).run [] = (source, gathered))
    (h : Source tables env s source gathered) (outermost : Bool) :
    (s.hoist outermost).run [] = (settled outermost { s with source } gathered,
      inFront (passedOn outermost { s with source } gathered).1 []) := by
  let Y := Yields.ofState (List (Order Expr))
  have clause : ∀ e ∈ s.clauses ++ s.skip.toList ++ s.take.toList,
      Y.gives gathered (e.hoist false) e gathered := fun e he =>
    hoist_computed (linear.computes e he) false gathered
  simp only [Select.clauses, List.mem_append, List.mem_map, Option.mem_toList] at clause
  have walk : Y.gives [] (s.traverse fun e _ => e.hoist false) { s with source } gathered := by
    simp only [Select.traverse, optionMapM_attach, List.mapM_subtype, List.unattach_attach]
    refine Y.bind below ?_
    refine Y.bind (Y.optionMapM_map (f := id) fun e he => clause e (by simp_all)) ?_
    refine Y.bind (Y.mapM_map (f := id) fun o ho => Y.bind (clause o.expr (by grind)) (Y.pure _ _)) ?_
    refine Y.bind (Y.mapM_map (f := id) fun e he => clause e (by simp_all)) ?_
    refine Y.bind (Y.optionMapM_map (f := id) fun e he => clause e (by simp_all)) ?_
    refine Y.bind (Y.optionMapM_map (f := id) fun e he => clause e (by simp_all)) ?_
    refine Y.bind (Y.mapM_map (f := id) fun d hd => Y.bind (clause d.expr (by grind)) (Y.pure _ _)) ?_
    simp only [List.map_id, Option.map_id, id]
    exact Y.pure _ _
  rw [Select.hoist]
  exact Y.bind walk (settle_linear (h.linear_source linear) outermost gathered)

theorem Source.refl (h : ∀ e ∈ s.source, (Part.expr e).selects = []) :
    Source tables env s s.source [] where
  aliases := rfl
  keys := by simp
  ordered := fun e he q hq => by
    rw [h e he] at hq
    cases hq
  frames := fun fs hfs => ⟨fs, id, hfs, .refl fs⟩

/-- The select above a settled one. -/
theorem Source.above {below : Select Expr} (above : s.source = some (.select below))
    (h : Source tables env below source gathered) (linear : below.Linear)
    (typed : below.KeysOfOneType tables env) :
    Source tables env s (some (.select (settled false { below with source } gathered)))
      (inFront (passedOn false { below with source } gathered).1 []) where
  aliases := by
    rw [Select.sourceAliases, Select.sourceAliases, above]
    rfl
  keys := by
    intro o ho
    obtain ⟨c, expr, rel⟩ := h.passed_keys linear o ho
    refine ⟨c, expr, ?_⟩
    rw [Select.sourceAliases, above, rel]
    exact List.mem_singleton.mpr rfl
  ordered := by
    intro e he q hq
    cases he
    obtain ⟨p, hp, hq⟩ := (Part.mem_gather.mp hq).resolve_left (by simp)
    obtain rfl := List.mem_singleton.mp (hp : p ∈ [_])
    exact h.selects linear q hq
  frames := by
    intro fs hfs
    have read : ∀ {b rows}, select tables b env = .ok rows →
        Eval.source tables (.select b) env = .ok (rows.map (rowFrame b.rel)) := by
      intro b rows hrows
      rw [Eval.source, hrows]
      rfl
    rw [Eval.frames, above] at hfs
    simp only [Eval.source] at hfs
    obtain ⟨rows, hrows, hfs⟩ := bind_eq_ok.mp hfs
    cases hfs
    obtain ⟨rows', narrow, hrows', straight⟩ := h.straightens linear typed hrows
    exact ⟨_, narrow, read hrows', straight⟩

/-- Along a cascade, every select reads what it read. -/
theorem source_cascade (h : s.Cascade fun q => q.Linear ∧ q.KeysOfOneType tables env) :
    ∃ source gathered, (s.source.mapM (Expr.hoist false ·)).run [] = (source, gathered)
      ∧ Source tables env s source gathered := by
  induction h with
  | @row s row _ =>
    refine ⟨s.source, [], ?_, .refl (by simp [row])⟩
    rw [row]
    rfl
  | @table s t table _ =>
    refine ⟨s.source, [], ?_, .refl ?_⟩
    · rw [table, Option.mapM_some, Expr.hoist] <;> first | rfl | simp
    · rw [table]
      intro e he
      cases he
      exact Part.gather_eq_nil rfl (by simp [Part.parts])
  | @above s below above _ cascade ih =>
    obtain ⟨source, gathered, run, h⟩ := ih
    obtain ⟨linear, typed⟩ : below.Linear ∧ below.KeysOfOneType tables env := by
      cases cascade <;> assumption
    refine ⟨_, _, ?_, .above above h linear typed⟩
    have walked := hoist_linear linear run h false
    rw [above, Option.mapM_some, Expr.hoist]
    · exact (Yields.ofState _).map some ((Yields.ofState _).bind walked ((Yields.ofState _).pure _ _))
    all_goals simp

end Orderings

/-- Moving the orderings of a cascade up leaves its rows, in their order, and leaves an ordering only to
the outermost select and to selects that page. -/
theorem Select.hoistOrderings_cascade {tables : Tables} {env : Scope} {s : Select Expr}
    (h : s.Cascade fun q => q.Linear ∧ q.KeysOfOneType tables env) :
    (∀ rows, select tables s env = .ok rows → select tables s.hoistOrderings env = .ok rows)
      ∧ ∀ q ∈ (Part.select s.hoistOrderings).selects.tail,
        q.orderBy = [] ∨ q.skip.isSome ∨ q.take.isSome := by
  obtain ⟨source, gathered, run, fed⟩ := source_cascade h
  obtain ⟨linear, typed⟩ : s.Linear ∧ s.KeysOfOneType tables env := by
    cases h <;> assumption
  rw [Select.hoistOrderings, hoist_linear linear run fed true]
  exact ⟨fun _ hrows => fed.select_eq linear typed hrows, fed.selects_tail linear true⟩

namespace Sample

def byBoss : Select Expr :=
  { rel := ⟨2⟩
    columns := [⟨"ID", .column ⟨⟨1⟩, "ID", .int⟩, .int⟩, ⟨"Name", .column ⟨⟨1⟩, "Name", .text⟩, .text⟩]
    source := some (.table ⟨⟨1⟩, "Employee", "Staff"⟩), filter := none
    orderBy := [⟨.descending, .column ⟨⟨1⟩, "boss_id", .int⟩⟩]
    groupBy := [], distinct := false, skip := none, take := none, reversed := false }

def laterFirst : Select Expr :=
  { rel := ⟨3⟩, columns := [⟨"Who", .column ⟨⟨2⟩, "Name", .text⟩, .text⟩]
    source := some (.select byBoss), filter := none
    orderBy := [⟨.descending, .binary .gt (.column ⟨⟨2⟩, "ID", .int⟩) (.int 2)⟩]
    groupBy := [], distinct := false, skip := some (.int 1), take := some (.int 2), reversed := false }

def withoutAnn : Select Expr :=
  { rel := ⟨4⟩, columns := [⟨"Who", .column ⟨⟨3⟩, "Who", .text⟩, .text⟩]
    source := some (.select laterFirst)
    filter := some (.unary .not (.equals (.column ⟨⟨3⟩, "Who", .text⟩) (.const (.text "Ann"))))
    orderBy := [], groupBy := [], distinct := false, skip := none, take := none, reversed := false }

theorem cascade_withoutAnn : withoutAnn.Cascade fun q => q.Linear ∧ q.KeysOfOneType tables .root := by
  have first : byBoss.Linear := ⟨rfl, rfl, rfl, by decide, by
    simp [byBoss, Select.clauses, Select.sourceAliases, Expr.declares, Part.every_iff (p := .expr _), Part.parts,
      Part.Computes]⟩
  have second : laterFirst.Linear := ⟨rfl, rfl, rfl, by decide, by
    simp [laterFirst, byBoss, Select.clauses, Select.sourceAliases, Expr.declares, Part.every_iff (p := .expr _),
      Part.parts, Part.Computes, Expr.int]
    exact ⟨.int 2, .int 1, .int 2⟩⟩
  have third : withoutAnn.Linear := ⟨rfl, rfl, rfl, by decide, by
    simp [withoutAnn, laterFirst, Select.clauses, Select.sourceAliases, Expr.declares, Part.every_iff (p := .expr _),
      Part.parts, Part.Computes, Expr.equals]
    exact .text "Ann"⟩
  exact .above rfl ⟨third, by decide +kernel⟩ (.above rfl ⟨second, by decide +kernel⟩
    (.table rfl ⟨first, by decide +kernel⟩))

/-- The orderings decide about the rows and their order from wherever they stand. -/
theorem hoistOrderings_withoutAnn : ∃ rows, rows.length = 2 ∧ select tables withoutAnn .root = .ok rows
    ∧ select tables withoutAnn.hoistOrderings .root = .ok rows := by
  have executes : (select tables withoutAnn .root).toOption.any (fun rows => rows.length == 2) = true := by
    decide +kernel
  obtain ⟨rows, h, two⟩ := exists_ok_of_any executes
  exact ⟨rows, by simpa using two, h, (Select.hoistOrderings_cascade cascade_withoutAnn).1 rows h⟩

end Sample

end ObjectQuery
