import ObjectQuery.Bind.Query
import ObjectQuery.Proofs.GroupedSelects
import ObjectQuery.Proofs.Narrowing

/-!
Counting the rows of a select in place of asking whether there are any. COUNT takes the place of the
columns and the other clauses stay, so the count has one row exactly where the select neither groups nor
pages; where it does, the clauses apply to the row of the count. Over such a select both ways of asking give
the same answer.
-/

namespace ObjectQuery

open Eval

variable {tables : Tables} {σ : Scope} {s : Select Expr}

namespace Eval

/-- Items with what is computed for them are the items. -/
theorem map_snd_of_mapM {α β : Type} {f : α → Result β} {l : List α} {l' : List (β × α)}
    (h : (l.mapM fun a => do return (← f a, a)) = .ok l') : l'.map (·.2) = l := by
  have steps := forall₂_of_mapM h
  clear h
  induction steps with
  | nil => rfl
  | cons step _ ih =>
    obtain ⟨b, -, step⟩ := bind_eq_ok.mp step
    rw [← Except.ok.inj step, List.map_cons, ih]

/-- Numbering scopes leaves their rows in sight. -/
theorem rows_numbered {ev : Expr → Scope → Result Value} {scopes scopes' : List Scope}
    (h : numbered s (fun e _ => ev e) scopes = .ok scopes') : scopes'.map (·.rows) = scopes.map (·.rows) := by
  rw [numbered_eq] at h
  split at h
  · rw [Except.ok.inj h]
  · rename_i orders _
    obtain ⟨keyed, hkeyed, h⟩ := bind_eq_ok.mp h
    have counted : ∀ (keyed : List (List Value × Scope)) (n : Nat), (keyed.zipIdx n).map (·.1.2.rows)
        = keyed.map (·.2.rows) := by
      intro keyed
      induction keyed with
      | nil => exact fun _ => rfl
      | cons x rest ih => exact fun n => by rw [List.zipIdx_cons, List.map_cons, ih, List.map_cons]
    rw [← Except.ok.inj h, numberScopes_eq_map, List.map_map, ← map_snd_of_mapM hkeyed, List.map_map]
    exact counted keyed 0

theorem distinctBy_eq_nil {α : Type} {key : α → List Value} {items : List α} :
    distinctBy key items = [] ↔ items = [] := by
  have grows : ∀ (kept items : List α), kept ≠ [] → items.foldl (fun kept a =>
      if kept.any (fun b => Value.keysEqual (key b) (key a)) then kept else kept ++ [a]) kept ≠ [] := by
    intro kept items
    induction items generalizing kept with
    | nil => exact id
    | cons a rest ih =>
      refine fun some => ih _ ?_
      dsimp only
      split
      exacts [some, by simp]
  cases items with
  | nil => simp [distinctBy]
  | cons a rest => simpa [distinctBy] using grows [a] rest (by simp)

/-- Dropping duplicates, ordering and reversing leave no row exactly where there was none. -/
theorem arrange_eq_nil {produced : List Produced} : arrange s produced = [] ↔ produced = [] := by
  have sorted : ∀ {less : Produced → Produced → Bool} {items}, sortStable less items = [] ↔ items = [] :=
    fun {_ items} => ⟨fun h => List.nil_perm.mp (h ▸ sortStable_perm items), fun h => by rw [h]; rfl⟩
  rw [arrange]
  cases s.reversed <;> cases s.distinct <;> simp [sorted, distinctBy_eq_nil]

end Eval

namespace Select

structure Countable (s : Select Expr) : Prop where
  groupBy : s.groupBy = []
  aggregates : s.hasAggregates = false
  orderBy : ∀ o ∈ s.orderBy, ∃ c, o.expr = .column c ∧ c.rel ∈ s.sourceAliases
  skip : s.skip = none
  take : s.take = none

def countColumn : ColumnDecl Expr := ColumnDecl.of "value" (.aggregate .count none false)

def counted (s : Select Expr) : Select Expr := { s with columns := [countColumn] }

/-- No row stands for an alias of a source without rows. -/
theorem lookup_blank {a : Alias} {aliases : List Alias} (h : a ∈ aliases) :
    (aliases.map fun rel => (rel, (none : Option Row))).lookup a = some none := by
  induction aliases with
  | nil => cases h
  | cons b rest ih =>
    rw [List.map_cons, List.lookup_cons]
    split
    · rfl
    · rename_i other
      exact ih ((List.mem_cons.mp h).resolve_left (by simpa using other))

/-- A select has a row where it keeps a frame. -/
theorem Countable.of_select (countable : s.Countable) {rows : List Row} (h : select tables s σ = .ok rows) :
    ∃ frames kept, Eval.frames tables s σ = .ok frames
      ∧ Eval.filtered s (fun e _ => scalar tables e) σ frames = .ok kept ∧ (rows = [] ↔ kept = [])
      ∧ ∀ f ∈ kept, ∀ o ∈ s.orderBy, ∃ v, scalar tables o.expr (σ.extend f) = .ok v := by
  rw [Eval.select_eq] at h
  obtain ⟨frames, hframes, h⟩ := bind_eq_ok.mp h
  obtain ⟨kept, hkept, h⟩ := bind_eq_ok.mp h
  obtain ⟨scopes, hscopes, h⟩ := bind_eq_ok.mp h
  obtain ⟨numbers, hnumbers, h⟩ := bind_eq_ok.mp h
  obtain ⟨produced, hproduced, h⟩ := bind_eq_ok.mp h
  rw [skipped_eq, countable.skip, ok_bind, taken_eq, countable.take] at h
  rw [scopes_eq, countable.groupBy, countable.aggregates, if_neg (by simp)] at hscopes
  refine ⟨frames, kept, hframes, hkept, ?_, ?_⟩
  · have length := (forall₂_of_mapM hproduced).length_eq
    rw [← Except.ok.inj h, arrange_eq_nil, ← List.length_eq_zero_iff, ← length, List.length_eq_zero_iff,
      ← List.map_eq_nil_iff (f := (·.rows)), rows_numbered hnumbers, ← Except.ok.inj hscopes]
    simp
  · intro f hf o ho
    obtain ⟨c, key, -⟩ := countable.orderBy o ho
    obtain ⟨τ, hτ, same⟩ : ∃ τ ∈ numbers, τ.rows = (σ.extend f).rows := by
      have mem : (σ.extend f).rows ∈ numbers.map (·.rows) := by
        rw [rows_numbered hnumbers, ← Except.ok.inj hscopes]
        exact List.mem_map_of_mem (List.mem_map_of_mem hf)
      exact List.mem_map.mp mem
    obtain ⟨p, hp⟩ := ok_of_mapM hproduced τ hτ
    obtain ⟨v, hv⟩ := (ok_of_produce hp).2 o ho
    refine ⟨v, ?_⟩
    rw [key, scalar, Scope.column] at hv ⊢
    rwa [← same]

theorem hasAggregates_counted (s : Select Expr) : s.counted.hasAggregates = true := by
  have column : (Part.expr countColumn.expr).aggregates = true := by
    rw [Part.aggregates_eq]
    rfl
  simp [hasAggregates, counted, column]

def countedIn (s : Select Expr) (σ : Scope) (kept : List Frame) : Scope :=
  { σ.extend (kept.head?.getD (nullFrame s.source)) with group := some kept }

/-- Where there are no groups, the count is one row, and the other clauses apply to that row. -/
theorem select_counted_eq (groupBy : s.groupBy = []) : select tables s.counted σ = (do
    let frames ← Eval.frames tables s σ
    let kept ← Eval.filtered s (fun e _ => scalar tables e) σ frames
    let p ← produce s.counted (fun e _ => scalar tables e) (s.countedIn σ kept)
    let rows ← Eval.skipped s (fun e _ => scalar tables e) σ [p.row]
    Eval.taken s (fun e _ => scalar tables e) σ rows) := by
  have filters : ∀ frames, Eval.filtered s.counted (fun e _ => scalar tables e) σ frames
      = Eval.filtered s (fun e _ => scalar tables e) σ frames := by
    intro frames
    rw [filtered_eq, filtered_eq]
    rfl
  have scopes : ∀ kept, Eval.scopes s.counted (fun e _ => scalar tables e) σ kept
      = .ok [s.countedIn σ kept] := by
    intro kept
    have keyed : kept.mapM (fun frame => do
          return (← s.counted.groupBy.mapM fun e => scalar tables e (σ.extend frame), frame))
        = (.ok (kept.map fun frame => ([], frame)) : Result _) :=
      mapM_eq_ok fun frame _ => by rw [show s.counted.groupBy = [] from groupBy]; rfl
    rw [scopes_eq, hasAggregates_counted, if_pos (by simp), keyed, ok_bind]
    have grouped : groupScopes s.counted σ (kept.map fun frame => ([], frame)) = [s.countedIn σ kept] := by
      rw [groupScopes, groupFrames_keyless, show s.counted.groupBy = [] from groupBy]
      cases kept <;> rfl
    exact congrArg Except.ok grouped
  have unnumbered : ∀ scopes, Eval.numbered s.counted (fun e _ => scalar tables e) scopes = .ok scopes :=
    fun scopes => by rw [numbered_eq]; rfl
  have arranged : ∀ p : Produced, arrange s.counted [p] = [p.row] := by
    intro p
    rw [arrange]
    cases s.counted.distinct <;> cases s.counted.reversed <;> rfl
  have skips : ∀ rows, Eval.skipped s.counted (fun e _ => scalar tables e) σ rows
      = Eval.skipped s (fun e _ => scalar tables e) σ rows := by
    intro rows
    rw [skipped_eq, skipped_eq]
    rfl
  have takes : ∀ rows, Eval.taken s.counted (fun e _ => scalar tables e) σ rows
      = Eval.taken s (fun e _ => scalar tables e) σ rows := by
    intro rows
    rw [taken_eq, taken_eq]
    rfl
  rw [Eval.select_eq, Eval.frames]
  simp only [filters, scopes, unnumbered, skips, takes, ok_bind, List.mapM_cons, List.mapM_nil, bind_assoc,
    pure_bind, arranged]
  rfl

/-- Where rows are counted, there is one row, with the number of frames that are kept. -/
theorem Countable.select_counted (countable : s.Countable) {rows : List Row}
    (h : select tables s σ = .ok rows) : ∃ n : Nat,
      select tables s.counted σ = .ok [[("value", .int n)]] ∧ (n = 0 ↔ rows = []) := by
  obtain ⟨frames, kept, hframes, hkept, blank, known⟩ := countable.of_select h
  refine ⟨kept.length, ?_, List.length_eq_zero_iff.trans blank.symm⟩
  have orders : ∀ o ∈ s.orderBy, ∃ v, scalar tables o.expr (s.countedIn σ kept) = .ok v := by
    intro o ho
    obtain ⟨c, key, declared⟩ := countable.orderBy o ho
    cases first : kept with
    | nil =>
      refine ⟨.null, ?_⟩
      have absent : (s.countedIn σ []).rows.lookup c.rel = some none := by
        have blank : (nullFrame s.source).reverse = s.sourceAliases.reverse.map (·, none) :=
          List.map_reverse.symm
        rw [show (s.countedIn σ []).rows = (nullFrame s.source).reverse ++ σ.rows from rfl, blank,
          List.lookup_append, lookup_blank (List.mem_reverse.mpr declared)]
        rfl
      rw [key, scalar, Scope.column, absent]
    | cons f rest =>
      obtain ⟨v, hv⟩ := known f (by simp [first]) o ho
      refine ⟨v, ?_⟩
      rw [key, scalar, Scope.column] at hv ⊢
      exact hv
  have keys : ∀ o ∈ s.orderBy, scalar tables o.expr (s.countedIn σ kept)
      = .ok ((scalar tables o.expr (s.countedIn σ kept)).toOption.getD .null) := by
    intro o ho
    obtain ⟨v, hv⟩ := orders o ho
    rw [hv]
    rfl
  have count : scalar tables countColumn.expr (s.countedIn σ kept) = .ok (.int kept.length) := by
    rw [countColumn, ColumnDecl.of, scalar]
    rfl
  rw [select_counted_eq countable.groupBy, hframes, ok_bind, hkept, ok_bind, produce_eq,
    show s.counted.orderBy = s.orderBy from rfl, mapM_eq_ok keys]
  simp only [counted, List.mapM_cons, List.mapM_nil, count, ok_bind, pure_bind, skipped_eq, countable.skip,
    taken_eq, countable.take]
  rfl

/-- Where rows are skipped, the row of the count is among them. -/
theorem select_counted_skip (groupBy : s.groupBy = []) {n : Nat} (skip : s.skip = some (.int n)) (skips : 0 < n)
    {rows : List Row} (h : select tables s.counted σ = .ok rows) : rows = [] := by
  rw [select_counted_eq groupBy] at h
  obtain ⟨frames, -, h⟩ := bind_eq_ok.mp h
  obtain ⟨kept, -, h⟩ := bind_eq_ok.mp h
  obtain ⟨p, -, h⟩ := bind_eq_ok.mp h
  have skipped : Eval.skipped s (fun e _ => scalar tables e) σ [p.row] = .ok [] := by
    have count : scalar tables (.int n) σ = .ok (.int n) := by rw [Expr.int, scalar]
    have all : List.drop (n : Int).toNat [p.row] = [] := List.drop_eq_nil_of_le (by rwa [Int.toNat_natCast])
    rw [skipped_eq, skip]
    simp only [count, ok_bind, Value.asInt, all]
    rfl
  rw [skipped, ok_bind, taken_eq] at h
  split at h
  · exact (Except.ok.inj h).symm
  · obtain ⟨_, -, h⟩ := bind_eq_ok.mp h
    obtain ⟨_, -, h⟩ := bind_eq_ok.mp h
    simpa using (Except.ok.inj h).symm

end Select

namespace Eval

/-- A projection with one row answers with its object. -/
theorem execute_one {p : Projection Expr} (picks : p.pick.isSome) {row : Row}
    (hrow : select tables p.select .root = .ok [row]) {v : ClientValue}
    (hv : (client tables p.projector (Scope.root.bind p.select.rel row)).run [] = .ok (v, [])) :
    (Expr.projection p).execute tables = .ok v := by
  obtain ⟨pick, hpick⟩ := Option.isSome_iff_exists.mp picks
  have lifted : (liftM (select tables p.select .root) : Client (List Row)).run [] = .ok ([row], []) := by
    rw [hrow]
    rfl
  have object : (List.mapM (fun row => client tables p.projector (Scope.root.bind p.select.rel row)) [row]).run []
      = .ok ([v], []) := by
    rw [List.mapM_cons, List.mapM_nil]
    exact reading.bind hv (reading.pure _ _)
  have pick : (liftM (picked p.pick [v]) : Client ClientValue).run [] = .ok (v, []) := by
    rw [hpick, picked]
    cases pick <;> rfl
  refine Expr.execute_eq_ok.mpr ⟨by simp, [], ?_⟩
  rw [client, project_eq]
  exact reading.bind lifted (reading.bind object pick)

/-- The one value that a row answers with. -/
theorem execute_value {p : Projection Expr} (picks : p.pick.isSome) {row : Row}
    (hrow : select tables p.select .root = .ok [row]) (value : isValue p.projector = true) {v : Value}
    (hv : scalar tables p.projector (Scope.root.bind p.select.rel row) = .ok v) :
    (Expr.projection p).execute tables = .ok (.ofValue v) :=
  execute_one picks hrow (client_value_run value hv [])

/-- What a projection answers, it reads from the rows of its select. -/
theorem rows_of_execute {p : Projection Expr} {v : ClientValue} (h : (Expr.projection p).execute tables = .ok v) :
    ∃ rows, select tables p.select .root = .ok rows := by
  obtain ⟨-, joined, h⟩ := Expr.execute_eq_ok.mp h
  rw [client, project_eq] at h
  cases hrows : select tables p.select .root with
  | ok rows => exact ⟨rows, rfl⟩
  | error => rw [hrows] at h; cases h

end Eval

def Projection.holding (rel : Alias) (value : Expr) : Projection Expr :=
  ⟨.plain rel [ColumnDecl.of "value" value] none none, .column ⟨rel, "value", value.columnType⟩,
    some .singleOrDefault⟩

namespace Eval

variable {rel : Alias} {value : Expr}

/-- The only column of the innermost row. -/
theorem scalar_only {name : String} {v : Value} {type : ColumnType} :
    scalar tables (.column ⟨rel, name, type⟩) (σ.bind rel [(name, v)]) = .ok v := by
  have inner : (σ.bind rel [(name, v)]).rows.lookup rel = some (some [(name, v)]) := by
    simp [Scope.bind, Scope.extend]
  exact scalar_found inner (by simp [Row.get?]) type

theorem select_holding (unaggregated : (Part.expr value).aggregates = false)
    (unnumbered : ∀ orders, value ≠ .rowNumber orders) :
    select tables (Projection.holding rel value).select .root
      = (do return [[("value", ← scalar tables value .root)]]) := by
  let s := (Projection.holding rel value).select
  have straight : s.Straight := ⟨rfl, rfl, rfl, rfl, rfl,
    Correspondence.numbering?_eq_none (by simpa [s, Projection.holding, Select.plain, ColumnDecl.of])⟩
  have aggregates : s.hasAggregates = false := by
    simp [Select.hasAggregates, s, Projection.holding, Select.plain, ColumnDecl.of, unaggregated]
  have frames : Eval.frames tables s .root = .ok [[]] := rfl
  have kept : Eval.filtered s (fun e _ => scalar tables e) .root [[]] = .ok [[]] := by
    rw [filtered_eq]
    rfl
  have scopes : Eval.scopes s (fun e _ => scalar tables e) .root [[]] = .ok [.root] := by
    rw [scopes_eq, aggregates, if_neg (by simp [s, Projection.holding, Select.plain])]
    rfl
  have row : Eval.rowOf tables s.columns .root = (do return [("value", ← scalar tables value .root)]) := by
    simp only [Eval.rowOf, s, Projection.holding, Select.plain, ColumnDecl.of, List.mapM_cons, List.mapM_nil,
      bind_assoc, pure_bind]
  rw [show (Projection.holding rel value).select = s from rfl, straight.select_eq, frames, ok_bind, kept,
    ok_bind, scopes, ok_bind, List.mapM_cons, List.mapM_nil, row]
  simp only [bind_assoc, pure_bind]

/-- A row that holds a value answers with it. -/
theorem execute_holding (unaggregated : (Part.expr value).aggregates = false)
    (unnumbered : ∀ orders, value ≠ .rowNumber orders) {v : Value} (hv : scalar tables value .root = .ok v) :
    (Expr.projection (.holding rel value)).execute tables = .ok (.ofValue v) := by
  have row : select tables (Projection.holding rel value).select .root = .ok [[("value", v)]] := by
    rw [select_holding unaggregated unnumbered, hv]
    rfl
  exact execute_value rfl row rfl scalar_only

end Eval

namespace Binding

open Eval

def Quantifier.holds : Quantifier → Select Expr → Expr
  | .some, s => .existsIn s
  | .all, s => .negated (.existsIn s)

def Quantifier.test : Quantifier → Expr → Expr
  | .some, count => .binary .gt count (.int 0)
  | .all, count => .equals count (.int 0)

def Quantifier.counts (quantifier : Quantifier) (s : Select Expr) : Projection Expr :=
  ⟨s.counted, quantifier.test (.column ⟨s.rel, "value", Select.countColumn.type⟩), Option.some .single⟩

def Quantifier.answer : Quantifier → List Row → Bool
  | .some, rows => !rows.isEmpty
  | .all, rows => rows.isEmpty

variable {quantifier : Quantifier} {rel : Alias}

theorem scalar_holds : scalar tables (quantifier.holds s) σ
    = (do return .bool (quantifier.answer (← select tables s σ))) := by
  have found : scalar tables (.existsIn s) σ = (do return .bool !(← select tables s σ).isEmpty) := by
    rw [scalar]
  cases quantifier with
  | some => exact found
  | all =>
    rw [Quantifier.holds, Expr.negated, scalar, found]
    cases select tables s σ with
    | error => rfl
    | ok rows => cases rows <;> rfl

theorem scalar_test {count : Expr} {n : Nat} {rows : List Row} (hn : n = 0 ↔ rows = [])
    (hcount : scalar tables count σ = .ok (.int n)) :
    scalar tables (quantifier.test count) σ = .ok (.bool (quantifier.answer rows)) := by
  have zero : scalar tables (.int 0) σ = .ok (.int 0) := by rw [Expr.int, scalar]
  have empty : rows.isEmpty = (n == 0) := by
    rw [Bool.eq_iff_iff, List.isEmpty_iff, ← hn, beq_iff_eq]
  cases quantifier with
  | some =>
    rw [Quantifier.test, scalar, hcount, zero, Quantifier.answer, empty]
    cases n <;> rfl
  | all =>
    rw [Quantifier.test, Expr.equals, scalar, hcount, zero, Quantifier.answer, empty]
    cases n <;> rfl

/-- Where rows can be counted, counting them answers as looking for one does. -/
theorem execute_counts (countable : s.Countable) {v : ClientValue}
    (h : (Expr.projection (.holding rel (quantifier.holds s))).execute tables = .ok v) :
    (Expr.projection (quantifier.counts s)).execute tables = .ok v := by
  have unaggregated : (Part.expr (quantifier.holds s)).aggregates = false := by
    cases quantifier <;>
      simp [Quantifier.holds, Expr.negated, Part.aggregates_eq, Part.isAggregate, Part.aggregatesApart, Part.parts]
  have unnumbered : ∀ orders, quantifier.holds s ≠ .rowNumber orders := by
    cases quantifier <;> simp [Quantifier.holds, Expr.negated]
  obtain ⟨rows, hrows⟩ : ∃ rows, select tables s .root = .ok rows := by
    obtain ⟨_, found⟩ := rows_of_execute h
    rw [select_holding unaggregated unnumbered, scalar_holds] at found
    cases hrows : select tables s .root with
    | ok rows => exact ⟨rows, rfl⟩
    | error => rw [hrows] at found; cases found
  have value : scalar tables (quantifier.holds s) .root = .ok (.bool (quantifier.answer rows)) := by
    rw [scalar_holds, hrows]
    rfl
  obtain ⟨n, counted, hn⟩ := countable.select_counted hrows
  have isTest : isValue (quantifier.counts s).projector = true := by
    cases quantifier <;> rfl
  have count : scalar tables (.column ⟨s.rel, "value", Select.countColumn.type⟩)
      (Scope.root.bind s.rel [("value", .int n)]) = .ok (.int n) := scalar_only
  rw [← h, execute_holding unaggregated unnumbered value]
  exact execute_value rfl counted isTest (scalar_test hn count)

/-- Where rows are skipped, their count answers nothing. -/
theorem execute_counts_skip (groupBy : s.groupBy = []) {n : Nat} (skip : s.skip = some (.int n)) (skips : 0 < n)
    (v : ClientValue) : (Expr.projection (quantifier.counts s)).execute tables ≠ .ok v := by
  intro h
  obtain ⟨rows, hrows⟩ := rows_of_execute h
  have none : select tables (quantifier.counts s).select .root = .ok [] :=
    s.select_counted_skip groupBy skip skips hrows ▸ hrows
  obtain ⟨-, joined, h⟩ := Expr.execute_eq_ok.mp h
  rw [client, project_eq, none] at h
  cases h

end Binding

end ObjectQuery
