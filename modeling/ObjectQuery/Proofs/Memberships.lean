import ObjectQuery.Bind.Sets
import ObjectQuery.Proofs.Agreement
import ObjectQuery.Proofs.Layering
import ObjectQuery.Proofs.Views
import ObjectQuery.Sample

/-!
Elements that occur in another sequence. Where elements are single columns, an intersection keeps the
distinct elements on the left that equal an element on the right, and a difference keeps all the others.
Null equals nothing, so a difference keeps it.
-/

namespace ObjectQuery

open Eval

variable {tables : Tables} {σ : Scope}

namespace Value

/-- A value without floats is equal, as a key or certainly, only to itself. -/
theorem Exact.eq_of_isEqual {a b : Value} (ha : a.Exact) (hb : b.Exact) (equal : a.isEqual b = true) :
    a = b := by
  have ordered : ∀ {o : Ordering}, compare a b = .ok (some o) → o = .eq := by
    intro o h
    rw [isEqual, h] at equal
    cases o <;> simp_all
  cases ha <;> cases hb
  case bool.bool x y => cases x <;> cases y <;> first | rfl | cases equal
  case int.int x y => exact congrArg Value.int (Std.compare_eq_iff_eq.mp (ordered rfl))
  case text.text x y => exact congrArg Value.text (Std.compare_eq_iff_eq.mp (ordered rfl))
  all_goals cases equal

theorem Exact.eq_of_keysEqual {a b : Value} (ha : a.Exact) (hb : b.Exact)
    (equal : keysEqual [a] [b] = true) : a = b := by
  by_cases nulls : a = .null ∧ b = .null
  · rw [nulls.1, nulls.2]
  · refine ha.eq_of_isEqual hb ?_
    cases ha <;> cases hb <;> simp_all [keysEqual]

end Value

section Distinct

variable {α β : Type} {key : α → List Value}

theorem distinctBy_map (f : β → α) (items : List β) :
    distinctBy key (items.map f) = (distinctBy (fun b => key (f b)) items).map f := by
  have step : ∀ kept : List β, (items.map f).foldl (fun kept a =>
        if kept.any (fun b => Value.keysEqual (key b) (key a)) then kept else kept ++ [a]) (kept.map f)
      = (items.foldl (fun kept a => if kept.any (fun b => Value.keysEqual (key (f b)) (key (f a))) then kept
        else kept ++ [a]) kept).map f := by
    induction items with
    | nil => exact fun _ => rfl
    | cons a rest ih =>
      intro kept
      have same : (kept.map f).any (fun b => Value.keysEqual (key b) (key (f a)))
          = kept.any fun b => Value.keysEqual (key (f b)) (key (f a)) := List.any_map
      rw [List.map_cons, List.foldl_cons, List.foldl_cons, ← ih, same]
      split <;> simp
  exact step []

/-- What items with equal keys have in common can be asked before or after duplicates are dropped. -/
theorem distinctBy_filter {keep : α → Bool} {good : α → Prop} (alike : ∀ a, good a → ∀ b, good b →
      Value.keysEqual (key a) (key b) = true → keep a = keep b) {items : List α} (all : ∀ a ∈ items, good a) :
    distinctBy key (items.filter keep) = (distinctBy key items).filter keep := by
  have step : ∀ kept : List α, (∀ a ∈ kept, good a) → (items.filter keep).foldl (fun kept a =>
        if kept.any (fun b => Value.keysEqual (key b) (key a)) then kept else kept ++ [a]) (kept.filter keep)
      = (items.foldl (fun kept a => if kept.any (fun b => Value.keysEqual (key b) (key a)) then kept
        else kept ++ [a]) kept).filter keep := by
    induction items with
    | nil => exact fun _ _ => rfl
    | cons a rest ih =>
      intro kept before
      have first := all a (by simp)
      have ih := ih fun b hb => all b (by simp [hb])
      have longer : ∀ b ∈ kept ++ [a], good b := by
        simpa [or_imp, forall_and] using ⟨before, first⟩
      rw [List.foldl_cons]
      cases keeps : keep a with
      | false =>
        rw [List.filter_cons, keeps, if_neg (by simp)]
        split
        · exact ih kept before
        · rw [← ih _ longer]
          simp [keeps]
      | true =>
        have found : (kept.filter keep).any (fun b => Value.keysEqual (key b) (key a))
            = kept.any fun b => Value.keysEqual (key b) (key a) := by
          rw [Bool.eq_iff_iff]
          simp only [List.any_eq_true, List.mem_filter]
          refine ⟨fun ⟨b, hb, equal⟩ => ⟨b, hb.1, equal⟩, fun ⟨b, hb, equal⟩ => ⟨b, ⟨hb, ?_⟩, equal⟩⟩
          rw [alike b (before b hb) a first equal, keeps]
        rw [List.filter_cons, keeps, if_pos rfl, List.foldl_cons, found]
        split
        · exact ih kept before
        · rw [← ih _ longer]
          simp [keeps]
  exact step [] (by simp)

end Distinct

/-- A run over several items that succeeds, succeeds for each of them. -/
theorem ok_of_mapM_run {ε γ α β : Type} {f : α → StateT γ (Except ε) β} {l : List α} {s : γ} {r : List β × γ}
    (h : (l.mapM f).run s = .ok r) : ∀ a ∈ l, ∃ s' r', (f a).run s' = .ok r' := by
  induction l generalizing s r with
  | nil => simp
  | cons a rest ih =>
    rw [List.mapM_cons, StateT.run_bind] at h
    obtain ⟨r', hr', h⟩ := bind_eq_ok.mp h
    rw [StateT.run_bind] at h
    obtain ⟨r'', hr'', -⟩ := bind_eq_ok.mp h
    rw [List.forall_mem_cons]
    exact ⟨⟨s, r', hr'⟩, ih hr''⟩

def Projection.single (s : Select Expr) (name : String) (type : ColumnType) : Projection Expr :=
  ⟨s, .column ⟨s.rel, name, type⟩, none⟩

namespace Select

variable {s : Select Expr} {name : String} {type : ColumnType} {vs : List Value} {rel : Alias}

def Lists (tables : Tables) (s : Select Expr) (name : String) (σ : Scope) (vs : List Value) : Prop :=
  ∃ rows, select tables s σ = .ok rows ∧ rows.map (·.get? name) = vs.map some

theorem Lists.unique {ws : List Value} (h : s.Lists tables name σ vs) (h' : s.Lists tables name σ ws) :
    vs = ws := by
  obtain ⟨rows, hrows, values⟩ := h
  obtain ⟨rows', hrows', values'⟩ := h'
  obtain rfl := Except.ok.inj (hrows.symm.trans hrows')
  exact List.map_injective_iff.mpr (Option.some_injective _) (values.symm.trans values')

theorem lists_of_rows {rows : List Row} (h : select tables s σ = .ok rows)
    (found : ∀ row ∈ rows, ∃ v, row.get? name = some v) :
    s.Lists tables name σ (rows.map fun row => (row.get? name).getD .null) := by
  refine ⟨rows, h, ?_⟩
  rw [List.map_map]
  refine List.map_congr_left fun row hrow => ?_
  obtain ⟨v, hv⟩ := found row hrow
  simp [hv]

/-- A column is computed in a row that has it. -/
theorem found_of_scalar {row : Row} {v : Value}
    (h : scalar tables (.column ⟨rel, name, type⟩) (σ.bind rel row) = .ok v) : row.get? name = some v := by
  rw [scalar, Scope.column, Scope.bind, Scope.extend] at h
  cases hv : row.get? name with
  | none => simp [hv] at h
  | some w => simpa [hv] using h

/-- A query for one column of a select answers the values in its rows. -/
theorem execute_single {v : ClientValue} : (Expr.projection (.single s name type)).execute tables = .ok v ↔
    ∃ vs, s.Lists tables name .root vs ∧ v = .list (vs.map .ofValue) := by
  have answer : ∀ {rows}, select tables s .root = .ok rows → (∀ row ∈ rows, ∃ v, row.get? name = some v) →
      (Expr.projection (.single s name type)).execute tables
        = .ok (.list (rows.map fun row => .ofValue ((row.get? name).getD .null))) := by
    intro rows hrows found
    refine execute_projection rfl hrows fun row hrow => client_value_run rfl ?_ []
    have inSight : (row.get? name).isSome = true := Option.isSome_iff_exists.mpr (found row hrow)
    exact scalar_bound (f := [(s.rel, some row)]) (by simp) inSight type .root
  constructor
  · intro h
    obtain ⟨values, joined, run, -⟩ := (execute_elements rfl).mp h
    obtain ⟨rows, hrows, run⟩ := elements_run.mp run
    have found : ∀ row ∈ rows, ∃ v, row.get? name = some v := by
      intro row hrow
      obtain ⟨_, _, value⟩ := ok_of_mapM_run run row hrow
      rw [Projection.single, client_value rfl, StateT.run_bind] at value
      obtain ⟨_, value, -⟩ := bind_eq_ok.mp value
      obtain ⟨v, hv, -⟩ := bind_eq_ok.mp value
      exact ⟨v, found_of_scalar hv⟩
    refine ⟨_, lists_of_rows hrows found, ?_⟩
    rw [List.map_map]
    exact Except.ok.inj (h.symm.trans (answer hrows found))
  · rintro ⟨vs, lists, rfl⟩
    obtain ⟨rows, hrows, values⟩ := lists
    have found : ∀ row ∈ rows, ∃ v, row.get? name = some v := by
      intro row hrow
      obtain ⟨v, -, hv⟩ := List.mem_map.mp (values ▸ List.mem_map_of_mem hrow)
      exact ⟨v, hv.symm⟩
    have same : vs = _ := Lists.unique ⟨rows, hrows, values⟩ (lists_of_rows hrows found)
    rw [answer hrows found, same, List.map_map]
    rfl

def picking (s : Select Expr) (name : String) (type : ColumnType) (rel : Alias) (filter : Option Expr) :
    Select Expr :=
  .forwarding rel s.rel [⟨name, name, type⟩] (.select s) filter

theorem Lists.source (h : s.Lists tables name σ vs) (type : ColumnType) : ∃ rows, select tables s σ = .ok rows
    ∧ Eval.source tables (.select s) σ = .ok (rows.map fun r => [(s.rel, some r)])
    ∧ (∀ r ∈ rows, Forward.Fed [⟨name, name, type⟩] r) ∧ vs = rows.map fun r => (r.get? name).getD .null := by
  obtain ⟨rows, hrows, values⟩ := h
  have found : ∀ r ∈ rows, ∃ v, r.get? name = some v := by
    intro r hr
    obtain ⟨v, -, hv⟩ := List.mem_map.mp (values ▸ List.mem_map_of_mem hr)
    exact ⟨v, hv.symm⟩
  refine ⟨rows, hrows, ?_, fun r hr => ?_, Lists.unique ⟨rows, hrows, values⟩ (lists_of_rows hrows found)⟩
  · rw [source_select, hrows]
    rfl
  · simpa [Forward.Fed, Option.isSome_iff_exists] using found r hr

/-- A filter keeps the values that meet it. -/
theorem Lists.filtered (h : s.Lists tables name σ vs) {filter : Option Expr}
    (unaggregated : ∀ e ∈ filter, (Part.expr e).aggregates = false) {keep : Value → Bool}
    (agrees : ∀ row v b, row.get? name = some v →
      meets tables filter (σ.extend [(s.rel, some row)]) = .ok b → b = keep v)
    {rows : List Row} (answer : select tables (s.picking name type rel filter) σ = .ok rows) :
    rows = (vs.filter keep).map fun v => [(name, v)] := by
  obtain ⟨below, -, source, fed, rfl⟩ := h.source type
  have agrees : ∀ r ∈ below, ∀ b, meets tables filter (σ.extend [(s.rel, some r)]) = .ok b →
      b = keep ((r.get? name).getD .null) := by
    intro r hr b hb
    obtain ⟨v, hv⟩ := Option.isSome_iff_exists.mp (fed r hr ⟨name, name, type⟩ (by simp))
    rw [hv]
    exact agrees r v b hv hb
  obtain ⟨-, rfl⟩ := of_forwarding unaggregated source fed agrees answer
  rw [List.filter_map, List.map_map]
  rfl

/-- Every value is forwarded. -/
theorem Lists.picking (h : s.Lists tables name σ vs) :
    select tables (s.picking name type rel none) σ = .ok (vs.map fun v => [(name, v)]) := by
  obtain ⟨below, -, source, fed, rfl⟩ := h.source type
  have rows : select tables (s.picking name type rel none) σ
      = .ok ((below.filter fun _ => true).map (Forward.row [⟨name, name, type⟩])) :=
    select_forwarding (by simp) source fed fun _ _ => rfl
  rw [List.filter_true] at rows
  rw [List.map_map]
  exact rows

theorem lists_of_picking {rows : List Row} (h : select tables (s.picking name type rel none) σ = .ok rows) :
    ∃ vs, s.Lists tables name σ vs := by
  obtain ⟨below, hbelow⟩ := exists_source rfl h
  refine ⟨_, lists_of_rows hbelow fun row hrow => ?_⟩
  obtain ⟨frames, hframes, known⟩ := (flat_forwarding (by simp)).of_select rfl h
  have source : Eval.source tables (.select s) σ = .ok frames := hframes
  rw [source_select, hbelow] at source
  obtain rfl := Except.ok.inj source
  have value := (known _ (List.mem_map_of_mem hrow)).1 _ (List.mem_map_of_mem (List.mem_singleton_self _))
  exact ⟨_, found_of_scalar value⟩

def distinctly (s : Select Expr) : Select Expr := { s with distinct := true }

/-- Where rows are neither ordered nor paged, dropping duplicates is the last step. -/
theorem Straight.distinctly_eq (straight : s.Straight) (tables : Tables) (σ : Scope) :
    select tables s.distinctly σ = (do return distinctBy Row.values (← select tables s σ)) := by
  have arranged : ∀ produced, arrange s.distinctly produced = distinctBy Row.values (arrange s produced) := by
    intro produced
    have unordered : ∀ items, sortStable (fun a b : Produced => compareKeys [] a.keys b.keys == .lt) items
        = items := fun _ => @sortWith_eq_self_of_tied _ (fun _ _ => .eq) _ _ fun _ _ _ _ => rfl
    rw [arrange_straight straight, distinctBy_map]
    simp only [arrange, distinctly, straight.orderBy, straight.reversed, List.map_nil, unordered, if_true,
      Bool.false_eq_true, if_false]
  have filters : ∀ frames, Eval.filtered s.distinctly (fun e _ => scalar tables e) σ frames
      = Eval.filtered s (fun e _ => scalar tables e) σ frames := fun _ => by
    rw [filtered_eq, filtered_eq]
    rfl
  have scopes : ∀ frames, Eval.scopes s.distinctly (fun e _ => scalar tables e) σ frames
      = Eval.scopes s (fun e _ => scalar tables e) σ frames := fun _ => by
    rw [scopes_eq, scopes_eq]
    rfl
  have rows : produce s.distinctly (fun e _ => scalar tables e) = produce s fun e _ => scalar tables e :=
    funext fun _ => by
      rw [produce_eq, produce_eq]
      rfl
  have skip : s.distinctly.skip = none := straight.skip
  have take : s.distinctly.take = none := straight.take
  have unnumbered : numbering? s.distinctly = none := straight.unnumbered
  rw [Eval.select_eq, Eval.select_eq]
  simp only [filters, scopes, rows, arranged, numbered, unnumbered, straight.unnumbered, skipped_eq, taken_eq,
    skip, take, straight.skip, straight.take, bind_assoc, ok_bind]
  rfl

theorem lists_of_values (h : select tables s σ = .ok (vs.map fun v => [(name, v)])) :
    s.Lists tables name σ vs := by
  refine ⟨_, h, ?_⟩
  rw [List.map_map]
  exact List.map_congr_left fun v _ => by simp [Row.get?]

theorem straight_picking : (s.picking name type rel none).Straight :=
  ⟨rfl, rfl, rfl, rfl, rfl, (flat_forwarding (by simp)).unnumbered⟩

/-- The distinct rows of one column have its distinct values. -/
theorem lists_distinctly {ds : List Value} (h : (s.picking name type rel none).distinctly.Lists tables name σ ds) :
    ∃ vs, s.Lists tables name σ vs ∧ ds = distinctBy (fun v => [v]) vs := by
  have rows := h
  obtain ⟨_, rows, -⟩ := rows
  rw [straight_picking.distinctly_eq] at rows
  obtain ⟨_, below, -⟩ := bind_eq_ok.mp rows
  obtain ⟨vs, lists⟩ := lists_of_picking below
  refine ⟨vs, lists, h.unique (lists_of_values ?_)⟩
  rw [straight_picking.distinctly_eq, lists.picking, ok_bind, distinctBy_map]
  rfl

def matching (t : Select Expr) (name : String) (type : ColumnType) (rel : Alias) (item : Column) :
    Select Expr :=
  t.picking name type rel (some (.equals (.column ⟨t.rel, name, type⟩) (.column item)))

def test (s : Select Expr) (negate : Bool) : Expr := if negate then .negated (.existsIn s) else .existsIn s

theorem unaggregated_test (s : Select Expr) (negate : Bool) : (Part.expr (s.test negate)).aggregates = false := by
  cases negate <;>
    simp [test, Expr.negated, Part.aggregates_eq, Part.isAggregate, Part.aggregatesApart, Part.parts]

theorem meets_test {negate b : Bool} (h : meets tables (some (s.test negate)) σ = .ok b) :
    ∃ rows, select tables s σ = .ok rows ∧ b = ((!rows.isEmpty) != negate) := by
  have scalars : scalar tables (s.test negate) σ = (do
      let rows ← select tables s σ
      return .bool ((!rows.isEmpty) != negate)) := by
    cases negate with
    | false => simp [test, scalar]
    | true =>
      rw [test, if_pos rfl, Expr.negated, scalar, scalar, bind_assoc]
      refine bind_congr fun rows => ?_
      cases rows.isEmpty <;> rfl
  rw [meets, scalars, bind_assoc] at h
  obtain ⟨rows, hrows, h⟩ := bind_eq_ok.mp h
  refine ⟨rows, hrows, (Except.ok.inj h).symm.trans ?_⟩
  cases (!rows.isEmpty) != negate <;> rfl

end Select

/-- Certain equality is what an equation in a condition asks for. -/
theorem Eval.meets_equals {a b : Expr} {v w : Value} {c : Bool} (left : scalar tables a σ = .ok v)
    (right : scalar tables b σ = .ok w) (h : meets tables (some (.equals a b)) σ = .ok c) : c = v.isEqual w := by
  rw [meets, Expr.equals, scalar, left, right] at h
  obtain ⟨u, hu, h⟩ := bind_eq_ok.mp h
  obtain ⟨o, ho, hu⟩ := bind_eq_ok.mp (show (do return Value.ofTruth ((← Value.compare v w).map
    (Value.satisfies .eq))) = Except.ok u from hu)
  obtain rfl := Except.ok.inj hu
  rw [Value.isEqual, ho]
  rcases o with _ | ⟨_ | _ | _⟩ <;> exact (Except.ok.inj h).symm

namespace Select

variable {s t : Select Expr} {name : String} {type : ColumnType} {ws : List Value} {rel : Alias}

/-- A value has matching rows where it certainly equals one of the values. -/
theorem Lists.matched (h : t.Lists tables name σ ws) {item : Column} {row : Row} {v : Value}
    (inSight : σ.rows.lookup item.rel = some (some row)) (found : row.get? item.name = some v)
    (apart : item.rel ≠ t.rel) {rows : List Row}
    (answer : select tables (t.matching name type rel item) σ = .ok rows) :
    (!rows.isEmpty) = ws.any (·.isEqual v) := by
  have unaggregated : ∀ e ∈ some (Expr.equals (.column ⟨t.rel, name, type⟩) (.column item)),
      (Part.expr e).aggregates = false := by
    rintro _ ⟨⟩
    simp [Expr.equals, Part.aggregates_eq, Part.isAggregate, Part.parts]
  have agrees : ∀ row' w b, Row.get? row' name = some w → meets tables
      (some (Expr.equals (.column ⟨t.rel, name, type⟩) (.column item))) (σ.extend [(t.rel, some row')]) = .ok b →
      b = w.isEqual v := by
    intro row' w b hw hb
    have own : scalar tables (.column ⟨t.rel, name, type⟩) (σ.extend [(t.rel, some row')]) = .ok w :=
      scalar_found (by simp [Scope.extend]) hw type
    have outer : scalar tables (.column item) (σ.extend [(t.rel, some row')]) = .ok v := by
      refine scalar_found ?_ found item.type
      simpa [Scope.extend, List.lookup_cons, beq_false_of_ne apart] using inSight
    exact meets_equals own outer hb
  rw [h.filtered unaggregated agrees answer]
  rw [List.isEmpty_map, Bool.eq_iff_iff]
  simp

end Select

namespace Binding

variable {ctx : Context} {left right : Binding Expr} {st st₁ st₂ st' : BindState} {s t : Select Expr}
  {name name' : String} {type type' : ColumnType} {n : Nat}

/-- A layer on one column forwards it. -/
theorem layer_single (clauses : Select Expr → Select Expr) (supply : st.supply = ⟨n⟩) :
    (layer ctx (.single s name type) clauses).run st
      = .ok (⟨clauses (s.picking name type ⟨n⟩ none), .column ⟨⟨n⟩, name, type⟩, none⟩,
        { st with supply := ⟨n + 1⟩ }) := by
  have run : (Split.expr ⟨ctx.affinity, ⟨n⟩, [s.rel]⟩ false (.column ⟨s.rel, name, type⟩)).run ⟨[], 0⟩
      = (.column ⟨⟨n⟩, name, type⟩, ⟨[⟨name, .column ⟨s.rel, name, type⟩, type⟩], 0⟩) := by
    rw [Split.expr_eq, if_pos (nominate_column (by simp))]
    exact Split.key_new ctx.affinity s.rel ⟨n⟩ ⟨name, name, type⟩ 0
  have columns : split ctx (.column ⟨s.rel, name, type⟩) ⟨n⟩ [s.rel]
      = ⟨.column ⟨⟨n⟩, name, type⟩, [⟨name, .column ⟨s.rel, name, type⟩, type⟩]⟩ := by
    rw [split, Expr.split, run]
  refine yields.bind (selectOver_fresh _ _ _ supply) ?_
  rw [Projection.single, columns]
  exact yields.pure _ _

/-- A copy of a column is the column. -/
theorem param_column {p : Param} {c : Column} (found : st.params.lookup p = some (.column c)) :
    (param p).run st = .ok (.column c, st) :=
  have plain : Plain False (fun _ => True) (.column c) := .column trivial
  param_run plain found

/-- Whether an element occurs on the right is asked of the rows that equal it. -/
theorem ask_matching {x y : Param} {item : Column}
    (hq : (sequence ctx right).run st₁ = .ok (.single t name' type', st₂))
    (kept : st₂.params.lookup x = some (.column item)) (apart : y ≠ x) (supply : st₂.supply = ⟨n⟩) :
    (ask ctx false .some right (some ⟨[y], do return .equals (← param y) (← param x)⟩)).run st₁
      = .ok (.existsIn (t.matching name' type' ⟨n⟩ item),
        { st₂ with params := (y, .column ⟨t.rel, name', type'⟩) :: st₂.params, supply := ⟨n + 1⟩ }) := by
  let own : BindState := { st₂ with params := (y, .column ⟨t.rel, name', type'⟩) :: st₂.params }
  have first : (param y).run own = .ok (.column ⟨t.rel, name', type'⟩, own) := param_column List.lookup_cons_self
  have second : (param x).run own = .ok (.column item, own) :=
    param_column (by simpa [own, List.lookup_cons, beq_false_of_ne apart.symm] using kept)
  have condition : yields.gives st₂ (apply "Where" ⟨[y], do return .equals (← param y) (← param x)⟩
      (.column ⟨t.rel, name', type'⟩)) (.equals (.column ⟨t.rel, name', type'⟩) (.column item)) own :=
    yields.bind (assign_run rfl) (yields.bind first (yields.bind second (yields.pure _ _)))
  have rows : yields.gives st₁ (filter ctx right ⟨[y], do return .equals (← param y) (← param x)⟩)
      ⟨t.matching name' type' ⟨n⟩ item, .column ⟨⟨n⟩, name', type'⟩, none⟩ { own with supply := ⟨n + 1⟩ } :=
    yields.bind hq (yields.bind condition (layer_single _ supply))
  exact yields.bind rows (yields.pure _ _)

/-- What an intersection or a difference is bound to. -/
theorem membership_run {negate : Bool}
    (hp : (sequence ctx left).run { st with supply := ⟨st.supply.next + 2⟩ } = .ok (.single s name type, st₁))
    (hq : (sequence ctx right).run
        { st₁ with params := (⟨st.supply.next⟩, .column ⟨s.rel, name, type⟩) :: st₁.params }
      = .ok (.single t name' type', st₂))
    (kept : st₂.params.lookup ⟨st.supply.next⟩ = some (.column ⟨s.rel, name, type⟩))
    (supply : st₂.supply = ⟨n⟩) :
    ∃ st', (membership ctx negate left right none).run st
      = .ok (.projection (.single ((s.picking name type ⟨n + 1⟩
          (some ((t.matching name' type' ⟨n⟩ ⟨s.rel, name, type⟩).test negate))).picking name type ⟨n + 2⟩
            none).distinctly name type), st') := by
  let item : Column := ⟨s.rel, name, type⟩
  let x : Param := ⟨st.supply.next⟩
  let y : Param := ⟨st.supply.next + 1⟩
  have apart : y ≠ x := by simp [x, y]
  have occurs := ask_matching hq kept apart supply
  have tested : yields.gives { st₁ with params := (x, .column item) :: st₁.params }
      (if negate then do return .negated (← ask ctx false .some right
          (some ⟨[y], do return .equals (← param y) (← param x)⟩))
        else ask ctx false .some right (some ⟨[y], do return .equals (← param y) (← param x)⟩))
      ((t.matching name' type' ⟨n⟩ item).test negate)
      { st₂ with params := (y, .column ⟨t.rel, name', type'⟩) :: st₂.params, supply := ⟨n + 1⟩ } := by
    cases negate with
    | false => exact occurs
    | true => exact yields.bind occurs (yields.pure _ _)
  refine ⟨{ st₂ with params := (y, .column ⟨t.rel, name', type'⟩) :: st₂.params, supply := ⟨n + 3⟩ }, ?_⟩
  refine yields.bind (mint_run _ _) (yields.bind (mint_run _ _) ?_)
  refine yields.bind (yields.bind hp (yields.bind (yields.bind (assign_run rfl) tested) (layer_single _ rfl))) ?_
  exact yields.bind (layer_single _ rfl) (yields.pure _ _)

/-- Where elements are single columns, an intersection has the distinct elements on the left that equal an
element on the right, and a difference has all the others, both in their order. -/
theorem execute_membership {negate : Bool} {d : Projection Expr} {u : Expr} {st₃ : BindState}
    (hp : (sequence ctx left).run { st with supply := ⟨st.supply.next + 2⟩ } = .ok (.single s name type, st₁))
    (hq : (sequence ctx right).run
        { st₁ with params := (⟨st.supply.next⟩, .column ⟨s.rel, name, type⟩) :: st₁.params }
      = .ok (.single t name' type', st₂))
    (kept : st₂.params.lookup ⟨st.supply.next⟩ = some (.column ⟨s.rel, name, type⟩))
    (hd : (clause ctx left fun s => { s with distinct := true }).run { st with supply := ⟨st.supply.next + 2⟩ }
      = .ok (d, st₃))
    (hu : (membership ctx negate left right none).run st = .ok (u, st'))
    (apart : s.rel ≠ t.rel) (unread : s.rel ∉ (Part.select t).references)
    {tables : Tables} (exact : ∀ vs, s.Lists tables name .root vs → ∀ v ∈ vs, v.Exact)
    {distinct elements v : ClientValue} (hdistinct : (Expr.projection d).execute tables = .ok distinct)
    (helements : (Expr.projection (.single t name' type')).execute tables = .ok elements)
    (hv : u.execute tables = .ok v) :
    ∃ xs ys : List Value, distinct = .list (xs.map .ofValue) ∧ elements = .list (ys.map .ofValue)
      ∧ v = .list ((xs.filter fun x => ys.any (·.isEqual x) != negate).map .ofValue) := by
  obtain rfl : d = .single (s.picking name type ⟨st₁.supply.next⟩ none).distinctly name type :=
    (Prod.mk.inj (Except.ok.inj (hd.symm.trans (yields.bind hp (layer_single _ rfl))))).1
  obtain ⟨_, run⟩ : ∃ st', (membership ctx negate left right none).run st = .ok (_, st') :=
    membership_run hp hq kept rfl
  obtain rfl := (Prod.mk.inj (Except.ok.inj (hu.symm.trans run))).1
  obtain ⟨xs, hxs, rfl⟩ := Select.execute_single.mp hdistinct
  obtain ⟨ys, hys, rfl⟩ := Select.execute_single.mp helements
  obtain ⟨us, hus, rfl⟩ := Select.execute_single.mp hv
  obtain ⟨vs, hvs, rfl⟩ := Select.lists_distinctly hxs
  obtain ⟨ws, hws, rfl⟩ := Select.lists_distinctly hus
  let keep : Value → Bool := fun x => ys.any (·.isEqual x) != negate
  have agrees : ∀ row x b, Row.get? row name = some x → meets tables (some ((t.matching name' type'
      ⟨st₂.supply.next⟩ ⟨s.rel, name, type⟩).test negate)) (Scope.root.extend [(s.rel, some row)]) = .ok b →
      b = keep x := by
    intro row x b found hb
    obtain ⟨rows, hrows, rfl⟩ := Select.meets_test hb
    obtain ⟨below, hbelow, values⟩ := hys
    have agree : Scope.root.Agree (· ∈ (Part.select t).references) (Scope.root.bind s.rel row) :=
      Scope.agree_bind unread rfl rfl row
    have right : t.Lists tables name' (Scope.root.extend [(s.rel, some row)]) ys :=
      ⟨below, (select_agree agree).mp hbelow, values⟩
    rw [right.matched (by simp [Scope.extend]) found apart hrows]
  have filtered : ws = vs.filter keep := by
    obtain ⟨rows, hrows, values⟩ := hws
    have test : ∀ e ∈ some ((t.matching name' type' ⟨st₂.supply.next⟩ ⟨s.rel, name, type⟩).test negate),
        (Part.expr e).aggregates = false := by
      rintro _ ⟨⟩
      exact Select.unaggregated_test _ _
    have rows' := hvs.filtered test agrees hrows
    exact Select.Lists.unique ⟨rows, hrows, values⟩ (Select.lists_of_values (rows' ▸ hrows))
  refine ⟨_, ys, rfl, rfl, ?_⟩
  have alike : ∀ a : Value, a.Exact → ∀ b : Value, b.Exact → Value.keysEqual [a] [b] = true → keep a = keep b :=
    fun a ha b hb equal => by rw [ha.eq_of_keysEqual hb equal]
  rw [filtered, distinctBy_filter alike (exact vs hvs)]

end Binding

namespace Sample

def staffColumn (name : String) (table rel : Alias) : Select Expr :=
  .forwarding rel table [⟨name, name, .int⟩] (.table ⟨table, "Employee", "Staff"⟩) none

theorem exact_managers (table rel : Alias) {vs : List Value}
    (h : (staffColumn "boss_id" table rel).Lists Sample.tables "boss_id" .root vs) : ∀ v ∈ vs, v.Exact := by
  obtain ⟨rows, hrows, values⟩ := h
  obtain ⟨base, stored, -, rfl⟩ := (Select.select_table (t := ⟨table, "Employee", "Staff"⟩)).mp hrows
  obtain rfl : staff = base := Option.some.inj stored
  have same : vs = [.null, .int 1, .int 1, .int 2] :=
    List.map_injective_iff.mpr (Option.some_injective _) (values.symm.trans rfl)
  rw [same]
  simp [Value.Exact.null, Value.Exact.int]

def managers : Binding Expr := pure (.projection (.single (staffColumn "boss_id" ⟨1⟩ ⟨2⟩) "boss_id" .int))

def numbers : Projection Expr := .single (staffColumn "ID" ⟨3⟩ ⟨4⟩) "ID" .int

def employedManagers (negate : Bool) : Binding Expr :=
  Binding.membership (context .ansi .server) negate managers (pure (.projection numbers)) none

/-- Of the distinct managers, the intersection has those who are employees, and the difference has the others. -/
theorem execute_employedManagers (negate : Bool) : ∃ d s u s', ∃ xs ys : List Value,
    (Binding.clause (context .ansi .server) managers fun s => { s with distinct := true }).run
        ⟨⟨7⟩, [], [], none, []⟩ = .ok (d, s)
      ∧ (employedManagers negate).run ⟨⟨5⟩, [], [], none, []⟩ = .ok (u, s')
      ∧ (Expr.projection d).execute Sample.tables = .ok (.list (xs.map .ofValue))
      ∧ (Expr.projection numbers).execute Sample.tables = .ok (.list (ys.map .ofValue))
      ∧ u.execute Sample.tables
        = .ok (.list ((xs.filter fun x => ys.any (·.isEqual x) != negate).map .ofValue)) := by
  have left : ((Binding.clause (context .ansi .server) managers fun s => { s with distinct := true }).run
      ⟨⟨7⟩, [], [], none, []⟩).toOption.any (fun r =>
        ((Expr.projection r.1).execute Sample.tables).toOption.any fun _ => true) = true := by
    decide +kernel
  have right : ((Expr.projection numbers).execute Sample.tables).toOption.any (fun _ => true) = true := by
    decide +kernel
  have both : ((employedManagers negate).run ⟨⟨5⟩, [], [], none, []⟩).toOption.any (fun r =>
      (r.1.execute Sample.tables).toOption.any fun _ => true) = true := by
    cases negate <;> decide +kernel
  obtain ⟨⟨d, s⟩, hd, left⟩ := exists_ok_of_any left
  obtain ⟨_, hdistinct, -⟩ := exists_ok_of_any left
  obtain ⟨_, helements, -⟩ := exists_ok_of_any right
  obtain ⟨⟨u, s'⟩, hu, both⟩ := exists_ok_of_any both
  obtain ⟨_, hv, -⟩ := exists_ok_of_any both
  obtain ⟨xs, ys, rfl, rfl, rfl⟩ := Binding.execute_membership rfl rfl rfl hd hu (by decide)
    (by decide +kernel) (fun _ => exact_managers _ _) hdistinct helements hv
  exact ⟨d, s, u, s', xs, ys, hd, hu, hdistinct, helements, hv⟩

end Sample

end ObjectQuery
