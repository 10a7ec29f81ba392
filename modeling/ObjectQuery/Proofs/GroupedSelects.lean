import ObjectQuery.Proofs.KeyGroups
import ObjectQuery.Proofs.Records

/-!
Selects over groups of rows. A select that groups by one key has a row for each key, in the order in
which the keys first appear, and its columns are computed in the scope of the rows with that key; a
select of nothing but aggregates has one row, for all rows of its source.
-/

namespace ObjectQuery

open Eval

variable {tables : Tables} {σ : Scope}

structure Select.Straight (s : Select Expr) : Prop where
  orderBy : s.orderBy = []
  distinct : s.distinct = false
  reversed : s.reversed = false
  skip : s.skip = none
  take : s.take = none
  unnumbered : numbering? s = none

def Eval.rowOf (tables : Tables) (columns : List (ColumnDecl Expr)) (τ : Scope) : Result Row :=
  columns.mapM fun d => do return (d.name, ← scalar tables d.expr τ)

theorem mapM_map_ok {ε α β γ : Type} (f : α → Except ε β) (g : β → γ) (l : List α) :
    (l.mapM f >>= fun bs => .ok (bs.map g)) = l.mapM fun a => f a >>= fun b => .ok (g b) := by
  induction l with
  | nil => rfl
  | cons a rest ih =>
    rw [List.mapM_cons, List.mapM_cons, ← ih]
    simp only [bind_assoc]
    refine bind_congr fun b => ?_
    cases rest.mapM f <;> rfl

theorem Eval.arrange_straight {s : Select Expr} (straight : s.Straight) (produced : List Produced) :
    arrange s produced = produced.map (·.row) := by
  have unordered : sortStable (fun a b : Produced => compareKeys [] a.keys b.keys == .lt) produced
      = produced := @sortWith_eq_self_of_tied _ (fun _ _ => .eq) _ _ fun _ _ _ _ => rfl
  simp only [arrange, straight.orderBy, straight.distinct, straight.reversed, List.map_nil, unordered,
    Bool.false_eq_true, if_false]

theorem Select.Straight.select_eq {s : Select Expr} (straight : s.Straight) (tables : Tables) (σ : Scope) :
    select tables s σ = (do
      let frames ← Eval.frames tables s σ
      let kept ← Eval.filtered s (fun e _ => scalar tables e) σ frames
      let scopes ← Eval.scopes s (fun e _ => scalar tables e) σ kept
      scopes.mapM (rowOf tables s.columns)) := by
  rw [Eval.select_eq, Eval.frames]
  refine bind_congr fun frames => bind_congr fun kept => bind_congr fun scopes => ?_
  have row : ∀ τ, (produce s (fun e _ => scalar tables e) τ >>= fun p => .ok p.row)
      = rowOf tables s.columns τ := by
    intro τ
    rw [produce_eq, straight.orderBy, rowOf]
    cases s.columns.mapM fun d => do return (d.name, ← scalar tables d.expr τ) <;> rfl
  simp only [numbered, straight.unnumbered, ok_bind, skipped_eq, taken_eq, straight.skip, straight.take,
    arrange_straight straight, mapM_map_ok, row]

/-- A select without clauses has a row for each row of the select that it reads. -/
theorem Select.select_over {rel : Alias} {columns : List (ColumnDecl Expr)} {q : Select Expr}
    (unaggregated : ∀ d ∈ columns, (Part.expr d.expr).aggregates = false)
    (unnumbered : ∀ d ∈ columns, ∀ orders, d.expr ≠ .rowNumber orders) :
    select tables (plain rel columns (some (.select q)) none) σ = (do
      let rows ← select tables q σ
      rows.mapM fun row => rowOf tables columns (σ.bind q.rel row)) := by
  have straight : (plain rel columns (some (.select q)) none).Straight :=
    ⟨rfl, rfl, rfl, rfl, rfl, Correspondence.numbering?_eq_none unnumbered⟩
  have aggregates : (plain rel columns (some (.select q)) none).hasAggregates = false := by
    have none : columns.any (fun d => (Part.expr d.expr).aggregates) = false :=
      List.any_eq_false.mpr fun d hd => by simp [unaggregated d hd]
    simp [hasAggregates, plain, none]
  have frames : Eval.frames tables (plain rel columns (some (.select q)) none) σ
      = (do return (← select tables q σ).map fun row => [(q.rel, some row)]) := by
    rw [Eval.frames, show (plain rel columns (some (.select q)) none).source = some (.select q) from rfl]
    simp only [Eval.source]
  rw [straight.select_eq, frames, bind_assoc]
  refine bind_congr fun rows => ?_
  rw [pure_bind, filtered_eq, show (plain rel columns (some (.select q)) none).filter = none from rfl]
  simp only [ok_bind]
  rw [scopes_eq, aggregates, if_neg (by simp [plain]), ok_bind, List.map_map, List.mapM_map]
  rfl

/-- What a select answers, it reads from what the select under it answers. -/
theorem Select.exists_source {s q : Select Expr} (reads : s.source = some (.select q)) {rows : List Row}
    (h : select tables s σ = .ok rows) : ∃ below, select tables q σ = .ok below := by
  rw [Eval.select_eq, reads] at h
  obtain ⟨frames, hframes, -⟩ := bind_eq_ok.mp h
  simp only [Eval.source] at hframes
  obtain ⟨below, hbelow, -⟩ := bind_eq_ok.mp hframes
  exact ⟨below, hbelow⟩

theorem Eval.rowOf_append (columns more : List (ColumnDecl Expr)) (τ : Scope) :
    rowOf tables (columns ++ more) τ = (do
      let row ← rowOf tables columns τ
      let rest ← rowOf tables more τ
      return row ++ rest) :=
  List.mapM_append

/-- A row has a value for each column, under its name. -/
theorem Eval.rowOf_spec {columns : List (ColumnDecl Expr)} {τ : Scope} {row : Row}
    (h : rowOf tables columns τ = .ok row) : row.map (·.1) = columns.map (·.name)
      ∧ ∀ d ∈ columns, ∃ v, scalar tables d.expr τ = .ok v ∧ (d.name, v) ∈ row := by
  have values := forall₂_of_mapM h
  clear h
  induction values with
  | nil => exact ⟨rfl, by simp⟩
  | cons value _ ih =>
    obtain ⟨v, hv, eq⟩ := bind_eq_ok.mp value
    obtain rfl := Except.ok.inj eq
    refine ⟨by rw [List.map_cons, List.map_cons, ih.1], ?_⟩
    rw [List.forall_mem_cons]
    refine ⟨⟨v, hv, by simp⟩, fun d hd => ?_⟩
    obtain ⟨w, hw, mem⟩ := ih.2 d hd
    exact ⟨w, hw, List.mem_cons_of_mem _ mem⟩

def Scope.ofGroup (σ : Scope) (blank : Frame) (src : Alias) (rows : List Row) : Scope :=
  { σ.extend ((rows.map fun r => [(src, some r)]).head?.getD blank) with
    group := some (rows.map fun r => [(src, some r)]) }

namespace Select

variable {rel src : Alias} {columns : List (ColumnDecl Expr)} {base key : Expr} {rows : List Row}

def byKey (rel : Alias) (columns : List (ColumnDecl Expr)) (base key : Expr) : Select Expr :=
  { plain rel columns (some base) none with groupBy := [key] }

/-- There is a row for each key, in the order in which the keys appear, and it is computed from the rows
with that key. -/
theorem select_byKey (unnumbered : ∀ d ∈ columns, ∀ orders, d.expr ≠ .rowNumber orders)
    (hsource : Eval.source tables base σ = .ok (rows.map fun r => [(src, some r)])) {value : Row → Value}
    (hkey : ∀ r ∈ rows, scalar tables key (σ.extend [(src, some r)]) = .ok (value r)) {t : KeyType}
    (typed : ∀ r ∈ rows, t.admits (value r)) :
    select tables (byKey rel columns base key) σ = (rows.map value).eraseDups.mapM fun k =>
      rowOf tables columns (σ.ofGroup (nullFrame (some base)) src (rows.filter (value · == k))) := by
  have straight : (byKey rel columns base key).Straight :=
    ⟨rfl, rfl, rfl, rfl, rfl, Correspondence.numbering?_eq_none unnumbered⟩
  have frames : Eval.frames tables (byKey rel columns base key) σ = .ok (rows.map fun r => [(src, some r)]) :=
    hsource
  have kept : ∀ frames, Eval.filtered (byKey rel columns base key) (fun e _ => scalar tables e) σ frames
      = .ok frames := fun frames => by rw [filtered_eq]; rfl
  have keyed : (rows.map fun r => [(src, some r)]).mapM (fun frame => do
        return (← (byKey rel columns base key).groupBy.mapM fun e => scalar tables e (σ.extend frame), frame))
      = .ok (rows.map fun r => ([value r], [(src, some r)])) := by
    rw [List.mapM_map]
    refine mapM_eq_ok fun r hr => ?_
    simp only [byKey, List.mapM_cons, List.mapM_nil, Function.comp_apply, hkey r hr]
    rfl
  have grouped : groupScopes (byKey rel columns base key) σ (rows.map fun r => ([value r], [(src, some r)]))
      = (rows.map value).eraseDups.map fun k =>
        σ.ofGroup (nullFrame (some base)) src (rows.filter (value · == k)) := by
    rw [groupScopes, groupFrames_eq (fun r => [(src, some r)]) typed]
    simp only [byKey, List.isEmpty_cons, Bool.and_false, Bool.false_eq_true, if_false, List.map_map]
    rfl
  rw [straight.select_eq, frames, ok_bind, kept, ok_bind, scopes_eq, if_pos (by rfl), keyed, ok_bind, grouped]
  exact List.mapM_map

/-- Aggregates over all rows have one row. -/
theorem select_total (aggregates : (plain rel columns (some base) none).hasAggregates = true)
    (unnumbered : ∀ d ∈ columns, ∀ orders, d.expr ≠ .rowNumber orders)
    (hsource : Eval.source tables base σ = .ok (rows.map fun r => [(src, some r)])) :
    select tables (plain rel columns (some base) none) σ
      = (do return [← rowOf tables columns (σ.ofGroup (nullFrame (some base)) src rows)]) := by
  have straight : (plain rel columns (some base) none).Straight :=
    ⟨rfl, rfl, rfl, rfl, rfl, Correspondence.numbering?_eq_none unnumbered⟩
  have frames : Eval.frames tables (plain rel columns (some base) none) σ
      = .ok (rows.map fun r => [(src, some r)]) := hsource
  have kept : ∀ frames, Eval.filtered (plain rel columns (some base) none) (fun e _ => scalar tables e) σ
      frames = .ok frames := fun frames => by rw [filtered_eq]; rfl
  have keyed : (rows.map fun r => [(src, some r)]).mapM (fun frame => do
        return (← (plain rel columns (some base) none).groupBy.mapM fun e =>
          scalar tables e (σ.extend frame), frame))
      = .ok ((rows.map fun r => [(src, some r)]).map fun frame => ([], frame)) :=
    mapM_eq_ok fun frame _ => rfl
  have grouped : groupScopes (plain rel columns (some base) none) σ
        ((rows.map fun r => [(src, some r)]).map fun frame => ([], frame))
      = [σ.ofGroup (nullFrame (some base)) src rows] := by
    rw [groupScopes, groupFrames_keyless]
    cases rows <;> rfl
  rw [straight.select_eq, frames, ok_bind, kept, ok_bind, scopes_eq, if_pos (by simp [aggregates]), keyed,
    ok_bind, grouped]
  rfl

end Select

variable {blank : Frame} {src : Alias} {rows : List Row} {r : Row}

/-- The first row of a group stands for it. -/
theorem Eval.scalar_ofGroup (hr : r ∈ rows) {name : String} {v : Value}
    (all : ∀ r ∈ rows, r.get? name = some v) (type : ColumnType) :
    scalar tables (.column ⟨src, name, type⟩) (σ.ofGroup blank src rows) = .ok v := by
  cases rows with
  | nil => cases hr
  | cons first rest =>
    have found := all first (by simp)
    rw [scalar, Scope.column]
    simp [Scope.ofGroup, Scope.extend, found]

def Eval.total (kind : AggregateKind) (column : Option String) (rows : List Row) : Result Value :=
  match column with
  | none => .ok (.int rows.length)
  | some name =>
    Value.aggregate kind (Value.aggregated false (rows.map fun r => (r.get? name).getD .null))

def Expr.aggregateOf (kind : AggregateKind) (argument : Option Slot) (src : Alias) : Expr :=
  .aggregate kind (argument.map fun k => .column (k.ref src)) false

theorem Eval.scalar_aggregateOf {kind : AggregateKind} {argument : Option Slot}
    (counts : argument = none → kind.isCount = true)
    (found : ∀ k ∈ argument, ∀ r ∈ rows, (r.get? k.column).isSome = true) :
    scalar tables (.aggregateOf kind argument src) (σ.ofGroup blank src rows)
      = total kind (argument.map (·.column)) rows := by
  rw [Expr.aggregateOf, scalar]
  simp only [Scope.ofGroup]
  cases argument with
  | none =>
    simp only [Option.map_none, counts rfl, if_true, List.length_map]
    rfl
  | some k =>
    have values : (rows.map fun r => [(src, some r)]).mapM (fun frame =>
          scalar tables (.column (k.ref src)) (Scope.extend (σ.ofGroup blank src rows) frame))
        = .ok (rows.map fun r => (r.get? k.column).getD .null) := by
      rw [List.mapM_map]
      exact mapM_eq_ok fun r hr => scalar_bound (by simp) (found k rfl r hr) k.type _
    simp only [Option.map_some]
    exact (congrArg (· >>= _) values).trans rfl

/-- An aggregate is the same when its rows are read through a select. -/
theorem Eval.total_through (kind : AggregateKind) {slots : List Slot} {argument : Option Slot}
    (mem : ∀ k ∈ argument, k ∈ slots) (rows : List Row) :
    total kind ((argument.map (Slot.through (Forward.all slots))).map (·.column))
        (rows.map (Forward.row (Forward.all slots)))
      = total kind (argument.map (·.column)) rows := by
  cases argument with
  | none => simp [total]
  | some k =>
    have values : (rows.map (Forward.row (Forward.all slots))).map
          (fun r => (r.get? (k.through (Forward.all slots)).column).getD .null)
        = rows.map fun r => (r.get? k.column).getD .null := by
      rw [List.map_map]
      refine List.map_congr_left fun r _ => ?_
      rw [Function.comp_apply, Forward.get?_through (mem k rfl)]
      rfl
    simp only [Option.map_some, total, values]

end ObjectQuery
