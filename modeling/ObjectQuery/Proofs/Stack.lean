import ObjectQuery.Proofs.KeyOrder
import ObjectQuery.Proofs.Plain

/-!
Stacks of selects over one table. Each layer filters, orders, pages and computes columns over the
rows of the layer below it. What a stack means is told apart from whether its evaluation succeeds:
it picks rows of the table in some order (`picked`), and it makes a row of its own out of each of
them (`trace`). An evaluation that succeeds gives the rows made from the rows picked.
-/

namespace ObjectQuery

open Eval

def Value.isTrue : Value → Bool
  | .bool b => b
  | _ => false

def Reads (allowed : Prop) (scope : Scope) (e : Expr) (v : Value) : Prop :=
  (∃ c, e = .column c ∧ scope.column c = .ok v) ∨ allowed ∧ e = .const v

structure Grammar where
  members : Prop
  constants : Prop

def Grammar.loosened (G : Grammar) : Grammar := { G with constants := True }

structure Meaning (tables : Tables) extends Grammar where
  value : Expr → Scope → Value
  object : Expr → Scope → Option ClientValue
  value_of_scalar : ∀ {P e scope v}, Plain members P e → scalar tables e scope = .ok v →
    value e scope = v
  object_of_client : ∀ {P e scope v cache cache'}, Plain members P e →
    (client tables e scope).run cache = .ok (v, cache') → object e scope = some v
  value_replace : ∀ {P e σ scope scope'}, Plain members P e →
    (∀ c, P c → ∃ v, scope.column c = .ok v ∧ Reads constants scope' (σ c) v) →
    value (e.replace σ) scope' = value e scope
  object_replace : ∀ {P e σ scope scope'}, Plain members P e →
    (∀ c, P c → ∃ v, scope.column c = .ok v ∧ Reads constants scope' (σ c) v) →
    object (e.replace σ) scope' = object e scope
  isTrue_both : ∀ a b scope,
    (value (.both a b) scope).isTrue = ((value a scope).isTrue && (value b scope).isTrue)

namespace Meaning

variable {tables : Tables} (M : Meaning tables)

theorem value_column {c : Column} {scope : Scope} {v : Value} (h : scope.column c = .ok v) :
    M.value (.column c) scope = v :=
  M.value_of_scalar (P := fun _ => True) (.column trivial) (by rw [scalar.eq_2]; exact h)

theorem value_const {v : Value} (hv : v.Exact) (scope : Scope) : M.value (.const v) scope = v :=
  M.value_of_scalar (P := fun _ => True) (.const hv) (by rw [scalar])

end Meaning

structure Layer where
  rel : Alias
  columns : List (ColumnDecl Expr)
  filter : Option Expr
  orderBy : List (Order Expr)
  skip : Option Nat
  take : Option Nat

namespace Layer

def names (l : Layer) : List String := l.columns.map (·.name)

def count (n : Nat) : Expr := .int n

def above (l : Layer) (source : Expr) : Select Expr where
  rel := l.rel
  columns := l.columns
  source := some source
  filter := l.filter
  orderBy := l.orderBy
  groupBy := []
  distinct := false
  skip := l.skip.map count
  take := l.take.map count
  reversed := false

def page {α : Type} (l : Layer) (items : List α) : List α :=
  let rest := items.drop (l.skip.getD 0)
  match l.take with
  | none => rest
  | some n => rest.take n

def isPaged (l : Layer) : Bool := l.skip.isSome || l.take.isSome

def mapExprs (f : Expr → Expr) (l : Layer) : Layer where
  rel := l.rel
  columns := l.columns.map fun d => { d with expr := f d.expr }
  filter := l.filter.map f
  orderBy := l.orderBy.map fun o => { o with expr := f o.expr }
  skip := l.skip
  take := l.take

def exprs (l : Layer) : List Expr :=
  l.columns.map (·.expr) ++ l.filter.toList ++ l.orderBy.map (·.expr)

theorem mem_exprs_of_column {l : Layer} {d : ColumnDecl Expr} (h : d ∈ l.columns) :
    d.expr ∈ l.exprs := by
  simp only [exprs, List.mem_append, List.mem_map]
  exact .inl (.inl ⟨d, h, rfl⟩)

theorem mem_exprs_of_filter {l : Layer} {e : Expr} (h : e ∈ l.filter) : e ∈ l.exprs := by
  simp only [exprs, List.mem_append]
  exact .inl (.inr (by simpa using h))

theorem mem_exprs_of_order {l : Layer} {o : Order Expr} (h : o ∈ l.orderBy) : o.expr ∈ l.exprs := by
  simp only [exprs, List.mem_append, List.mem_map]
  exact .inr ⟨o, h, rfl⟩

theorem mapExprs_self {f : Expr → Expr} {l : Layer} (h : ∀ e ∈ l.exprs, f e = e) :
    l.mapExprs f = l := by
  have columns : l.columns.map (fun d => { d with expr := f d.expr }) = l.columns := by
    rw [List.map_congr_left fun d hd => ?_, List.map_id']
    rw [h d.expr (mem_exprs_of_column hd)]
  have filter : l.filter.map f = l.filter := by
    cases hf : l.filter with
    | none => rfl
    | some e => rw [Option.map_some, h e (mem_exprs_of_filter hf)]
  have orders : l.orderBy.map (fun o => { o with expr := f o.expr }) = l.orderBy := by
    rw [List.map_congr_left fun o ho => ?_, List.map_id']
    rw [h o.expr (mem_exprs_of_order ho)]
  rw [mapExprs, columns, filter, orders]

structure Fits (G : Grammar) (P : Column → Prop) (l : Layer) : Prop where
  plain : ∀ e ∈ l.exprs, Plain G.members P e
  nodup : l.names.Nodup
  constants : ∀ d ∈ l.columns, ∀ v, d.expr = .const v → G.constants

end Layer

theorem Plain.hasNoAggregates {members : Prop} {P : Column → Prop} {e : Expr}
    (h : Plain members P e) : (Part.expr e).aggregates = false := by
  rw [Part.aggregates, h.gather_eq_nil]
  · rfl
  · intro e he
    cases he <;> rfl

namespace Layer

variable {tables : Tables} {G : Grammar} {P : Column → Prop} {l : Layer}

theorem Fits.column (h : l.Fits G P) {d : ColumnDecl Expr} (hd : d ∈ l.columns) :
    Plain G.members P d.expr :=
  h.plain _ (mem_exprs_of_column hd)

theorem Fits.filter (h : l.Fits G P) {e : Expr} (he : e ∈ l.filter) : Plain G.members P e :=
  h.plain _ (mem_exprs_of_filter he)

theorem Fits.order (h : l.Fits G P) {o : Order Expr} (ho : o ∈ l.orderBy) :
    Plain G.members P o.expr :=
  h.plain _ (mem_exprs_of_order ho)

theorem hasNoAggregates (h : ∀ e ∈ l.exprs, (Part.expr e).aggregates = false) (source : Expr) :
    (l.above source).hasAggregates = false := by
  simp only [Select.hasAggregates, above, Bool.or_eq_false_iff, List.any_eq_false]
  refine ⟨⟨?_, fun o ho => by simp [h _ (mem_exprs_of_order ho)]⟩,
    fun d hd => by simp [h _ (mem_exprs_of_column hd)]⟩
  cases hf : l.filter with
  | none => rfl
  | some e => exact h e (mem_exprs_of_filter hf)

theorem Fits.hasNoAggregates (h : l.Fits G P) (source : Expr) :
    (l.above source).hasAggregates = false :=
  Layer.hasNoAggregates (fun e he => (h.plain e he).hasNoAggregates) source

theorem hasNoNumbering {members : Prop} (plain : ∀ d ∈ l.columns, Plain members P d.expr)
    (source : Expr) : numbering? (l.above source) = none := by
  rw [numbering?, List.findSome?_eq_none_iff]
  rintro ⟨d, hd⟩ -
  have plain := plain d hd
  simp only
  split
  · rename_i orders hc
    rw [hc] at plain
    cases plain
  · rfl

theorem paged_over (source : Expr) (env : Scope) (rows : List Row) :
    (do
      let rows ← skipped (l.above source) (fun e _ => scalar tables e) env rows
      taken (l.above source) (fun e _ => scalar tables e) env rows) = .ok (l.page rows) := by
  simp only [skipped_eq, taken_eq, above, page]
  cases l.skip <;> cases l.take <;> simp [count, Expr.int, scalar, Value.asInt, bind, Except.bind, pure, Except.pure]

/-- The rows of a layer, clause by clause. -/
theorem select_over {source : Expr} (aggregates : (l.above source).hasAggregates = false)
    (env : Scope) :
    select tables (l.above source) env = (do
      let frames ← Eval.source tables source env
      let frames ← (match l.filter with
        | none => .ok frames
        | some e => frames.filterM fun frame => do holds (← scalar tables e (env.extend frame)))
      let scopes ← numbered (l.above source) (fun e _ => scalar tables e) (frames.map env.extend)
      let produced ← scopes.mapM fun scope => do
        let row ← l.columns.mapM fun d => do return (d.name, ← scalar tables d.expr scope)
        let keys ← l.orderBy.mapM fun o => scalar tables o.expr scope
        return Produced.mk row keys
      let directions := l.orderBy.map (·.direction)
      return l.page ((sortStable (fun a b => compareKeys directions a.keys b.keys == .lt)
        produced).map (·.row))) := by
  rw [select_eq]
  refine bind_congr fun frames => ?_
  rw [filtered_eq]
  refine bind_congr fun frames => ?_
  have ungrouped : (!(l.above source).groupBy.isEmpty || (l.above source).hasAggregates) = false := by
    rw [aggregates]
    rfl
  rw [scopes_eq, ungrouped, if_neg Bool.false_ne_true, ok_bind]
  refine bind_congr fun scopes => ?_
  have rows : produce (l.above source) (fun e _ => scalar tables e) = _ :=
    funext fun scope => produce_eq _ _
  rw [rows]
  exact bind_congr fun produced => paged_over source env _

structure Evaluates (M : Meaning tables) (l : Layer) : Prop where
  value : ∀ e ∈ l.exprs, ∀ {scope v}, scalar tables e scope = .ok v → M.value e scope = v
  aggregates : ∀ source, (l.above source).hasAggregates = false
  numbering : ∀ source, numbering? (l.above source) = none

theorem Fits.evaluates {M : Meaning tables} (h : l.Fits M.toGrammar P) : l.Evaluates M where
  value e he _ _ hv := M.value_of_scalar (h.plain e he) hv
  aggregates := h.hasNoAggregates
  numbering := hasNoNumbering fun _ hd => h.column hd

end Layer

structure Feed (α : Type) where
  rel : Alias
  names : List String
  trace : α → Row
  picked : List α

namespace Feed

variable {α : Type} {tables : Tables} (M : Meaning tables) (f : Feed α)

def Sees (c : Column) : Prop := c.rel = f.rel ∧ c.name ∈ f.names

def view (item : α) : Scope := Scope.root.bind f.rel (f.trace item)

def frame (item : α) : Frame := [(f.rel, some (f.trace item))]

def passes (l : Layer) (item : α) : Bool :=
  l.filter.all fun e => (M.value e (f.view item)).isTrue

def keys (orders : List (Order Expr)) : List (Direction × (α → Value)) :=
  orders.map fun o => (o.direction, fun item => M.value o.expr (f.view item))

def made (l : Layer) (item : α) : Row :=
  l.columns.map fun d => (d.name, M.value d.expr (f.view item))

def Typed (l : Layer) : Prop :=
  ∀ k ∈ f.keys M l.orderBy, ∃ type : KeyType,
    ∀ item ∈ f.picked.filter (f.passes M l), type.admits (k.2 item)

def layer (l : Layer) : Feed α where
  rel := l.rel
  names := l.names
  trace := f.made M l
  picked := l.page (sortWith (byKeys (f.keys M l.orderBy)) (f.picked.filter (f.passes M l)))

variable {M f} {l : Layer}

theorem column_bind {a : Alias} {row : Row} {c : Column} {v : Value} (ha : c.rel = a)
    (hv : row.get? c.name = some v) : (Scope.root.bind a row).column c = .ok v := by
  simp [Scope.bind, Scope.extend, Scope.root, Scope.column, ha, hv]

theorem get?_columns {columns : List (ColumnDecl Expr)} (nodup : (columns.map (·.name)).Nodup)
    {d : ColumnDecl Expr} (hd : d ∈ columns) (value : ColumnDecl Expr → Value) :
    Row.get? (columns.map fun d => (d.name, value d)) d.name = some (value d) :=
  Row.get?_of_mem (x := (d.name, value d)) (by simpa [Function.comp_def] using nodup)
    (List.mem_map.mpr ⟨d, hd, rfl⟩)

theorem get?_made (nodup : l.names.Nodup) {d : ColumnDecl Expr} (hd : d ∈ l.columns) (item : α) :
    (f.made M l item).get? d.name = some (M.value d.expr (f.view item)) :=
  get?_columns nodup hd fun d => M.value d.expr (f.view item)

theorem page_map {β : Type} (g : α → β) (items : List α) :
    l.page (items.map g) = (l.page items).map g := by
  simp only [Layer.page]
  split <;> simp

theorem holds_eq {v : Value} {b : Bool} (h : holds v = .ok b) : v.isTrue = b := by
  cases v <;> simp_all [holds, Value.truth, Value.isTrue, bind, Except.bind, pure, Except.pure]

theorem kept_of_filter
    (value : ∀ e ∈ l.filter, ∀ {scope v}, scalar tables e scope = .ok v → M.value e scope = v)
    {items : List α} {kept : List Frame}
    (h : (match l.filter with
      | none => .ok (items.map f.frame)
      | some e => (items.map f.frame).filterM fun frame => do
        holds (← scalar tables e (Scope.root.extend frame))) = Except.ok kept) :
    kept = (items.filter (f.passes M l)).map f.frame := by
  cases hf : l.filter with
  | none =>
    rw [hf] at h
    have all : items.filter (f.passes M l) = items :=
      List.filter_eq_self.mpr fun _ _ => by simp [passes, hf]
    rw [all]
    exact (Except.ok.inj h).symm
  | some e =>
    rw [hf] at h
    have kept_eq := eq_filter_of_filterM
      (q := fun g => (M.value e (Scope.root.extend g)).isTrue) h fun g _ b hb => by
        obtain ⟨v, hv, hb⟩ := bind_eq_ok.mp hb
        rw [value e hf hv]
        exact holds_eq hb
    rw [kept_eq, List.filter_map]
    congr 1
    refine List.filter_congr fun item _ => ?_
    simp [passes, hf, frame, view, Scope.bind]

theorem produced_of_row
    (value : ∀ e ∈ l.exprs, ∀ {scope v}, scalar tables e scope = .ok v → M.value e scope = v)
    {scope : Scope} {p : Produced}
    (h : (do
      let values ← l.columns.mapM fun d => do
        return (d.name, ← scalar tables d.expr scope)
      let keys ← l.orderBy.mapM fun o => scalar tables o.expr scope
      return Produced.mk values keys) = Except.ok p) :
    p = ⟨l.columns.map fun d => (d.name, M.value d.expr scope),
      l.orderBy.map fun o => M.value o.expr scope⟩ := by
  obtain ⟨values, hv, h⟩ := bind_eq_ok.mp h
  obtain ⟨ks, hk, h⟩ := bind_eq_ok.mp h
  have values_eq : values = l.columns.map fun d => (d.name, M.value d.expr scope) := by
    refine eq_map_of_mapM hv fun d hd b hb => ?_
    obtain ⟨v, hs, hb⟩ := bind_eq_ok.mp hb
    cases hb
    rw [← value _ (Layer.mem_exprs_of_column hd) hs]
  have keys_eq : ks = l.orderBy.map fun o => M.value o.expr scope :=
    eq_map_of_mapM hk fun o ho b hb => value _ (Layer.mem_exprs_of_order ho) hb
  cases h
  rw [values_eq, keys_eq]

theorem sorted_produced {items : List α}
    (h : ∀ k ∈ f.keys M l.orderBy, ∃ type : KeyType, ∀ item ∈ items, type.admits (k.2 item)) :
    (sortStable (fun a b => compareKeys (l.orderBy.map (·.direction)) a.keys b.keys == .lt)
      (items.map fun item => Produced.mk (f.made M l item)
        (l.orderBy.map fun o => M.value o.expr (f.view item)))).map (·.row)
      = (sortWith (byKeys (f.keys M l.orderBy)) items).map (f.made M l) := by
  have directions : l.orderBy.map (·.direction) = (f.keys M l.orderBy).map (·.1) := by
    simp [keys, Function.comp_def]
  have values : ∀ item, (l.orderBy.map fun o => M.value o.expr (f.view item))
      = (f.keys M l.orderBy).map (·.2 item) := fun item => by simp [keys, Function.comp_def]
  rw [sortStable_map _ fun _ _ => rfl, List.map_map, directions, sortWith]
  congr 1
  refine sortStable_congr fun a ha b hb => ?_
  rw [values, values, compareKeys_eq_byKeys fun k hk => ?_]
  obtain ⟨type, admits⟩ := h k hk
  exact ⟨type, admits a ha, admits b hb⟩

/-- The rows that the evaluation of a layer gives are those made from the rows picked. -/
theorem rows_of_select (evaluates : l.Evaluates M) (typed : f.Typed M l) {e : Expr}
    {rows : List Row}
    (frames : ∀ {frames}, source tables e .root = .ok frames → frames = f.picked.map f.frame)
    (h : select tables (l.above e) .root = .ok rows) :
    rows = (f.layer M l).picked.map (f.made M l) := by
  rw [Layer.select_over (evaluates.aggregates e)] at h
  obtain ⟨all, hall, h⟩ := bind_eq_ok.mp h
  obtain rfl := frames hall
  obtain ⟨kept, hkept, h⟩ := bind_eq_ok.mp h
  obtain rfl := kept_of_filter (fun e he => evaluates.value e (Layer.mem_exprs_of_filter he)) hkept
  rw [numbered, evaluates.numbering e, ok_bind] at h
  obtain ⟨produced, hp, h⟩ := bind_eq_ok.mp h
  rw [List.map_map, List.mapM_map] at hp
  obtain rfl := eq_map_of_mapM hp fun row _ p hp => (produced_of_row evaluates.value hp).symm
  cases h
  rw [layer, ← page_map, ← sorted_produced typed]
  rfl

theorem frames_of_select (evaluates : l.Evaluates M) (typed : f.Typed M l) {e : Expr}
    (below : ∀ {frames}, source tables e .root = .ok frames → frames = f.picked.map f.frame)
    {frames : List Frame} (h : source tables (.select (l.above e)) .root = .ok frames) :
    frames = (f.layer M l).picked.map (f.layer M l).frame := by
  rw [source] at h
  obtain ⟨rows, hrows, h⟩ := bind_eq_ok.mp h
  cases h
  rw [rows_of_select evaluates typed below hrows, List.map_map]
  rfl

/-- Where the evaluation of a layer succeeds, its filter was evaluated at every item. -/
theorem tested_of_select (evaluates : l.Evaluates M) {e test : Expr} (filter : l.filter = some test)
    {rows : List Row}
    (frames : ∀ {frames}, source tables e .root = .ok frames → frames = f.picked.map f.frame)
    (h : select tables (l.above e) .root = .ok rows) :
    ∀ item ∈ f.picked, ∃ v, scalar tables test (f.view item) = .ok v := by
  rw [Layer.select_over (evaluates.aggregates e)] at h
  obtain ⟨all, hall, h⟩ := bind_eq_ok.mp h
  obtain rfl := frames hall
  obtain ⟨kept, hkept, -⟩ := bind_eq_ok.mp h
  rw [filter] at hkept
  intro item hitem
  obtain ⟨b, hb⟩ := ok_of_filterM hkept (f.frame item) (List.mem_map_of_mem hitem)
  obtain ⟨v, hv, -⟩ := bind_eq_ok.mp hb
  exact ⟨v, hv⟩

theorem objects_of_mapM {β σ ε : Type} {f : α → StateT σ (Except ε) β} {g : α → Option β}
    (hf : ∀ {a b s s'}, (f a).run s = .ok (b, s') → g a = some b) {items : List α} {out : List β}
    {s s' : σ} (h : (items.mapM f).run s = .ok (out, s')) : items.map g = out.map some := by
  induction items generalizing out s with
  | nil =>
    cases h
    rfl
  | cons a rest ih =>
    rw [List.mapM_cons, StateT.run_bind] at h
    obtain ⟨⟨b, s₁⟩, hb, h⟩ := bind_eq_ok.mp h
    rw [StateT.run_bind] at h
    obtain ⟨⟨bs, s₂⟩, hbs, h⟩ := bind_eq_ok.mp h
    cases h
    rw [List.map_cons, List.map_cons, hf hb, ih hbs]

theorem select_of_execute {q : Select Expr} {projector : Expr} {v : ClientValue}
    (h : (Expr.projection ⟨q, projector, none⟩).execute tables = .ok v) :
    ∃ rows, select tables q .root = .ok rows := by
  simp only [Expr.execute] at h
  obtain ⟨_, hrun, -⟩ := bind_eq_ok.mp h
  rw [client, project, StateT.run_bind] at hrun
  obtain ⟨_, hrows, -⟩ := bind_eq_ok.mp hrun
  obtain ⟨rows, hsel, -⟩ := bind_eq_ok.mp hrows
  exact ⟨rows, hsel⟩

/-- A projection that is executed gives the objects made from the rows of its select. -/
theorem execute_ok {q : Select Expr} (rel : q.rel = f.rel)
    (rows : ∀ {rows}, select tables q .root = .ok rows → rows = f.picked.map f.trace)
    {P : Column → Prop} {projector : Expr} (plain : Plain M.members P projector) {v : ClientValue}
    (h : (Expr.projection ⟨q, projector, none⟩).execute tables = .ok v) :
    ∃ values, v = .list values
      ∧ (f.picked.map fun item => M.object projector (f.view item)) = values.map some := by
  simp only [Expr.execute] at h
  obtain ⟨⟨v', cache⟩, hrun, h⟩ := bind_eq_ok.mp h
  cases h
  rw [client, project, StateT.run_bind] at hrun
  obtain ⟨⟨all, s₁⟩, hrows, hrun⟩ := bind_eq_ok.mp hrun
  obtain ⟨all', hsel, hrows⟩ := bind_eq_ok.mp hrows
  cases hrows
  rw [StateT.run_bind] at hrun
  obtain ⟨⟨values, s₂⟩, hvalues, hrun⟩ := bind_eq_ok.mp hrun
  cases hrun
  refine ⟨values, rfl, ?_⟩
  rw [← objects_of_mapM (fun h => M.object_of_client plain h) hvalues, rows hsel, List.map_map, rel]
  rfl

end Feed

abbrev Stack := List Layer

namespace Stack

variable {tables : Tables} (G : Grammar) (M : Meaning tables) (t : Table) (offered : List String)

def tree : Stack → Expr
  | [] => .table t
  | l :: below => .select (l.above (tree below))

def top : Stack → Alias
  | [] => t.rel
  | l :: _ => l.rel

def aliases (s : Stack) : List Alias := t.rel :: s.map (·.rel)

def offers : Stack → List String
  | [] => offered
  | l :: _ => l.names

def Sees (s : Stack) (c : Column) : Prop := c.rel = top t s ∧ c.name ∈ offers offered s

def Sound : Stack → Prop
  | [] => True
  | l :: below => l.rel ∉ aliases t below ∧ l.Fits G (Sees t offered below) ∧ Sound below

def trace : Stack → Row → Row
  | [], row => row
  | l :: below, row => l.columns.map fun d =>
    (d.name, M.value d.expr (Scope.root.bind (top t below) (trace below row)))

def view (s : Stack) (row : Row) : Scope := Scope.root.bind (top t s) (trace M t s row)

def passes (l : Layer) (below : Stack) (row : Row) : Bool :=
  l.filter.all fun e => (M.value e (view M t below row)).isTrue

def keys (l : Layer) (below : Stack) : List (Direction × (Row → Value)) :=
  l.orderBy.map fun o => (o.direction, fun row => M.value o.expr (view M t below row))

def picked (base : List Row) : Stack → List Row
  | [] => base
  | l :: below =>
    l.page (sortWith (byKeys (keys M t l below)) ((picked base below).filter (passes M t l below)))

def order : Stack → Row → Row → Ordering
  | [] => fun _ _ => .eq
  | l :: below => compareLex (byKeys (keys M t l below)) (order below)

def Uniform (base : List Row) : Stack → Prop
  | [] => True
  | l :: below =>
    (∀ k ∈ keys M t l below, ∃ type : KeyType,
      ∀ row ∈ (picked M t base below).filter (passes M t l below), type.admits (k.2 row))
    ∧ Uniform base below

def Full (row : Row) : Prop := ∀ n ∈ offered, ∃ v, row.get? n = some v

variable {M t offered} {base : List Row} {s : Stack} {l : Layer}

theorem get?_trace (nodup : l.names.Nodup) {d : ColumnDecl Expr} (hd : d ∈ l.columns) (row : Row) :
    (trace M t (l :: s) row).get? d.name = some (M.value d.expr (view M t s row)) :=
  Feed.get?_made (f := ⟨top t s, [], trace M t s, []⟩) nodup hd row

/-- Whatever can be read from a stack is there. -/
theorem column_view (sound : Sound M.toGrammar t offered s) {row : Row} (full : Full offered row) {c : Column}
    (hc : Sees t offered s c) : ∃ v, (view M t s row).column c = .ok v := by
  obtain ⟨rel, name⟩ := hc
  cases s with
  | nil =>
    obtain ⟨v, hv⟩ := full _ name
    exact ⟨v, Feed.column_bind rel hv⟩
  | cons l below =>
    obtain ⟨d, hd, hn⟩ := List.mem_map.mp name
    exact ⟨_, Feed.column_bind rel (hn ▸ get?_trace sound.2.1.nodup hd row)⟩

def feed (M : Meaning tables) (t : Table) (offered : List String) (base : List Row) (s : Stack) :
    Feed Row :=
  ⟨top t s, offers offered s, trace M t s, picked M t base s⟩

theorem frames_of_source (hbase : tables.get? t.name = some base) (sound : Sound M.toGrammar t offered s)
    (uniform : Uniform M t base s) {frames : List Frame}
    (h : source tables (tree t s) .root = .ok frames) :
    frames = (picked M t base s).map (feed M t offered base s).frame := by
  induction s generalizing frames with
  | nil =>
    rw [tree, source, hbase] at h
    exact (Except.ok.inj h).symm
  | cons l below ih =>
    exact Feed.frames_of_select (f := feed M t offered base below) sound.2.1.evaluates uniform.1
      (ih sound.2.2 uniform.2) h

/-- A stack that is evaluated gives the rows made from the rows it picks. -/
theorem select_ok (hbase : tables.get? t.name = some base) {below : Stack}
    (sound : Sound M.toGrammar t offered (l :: below)) (uniform : Uniform M t base (l :: below))
    {rows : List Row} (h : select tables (l.above (tree t below)) .root = .ok rows) :
    rows = (picked M t base (l :: below)).map (trace M t (l :: below)) :=
  Feed.rows_of_select (f := feed M t offered base below) sound.2.1.evaluates uniform.1
    (frames_of_source hbase sound.2.2 uniform.2) h

def projected (t : Table) (l : Layer) (below : Stack) (projector : Expr) : Projection Expr :=
  ⟨l.above (tree t below), projector, none⟩

def objects (M : Meaning tables) (t : Table) (base : List Row) (s : Stack) (projector : Expr) :
    List (Option ClientValue) :=
  (picked M t base s).map fun row => M.object projector (view M t s row)

/-- A projection that is executed gives the list of its objects. -/
theorem execute_ok (hbase : tables.get? t.name = some base) {below : Stack} {projector : Expr}
    (sound : Sound M.toGrammar t offered (l :: below)) (uniform : Uniform M t base (l :: below))
    (plain : Plain M.members (Sees t offered (l :: below)) projector) {v : ClientValue}
    (h : (Expr.projection (projected t l below projector)).execute tables = .ok v) :
    ∃ values, v = .list values ∧ objects M t base (l :: below) projector = values.map some :=
  Feed.execute_ok (f := feed M t offered base (l :: below)) rfl (select_ok hbase sound uniform)
    plain h

end Stack

end ObjectQuery
