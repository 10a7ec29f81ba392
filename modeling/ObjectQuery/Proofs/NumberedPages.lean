import ObjectQuery.Proofs.FlatSelects
import ObjectQuery.Proofs.Lockstep
import ObjectQuery.Proofs.Narrowing
import ObjectQuery.Proofs.StackNumbering

/-!
One page of one select, by row numbers. The select is left without its page and numbers its rows by its
own ordering; the rows come out in the order of their numbers, so that a select around it finds the page
by comparing numbers.
-/

namespace ObjectQuery

open Eval RowNumbers

section Ranks

variable {α β : Type} {less : α → α → Bool}

def indexedSort (less : α → α → Bool) (items : List α) : List (α × Nat) :=
  sortStable (fun a b => less a.1 b.1) items.zipIdx

theorem nodup_indexedSort (items : List α) : ((indexedSort less items).map (·.2)).Nodup := by
  have perm : ((indexedSort less items).map (·.2)).Perm (items.zipIdx.map (·.2)) :=
    (sortStable_perm _).map _
  rw [perm.nodup_iff, List.zipIdx_map_snd]
  exact List.nodup_range'

theorem indexedSort_fst (items : List α) : (indexedSort less items).map (·.1) = sortStable less items := by
  have mapped : sortStable less (items.zipIdx.map (·.1)) = (indexedSort less items).map (·.1) :=
    sortStable_map _ (fun _ _ => rfl) _
  rw [← mapped, List.zipIdx_map_fst]

theorem indexedSort_map (f : α → β) {less' : β → β → Bool} (h : ∀ a b, less' (f a) (f b) = less a b)
    (items : List α) :
    indexedSort less' (items.map f) = (indexedSort less items).map fun x => (f x.1, x.2) := by
  have indexed : (items.map f).zipIdx = items.zipIdx.map fun x => (f x.1, x.2) := by
    rw [List.zipIdx_map]
    rfl
  rw [indexedSort, indexed]
  exact sortStable_map (fun x : α × Nat => (f x.1, x.2)) (fun _ _ => h _ _) _

/-- Every place has a number. -/
theorem lookup_ranks_indexedSort {items : List α} {i : Nat} (h : i < items.length) :
    ∃ n, (ranks (indexedSort less items)).lookup i = some n := by
  have mem : (items[i], i) ∈ indexedSort less items :=
    (sortStable_perm _).mem_iff.mpr (by simp [List.mk_mem_zipIdx_iff_getElem?])
  obtain ⟨j, hj, at_j⟩ := List.mem_iff_getElem.mp mem
  have place : ((items[i], i), j) ∈ (indexedSort less items).zipIdx :=
    List.mk_mem_zipIdx_iff_getElem?.mpr (at_j ▸ List.getElem?_eq_getElem hj)
  exact ⟨j + 1, lookup_ranks (nodup_indexedSort items) place⟩

/-- What is sorted stands in the order of its numbers. -/
theorem map_indexedSort (items : List α) (f : α → Option Nat → β) :
    (indexedSort less items).map (fun x => f x.1 ((ranks (indexedSort less items)).lookup x.2))
      = (sortStable less items).zipIdx.map fun x => f x.1 (some (x.2 + 1)) := by
  have places : (indexedSort less items).map
        (fun x => f x.1 ((ranks (indexedSort less items)).lookup x.2))
      = (indexedSort less items).zipIdx.map fun x =>
        f x.1.1 ((ranks (indexedSort less items)).lookup x.1.2) := by
    conv_lhs => rw [← List.zipIdx_map_fst 0 (indexedSort less items), List.map_map]
    rw [List.zipIdx_map_fst]
    rfl
  rw [places, ← indexedSort_fst, List.zipIdx_map, List.map_map]
  refine List.map_congr_left fun x hx => ?_
  rw [lookup_ranks (nodup_indexedSort items) hx]
  rfl

abbrev keysBefore (directions : List Direction) (a b : Produced) : Bool :=
  compareKeys directions a.keys b.keys == .lt

theorem keyRanks_eq (directions : List Direction) (produced : List Produced) :
    keyRanks directions (produced.map (·.keys))
      = ranks (indexedSort (keysBefore directions) produced) := by
  have keyed : indexedSort (fun a b => compareKeys directions a b == .lt) (produced.map (·.keys))
      = (indexedSort (keysBefore directions) produced).map fun x => (x.1.keys, x.2) :=
    indexedSort_map _ (fun _ _ => rfl) _
  show ranks (indexedSort (fun a b => compareKeys directions a b == .lt) (produced.map (·.keys))) = _
  rw [keyed, ranks, List.zipIdx_map, List.map_map, ranks]
  rfl

end Ranks

namespace Select

def numberedAs (s : Select Expr) (rel : Alias) : Select Expr :=
  { s with
    rel, skip := none, take := none
    columns := s.columns ++ [⟨columnName, .rowNumber s.orderBy, .int⟩] }

def withNumber (row : Row) (n : Nat) : Row := row ++ [(columnName, .int n)]

end Select

section Numbering

variable {tables : Tables} {s : Select Expr} {rel : Alias} {τ : Scope} {p : Produced}

theorem produce_numberedAs {n : Nat}
    (h : produce s (fun e _ => scalar tables e) { τ with rowNumber := some n } = .ok p) :
    produce (s.numberedAs rel) (fun e _ => scalar tables e) { τ with rowNumber := some n }
      = .ok ⟨Select.withNumber p.row n, p.keys⟩ := by
  rw [produce_eq] at h ⊢
  obtain ⟨row, hrow, h⟩ := bind_eq_ok.mp h
  obtain ⟨keys, hkeys, h⟩ := bind_eq_ok.mp h
  cases h
  have number : scalar tables (.rowNumber s.orderBy) { τ with rowNumber := some n } = .ok (.int n) := by
    simp only [scalar]
  simp only [Select.numberedAs, List.mapM_append, hrow, List.mapM_cons, number, hkeys]
  rfl

def Computes (tables : Tables) (s : Select Expr) (τ : Scope) (p : Produced) : Prop :=
  s.orderBy.mapM (fun o => scalar tables o.expr τ) = .ok p.keys
    ∧ ∀ n, produce s (fun e _ => scalar tables e) { τ with rowNumber := n } = .ok p

theorem keyed_of_computes {τs : List Scope} {produced : List Produced}
    (h : List.Forall₂ (Computes tables s) τs produced) :
    (τs.mapM fun τ => do return (← s.orderBy.mapM fun o => scalar tables o.expr τ, τ))
      = (.ok ((produced.map (·.keys)).zip τs) : Result (List (List Value × Scope))) := by
  induction h with
  | nil => rfl
  | cons head _ ih =>
    rw [List.mapM_cons, head.1, ih]
    rfl

theorem produced_of_computes {τs : List Scope} {produced : List Produced}
    (h : List.Forall₂ (Computes tables s) τs produced) (number : Nat → Option Nat) (start : Nat)
    (all : ∀ i < start + produced.length, ∃ n, number i = some n) :
    (((produced.map (·.keys)).zip τs).zipIdx start).mapM (fun x =>
        produce (s.numberedAs rel) (fun e _ => scalar tables e) { x.1.2 with rowNumber := number x.2 })
      = .ok ((produced.zipIdx start).map fun x =>
        ⟨Select.withNumber x.1.row ((number x.2).getD 0), x.1.keys⟩) := by
  induction h generalizing start with
  | nil => rfl
  | @cons τ p τs produced head _ ih =>
    have rest := ih (start + 1) fun i hi => all i (by rw [List.length_cons]; omega)
    obtain ⟨n, hn⟩ := all start (by rw [List.length_cons]; omega)
    have first : produce (s.numberedAs rel) (fun e _ => scalar tables e) { τ with rowNumber := number start }
        = .ok ⟨Select.withNumber p.row ((number start).getD 0), p.keys⟩ := by
      have computed := head.2 (some n)
      rw [hn]
      exact produce_numberedAs computed
    simp only [List.map_cons, List.zip_cons_cons, List.zipIdx_cons, List.mapM_cons, first, rest]
    rfl

def numberAt (s : Select Expr) (produced : List Produced) (i : Nat) : Option Nat :=
  (ranks (indexedSort (keysBefore (s.orderBy.map (·.direction))) produced)).lookup i

def numberedRows (s : Select Expr) (produced : List Produced) : List Produced :=
  produced.zipIdx.map fun x => ⟨Select.withNumber x.1.row ((numberAt s produced x.2).getD 0), x.1.keys⟩

theorem numbered_numberedAs (unnumbered : ∀ d ∈ s.columns, d.expr.rowOrders? = none) {τs : List Scope}
    {produced : List Produced} (h : List.Forall₂ (Computes tables s) τs produced) :
    numbered (s.numberedAs rel) (fun e _ => scalar tables e) τs
      = .ok (numberScopes (s.orderBy.map (·.direction)) ((produced.map (·.keys)).zip τs)) := by
  have asked : (s.numberedAs rel).columns.findSome? (fun d => d.expr.rowOrders?) = some s.orderBy := by
    rw [Select.numberedAs, List.findSome?_append, List.findSome?_eq_none_iff.mpr unnumbered]
    rfl
  simp only [numbered_eq, asked]
  rw [keyed_of_computes h]
  rfl

theorem numberedRows_of_computes {τs : List Scope} {produced : List Produced}
    (h : List.Forall₂ (Computes tables s) τs produced) :
    (numberScopes (s.orderBy.map (·.direction)) ((produced.map (·.keys)).zip τs)).mapM
        (produce (s.numberedAs rel) fun e _ => scalar tables e)
      = .ok (numberedRows s produced) := by
  have keys : ((produced.map (·.keys)).zip τs).map (·.1) = produced.map (·.keys) :=
    List.map_fst_zip (by rw [List.length_map, h.length_eq])
  rw [numberScopes_eq_map, keys, keyRanks_eq, List.mapM_map]
  refine produced_of_computes h (numberAt s produced) 0 fun i hi => ?_
  exact lookup_ranks_indexedSort (by omega)

/-- In their order, the rows are numbered from one. -/
theorem arrange_numberedRows (distinct : s.distinct = false) (reversed : s.reversed = false)
    (produced : List Produced) : arrange (s.numberedAs rel) (numberedRows s produced)
      = (arrange s produced).zipIdx.map fun x => Select.withNumber x.1 (x.2 + 1) := by
  let directions := s.orderBy.map (·.direction)
  have sorted : sortStable (keysBefore directions) (numberedRows s produced)
      = (indexedSort (keysBefore directions) produced).map fun x =>
        ⟨Select.withNumber x.1.row ((numberAt s produced x.2).getD 0), x.1.keys⟩ :=
    sortStable_map _ (fun _ _ => rfl) _
  have numbered : (indexedSort (keysBefore directions) produced).map
        (fun x => Select.withNumber x.1.row ((numberAt s produced x.2).getD 0))
      = (sortStable (keysBefore directions) produced).zipIdx.map fun x => Select.withNumber x.1.row (x.2 + 1) :=
    map_indexedSort produced fun p n => Select.withNumber p.row (n.getD 0)
  rw [arrange, arrange]
  simp only [Select.numberedAs, distinct, reversed, Bool.false_eq_true, if_false]
  rw [sorted, List.map_map]
  refine numbered.trans ?_
  rw [List.zipIdx_map, List.map_map]
  rfl

theorem aggregates_rowNumber (orders : List (Order Expr)) :
    (Part.expr (.rowNumber orders)).aggregates = orders.any fun o => (Part.expr o.expr).aggregates := by
  rw [Part.aggregates_eq]
  simp [Part.isAggregate, Part.aggregatesApart, Part.parts, List.any_map, Function.comp_def]

theorem hasAggregates_numberedAs (s : Select Expr) (rel : Alias) :
    (s.numberedAs rel).hasAggregates = s.hasAggregates := by
  simp only [Select.hasAggregates, Select.numberedAs, List.any_append, List.any_cons, List.any_nil,
    aggregates_rowNumber]
  cases s.orderBy.any _ <;> simp

theorem rowScopes_numberedAs (s : Select Expr) (rel : Alias) (σ : Scope) :
    rowScopes tables (s.numberedAs rel) σ = rowScopes tables s σ := by
  simp only [rowScopes, filtered_eq, scopes_eq, hasAggregates_numberedAs]
  rfl

end Numbering

namespace Select

def unpaged (s : Select Expr) : Select Expr := { s with skip := none, take := none }

theorem rowScopes_unpaged {tables : Tables} (s : Select Expr) (σ : Scope) :
    rowScopes tables s.unpaged σ = rowScopes tables s σ := by
  simp only [rowScopes, filtered_eq, scopes_eq]
  rfl

end Select

def Lockstep.unnumbered : Lockstep :=
  -- Frames go together as they do where all rows agree.
  let same := Correspondence.agreeing fun _ => True
  { named := Eq
    reads := Eq
    frame := same.frame
    rows := Eq
    number := fun _ _ => True
    nil := same.nil
    single := Frame.single_congr
    append := same.append
    extend := fun hf hr => congrArg₂ (fun f r => f.reverse ++ r) hf hr
    lookup := fun hr hab => congrArg₂ (fun r a => r.lookup a) hr hab
    renumber := fun _ => trivial }

section Rows

variable {tables : Tables} {s s' : Select Expr} {σ σ' τ τ' : Scope}

/-- Where a row is computed, so it is by the other select, and under any number. -/
theorem computes_of_akin (akin : s.Akin (Lockstep.unnumbered.Pairs tables) s')
    (hτ : Lockstep.unnumbered.Scopes τ τ') {p : Produced}
    (h : produce s' (fun e _ => scalar tables e) τ' = .ok p) : Computes tables s τ p := by
  refine ⟨?_, fun n => ?_⟩
  · rw [produce_eq] at h
    obtain ⟨row, -, h⟩ := bind_eq_ok.mp h
    obtain ⟨keys, hkeys, h⟩ := bind_eq_ok.mp h
    cases h
    exact (Follows.mapM_same akin.orderBy fun o _ o' ho => ho.2.value τ τ' hτ).eq_ok hkeys
  · have numbered : Lockstep.unnumbered.Scopes { τ with rowNumber := n } τ' := ⟨hτ.rows, hτ.group, trivial⟩
    exact (produce_follows akin.toAkinClauses fun c _ c' hc => hc.value _ _ numbered).eq_ok h

/-- The select that numbers its rows has the rows of the other one, in their order, with numbers. -/
theorem numberedAs_follows (akin : s.Akin (Lockstep.unnumbered.Pairs tables) s') (rel : Alias)
    (aggregates : s.groupBy = [] → s.hasAggregates = s'.hasAggregates)
    (unnumbered : ∀ d ∈ s.columns, d.expr.rowOrders? = none)
    (unnumbered' : ∀ d ∈ s'.columns, d.expr.rowOrders? = none)
    (distinct : s.distinct = false) (reversed : s.reversed = false)
    (hσ : Lockstep.unnumbered.Scopes σ σ') :
    Follows (fun rows rows' => rows = rows'.zipIdx.map fun x => Select.withNumber x.1 (x.2 + 1))
      (select tables (s.numberedAs rel) σ) (select tables s'.unpaged σ') := by
  rw [select_eq_rowScopes, select_eq_rowScopes, rowScopes_numberedAs, Select.rowScopes_unpaged]
  refine Follows.bind (rowScopes_follows akin.toAkinClauses (Lockstep.sources_of_akin akin hσ)
    (Lockstep.unmatched_of_akin akin) aggregates fun c _ c' hc τ τ' hτ =>
    hc.value τ τ' (hσ.inner hτ)) fun τs τs' hτs => ?_
  have unasked : s'.unpaged.columns.findSome? (fun d => d.expr.rowOrders?) = none :=
    List.findSome?_eq_none_iff.mpr unnumbered'
  intro rows' h
  rw [numbered_eq, unasked, ok_bind] at h
  obtain ⟨produced, hproduced, h⟩ := bind_eq_ok.mp h
  obtain rfl : arrange s' produced = rows' := Except.ok.inj h
  have computes : List.Forall₂ (Computes tables s) τs produced := by
    refine (comp_forall₂ hτs (forall₂_of_mapM hproduced)).imp fun τ p ⟨τ', hτ, hp⟩ => ?_
    exact computes_of_akin akin (hσ.inner hτ) hp
  refine ⟨_, ?_, rfl⟩
  rw [numbered_numberedAs unnumbered computes, ok_bind, numberedRows_of_computes computes, ok_bind,
    arrange_numberedRows distinct reversed, arrange_congr akin.toAkinClauses, skipped_eq]
  rfl

end Rows

namespace Select

def pageOf (s : Select Expr) (rel : Alias) (test : Expr) : Select Expr :=
  .plain s.rel (s.columns.map fun d => { d with expr := .column ⟨rel, d.name, d.type⟩ })
    (some (.select (s.numberedAs rel))) (some test)

variable {s : Select Expr}

theorem finish_keep (h : s.skip = none) (supply : Supply) : (finish s).run supply = (s, supply) := by
  rw [finish, h]
  rfl

def withNumbers (u : Select Expr) (orders : List (Order Expr)) : Select Expr :=
  { u with columns := u.columns ++ [⟨columnName, .rowNumber orders, .int⟩] }

def numberedPage (u : Select Expr) (orders : List (Order Expr)) (rel : Alias) (test : Expr) : Select Expr :=
  { (u.withNumbers orders).wrapped rel with
    columns := ((u.withNumbers orders).wrapped rel).columns.filter (·.name ≠ columnName), filter := some test }

/-- What the rewriting makes of a select that skips rows. -/
theorem finish_some {skip : Expr} (h : s.skip = some skip) : finish s = (do
    let u ← RowNumbers.unpaged s
    let rel ← Supply.freshAlias
    return u.1.numberedPage u.2 rel (inPage (.column ⟨rel, columnName, .int⟩) skip s.take)) := by
  rw [finish, h]
  rfl

theorem numberedPage_unpaged (named : columnName ∉ s.columnNames) (rel : Alias) (test : Expr) :
    s.unpaged.numberedPage s.orderBy rel test = s.pageOf rel test := by
  have kept : ((s.numberedAs rel).columns.map fun d =>
        { d with expr := Expr.column ⟨rel, d.name, d.type⟩ }).filter (·.name ≠ columnName)
      = s.columns.map fun d => { d with expr := .column ⟨rel, d.name, d.type⟩ } := by
    rw [numberedAs, List.map_append, List.filter_append, List.filter_eq_self.mpr]
    · simp
    · intro d hd
      obtain ⟨d', hd', rfl⟩ := List.mem_map.mp hd
      simpa using fun same : d'.name = columnName => named (same ▸ List.mem_map_of_mem hd')
  rw [pageOf, ← kept]
  rfl

theorem finish_page {skip : Expr} (h : s.skip = some skip) (distinct : s.distinct = false)
    (groupBy : s.groupBy = []) (named : columnName ∉ s.columnNames) (supply : Supply) :
    (finish s).run supply
      = (s.pageOf ⟨supply.next⟩ (inPage (.column ⟨⟨supply.next⟩, columnName, .int⟩) skip s.take),
        ⟨supply.next + 1⟩) := by
  have unpaged : RowNumbers.unpaged s = pure (s.unpaged, s.orderBy) := by
    cases s
    cases distinct
    cases groupBy
    rfl
  rw [finish_some h, unpaged, ← numberedPage_unpaged named]
  rfl

variable {tables : Tables} {rel : Alias} {test : Expr} {σ : Scope}

def numberedFrame (rel : Alias) (x : Row × Nat) : Frame := [(rel, some (withNumber x.1 (x.2 + 1)))]

section Reading

variable {x : Row × Nat} (nodup : (x.1.map (·.1)).Nodup) (named : columnName ∉ x.1.map (·.1))
include nodup named

theorem get?_withNumber {y : String × Value} (hy : y ∈ withNumber x.1 (x.2 + 1)) :
    (withNumber x.1 (x.2 + 1)).get? y.1 = some y.2 := by
  refine Row.get?_of_mem ?_ hy
  rw [withNumber, List.map_append, List.nodup_append]
  refine ⟨nodup, by simp, fun a ha b hb same => named ?_⟩
  obtain rfl : b = columnName := by simpa using hb
  exact same ▸ ha

theorem column_numberedFrame {y : String × Value} (hy : y ∈ withNumber x.1 (x.2 + 1)) (type : ColumnType) :
    scalar tables (.column ⟨rel, y.1, type⟩) (σ.extend (numberedFrame rel x)) = .ok y.2 := by
  simp [scalar, Scope.column, Scope.extend, numberedFrame, get?_withNumber nodup named hy]

theorem number_numberedFrame :
    (σ.extend (numberedFrame rel x)).column ⟨rel, columnName, .int⟩ = .ok (.int ((x.2 + 1 : Nat) : Int)) := by
  have mem : (columnName, Value.int ((x.2 + 1 : Nat) : Int)) ∈ withNumber x.1 (x.2 + 1) := by
    simp [withNumber]
  have read : scalar ⟨[]⟩ (.column ⟨rel, columnName, .int⟩) (σ.extend (numberedFrame rel x))
      = .ok (.int ((x.2 + 1 : Nat) : Int)) := column_numberedFrame nodup named mem .int
  rwa [scalar] at read

/-- Without its number, the row is there again. -/
theorem rowIn_numberedFrame {columns : List (ColumnDecl Expr)} (names : x.1.map (·.1) = columns.map (·.name)) :
    rowIn tables σ (columns.map fun d => { d with expr := .column ⟨rel, d.name, d.type⟩ })
      (numberedFrame rel x) = x.1 := by
  rw [← List.forall₂_eq_eq_eq, List.forall₂_map_left_iff, List.forall₂_map_right_iff] at names
  rw [rowIn, List.map_map]
  refine eq_of_forall₂ (List.forall₂_map_left_iff.mpr ?_) fun _ _ h => h
  refine forall₂_imp_both names.flip fun d _ y hy same => ?_
  have read : scalar tables (.column ⟨rel, y.1, d.type⟩) (σ.extend (numberedFrame rel x)) = .ok y.2 :=
    column_numberedFrame nodup named (List.mem_append_left _ hy) d.type
  simp only [Function.comp_apply, valueIn, ← same, read]
  rfl

/-- The columns of a select over numbered rows can be read from such a row. -/
theorem columns_pageOf (names : x.1.map (·.1) = s.columnNames) : ∀ d ∈ (s.pageOf rel test).columns,
    scalar tables d.expr (σ.extend (numberedFrame rel x)) = .ok (valueIn tables σ d.expr (numberedFrame rel x)) := by
  intro d hd
  obtain ⟨d', hd', rfl⟩ := List.mem_map.mp hd
  have there : d'.name ∈ x.1.map (·.1) := names ▸ List.mem_map_of_mem hd'
  obtain ⟨y, hy, same⟩ := List.mem_map.mp there
  have read : scalar tables (.column ⟨rel, y.1, d'.type⟩) (σ.extend (numberedFrame rel x)) = .ok y.2 :=
    column_numberedFrame nodup named (List.mem_append_left _ hy) d'.type
  rw [same] at read
  exact scalar_eq_valueIn read

end Reading

theorem flat_pageOf (aggregates : (Part.expr test).aggregates = false) : (s.pageOf rel test).Flat where
  groupBy := rfl
  aggregates := by
    have columns : ∀ d ∈ s.columns, (Part.expr (.column ⟨rel, d.name, d.type⟩)).aggregates = false :=
      fun _ _ => by simp [Part.aggregates_eq, Part.isAggregate, Part.parts]
    simpa [hasAggregates, pageOf, plain, aggregates] using columns
  distinct := rfl
  skip := rfl
  take := rfl
  unnumbered := Correspondence.numbering?_eq_none fun d hd => by
    obtain ⟨d', -, rfl⟩ := List.mem_map.mp hd
    simp

/-- A select over numbered rows keeps those whose numbers pass the test. -/
theorem rows_pageOf {rows : List Row} (keep : Nat → Bool)
    (nodup : s.columnNames.Nodup) (named : columnName ∉ s.columnNames)
    (names : ∀ row ∈ rows, row.map (·.1) = s.columnNames)
    (numbered : select tables (s.numberedAs rel) σ
      = .ok (rows.zipIdx.map fun x => withNumber x.1 (x.2 + 1)))
    (aggregates : (Part.expr test).aggregates = false)
    (tested : ∀ x ∈ rows.zipIdx,
      scalar tables test (σ.extend (numberedFrame rel x)) = .ok (.bool (keep (x.2 + 1)))) :
    select tables (s.pageOf rel test) σ
      = .ok ((rows.zipIdx.filter fun x => keep (x.2 + 1)).map (·.1)) := by
  have hframes : Eval.frames tables (s.pageOf rel test) σ = .ok (rows.zipIdx.map (numberedFrame rel)) := by
    show Eval.source tables (.select (s.numberedAs rel)) σ = _
    rw [source_select, numbered, ok_bind, List.map_map]
    rfl
  have inRow : ∀ x ∈ rows.zipIdx, x.1.map (·.1) = s.columnNames :=
    fun x hx => names _ (List.fst_mem_of_mem_zipIdx hx)
  have met : ∀ x ∈ rows.zipIdx,
      meets tables (some test) (σ.extend (numberedFrame rel x)) = .ok (keep (x.2 + 1)) := by
    intro x hx
    rw [meets, tested x hx]
    cases keep (x.2 + 1) <;> rfl
  let passes (f : Frame) : Bool := (meets tables (some test) (σ.extend f)).toOption.getD false
  have passes_eq : ∀ x ∈ rows.zipIdx, passes (numberedFrame rel x) = keep (x.2 + 1) := by
    intro x hx
    simp only [passes, met x hx]
    rfl
  have hkeep : ∀ f ∈ rows.zipIdx.map (numberedFrame rel),
      meets tables (s.pageOf rel test).filter (σ.extend f) = .ok (passes f) := by
    intro f hf
    obtain ⟨x, hx, rfl⟩ := List.mem_map.mp hf
    rw [passes_eq x hx]
    exact met x hx
  have columns : ∀ f ∈ rows.zipIdx.map (numberedFrame rel), ∀ d ∈ (s.pageOf rel test).columns,
      scalar tables d.expr (σ.extend f) = .ok (valueIn tables σ d.expr f) := by
    intro f hf
    obtain ⟨x, hx, rfl⟩ := List.mem_map.mp hf
    exact columns_pageOf (inRow x hx ▸ nodup) (inRow x hx ▸ named) (inRow x hx)
  have unordered : (s.pageOf rel test).ordered tables σ (rows.zipIdx.map (numberedFrame rel))
      = rows.zipIdx.map (numberedFrame rel) := by
    rw [ordered]
    exact sortWith_eq_self_of_tied fun _ _ _ _ => rfl
  rw [(flat_pageOf aggregates).select_eq_ok hframes passes hkeep columns (by simp [pageOf, plain])
    (by simp [pageOf, plain]), unordered, List.filter_map, List.map_map,
    List.filter_congr (q := fun x => keep (x.2 + 1)) passes_eq]
  refine congrArg _ (List.map_congr_left fun x hx => ?_)
  have hx := inRow x (List.mem_of_mem_filter hx)
  exact rowIn_numberedFrame (hx ▸ nodup) (hx ▸ named) hx

def page {α : Type} (skip : Int) (take : Option Int) (items : List α) : List α :=
  let rest := items.drop skip.toNat
  (take.map fun n => rest.take n.toNat).getD rest

def onPage (skip : Int) (take : Option Int) (n : Nat) : Bool :=
  decide (skip < n) && take.all fun count => decide (n ≤ skip + count)

theorem page_eq_filter {α : Type} {skip : Int} (nonneg : 0 ≤ skip) (take : Option Int) (items : List α) :
    page skip take items = (items.zipIdx.filter fun x => onPage skip take (x.2 + 1)).map (·.1) := by
  have whole : items = items.zipIdx.map (·.1) := (List.zipIdx_map_fst 0 items).symm
  cases take with
  | none =>
    rw [page, Option.map_none, Option.getD_none]
    conv_lhs => rw [whole, ← List.map_drop, drop_zipIdx]
    refine congrArg _ (List.filter_congr fun x _ => ?_)
    simp only [onPage, Option.all_none, Bool.and_true, decide_eq_decide]
    omega
  | some n =>
    rw [page, Option.map_some, Option.getD_some]
    conv_lhs => rw [whole, ← List.map_drop, ← List.map_take, take_drop_zipIdx]
    refine congrArg _ (List.filter_congr fun x _ => ?_)
    rw [onPage, Option.all_some, Bool.eq_iff_iff]
    simp only [Bool.and_eq_true, decide_eq_true_eq]
    omega

structure Pages (s : Select Expr) (skip : Int) (take : Option Int) : Prop where
  sums : ∀ n ∈ take, (Expr.int skip).plus (.int 1) = .int (skip + 1)
    ∧ (Expr.int skip).plus (.int n) = .int (skip + n)
  skip : s.skip = some (.int skip)
  take : s.take = take.map .int

theorem select_of_pages {skip : Int} {take : Option Int} (h : s.Pages skip take) :
    select tables s σ = (do return page skip take (← select tables s.unpaged σ)) := by
  have constant : ∀ n : Int, scalar tables (.int n) σ = .ok (.int n) := fun n => by
    simp only [Expr.int, scalar]
  have numbers : ∀ τs, numbered s.unpaged (fun e _ => scalar tables e) τs
      = numbered s (fun e _ => scalar tables e) τs := by
    intro τs
    rw [numbered_eq, numbered_eq]
    rfl
  have produces : produce s.unpaged (fun e _ => scalar tables e) = produce s fun e _ => scalar tables e := by
    funext τ
    rw [produce_eq, produce_eq]
    rfl
  rw [select_eq_rowScopes, select_eq_rowScopes, rowScopes_unpaged]
  simp only [numbers, produces, bind_assoc, skipped_eq, taken_eq, h.skip, h.take, constant, ok_bind]
  refine bind_congr fun τs => bind_congr fun τs => bind_congr fun produced => ?_
  cases take with
  | none => rfl
  | some n =>
    simp only [Option.map_some, constant]
    rfl

theorem Pages.inPage_some {s : Select Expr} {skip n : Int} (pages : s.Pages skip (some n)) (number : Expr) :
    inPage number (.int skip) (some (.int n)) = .between number (.int (skip + 1)) (.int (skip + n)) := by
  obtain ⟨first, last⟩ := pages.sums n rfl
  rw [inPage, first, last]

theorem aggregates_test {s : Select Expr} {skip : Int} {take : Option Int} (pages : s.Pages skip take) :
    (Part.expr (inPage (.column ⟨rel, columnName, .int⟩) (.int skip) (take.map .int))).aggregates = false := by
  cases take with
  | none => simp [inPage, Expr.int, Part.aggregates_eq, Part.isAggregate, Part.parts]
  | some n =>
    rw [Option.map_some, pages.inPage_some]
    simp [Expr.int, Part.aggregates_eq, Part.isAggregate, Part.parts]

theorem test_numberedFrame {s : Select Expr} {skip : Int} {take : Option Int} (pages : s.Pages skip take)
    {x : Row × Nat} (nodup : (x.1.map (·.1)).Nodup) (named : columnName ∉ x.1.map (·.1)) :
    scalar tables (inPage (.column ⟨rel, columnName, .int⟩) (.int skip) (take.map .int))
      (σ.extend (numberedFrame rel x)) = .ok (.bool (onPage skip take (x.2 + 1))) := by
  have number : (σ.extend (numberedFrame rel x)).column ⟨rel, columnName, .int⟩
      = .ok (.int ((x.2 + 1 : Nat) : Int)) := number_numberedFrame nodup named
  cases take with
  | none =>
    simp only [inPage, Option.map_none, scalar, number, ok_bind, Expr.int, Stack.binary_int .gt rfl,
      (Stack.satisfies_int _ _).1, onPage, Option.all_none, Bool.and_true]
  | some n =>
    rw [Option.map_some, pages.inPage_some]
    simp only [scalar, number, ok_bind, Expr.int, Stack.binary_int .gtEq rfl, Stack.binary_int .ltEq rfl,
      (Stack.satisfies_int _ _).2, onPage, Option.all_some, Stack.binary_and]
    rw [decide_eq_decide.mpr Int.add_one_le_iff]

/-- What the select above the numbered rows finds is the page of the other select. -/
theorem pageOf_follows {s s' : Select Expr} {σ σ' : Scope} {skip : Int} {take : Option Int}
    (akin : s.Akin (Lockstep.unnumbered.Pairs tables) s')
    (aggregates : s.groupBy = [] → s.hasAggregates = s'.hasAggregates)
    (unnumbered : ∀ d ∈ s'.columns, d.expr.rowOrders? = none) (distinct : s'.distinct = false)
    (reversed : s'.reversed = false) (pages : s'.Pages skip take) (nonneg : 0 ≤ skip)
    (nodup : s'.columnNames.Nodup) (named : columnName ∉ s'.columnNames) (rel : Alias)
    (hσ : Lockstep.unnumbered.Scopes σ σ') :
    Follows Eq (select tables (s.pageOf rel
        (inPage (.column ⟨rel, columnName, .int⟩) (.int skip) (take.map .int))) σ)
      (select tables s' σ') := by
  have names : s.columnNames = s'.columnNames := Lockstep.columnNames_of_akin akin
  have unnumbered' : ∀ d ∈ s.columns, d.expr.rowOrders? = none := by
    intro d hd
    obtain ⟨d', hd', -, h⟩ := exists_of_forall₂_right akin.columns.flip d hd
    have orders := h.orders
    rw [unnumbered d' hd'] at orders
    generalize d.expr.rowOrders? = x at orders
    cases orders
    rfl
  intro rows h
  rw [select_of_pages pages] at h
  obtain ⟨whole, hwhole, h⟩ := bind_eq_ok.mp h
  obtain rfl : page skip take whole = rows := Except.ok.inj h
  obtain ⟨_, numbered, rfl⟩ := numberedAs_follows akin rel aggregates unnumbered' unnumbered
    (akin.distinct.trans distinct) (akin.reversed.trans reversed) hσ whole hwhole
  have inRow : ∀ row ∈ whole, row.map (·.1) = s.columnNames := by
    rw [names]
    exact names_of_select (s := s'.unpaged) hwhole
  refine ⟨_, rows_pageOf (onPage skip take) (names ▸ nodup) (names ▸ named) inRow numbered
    (aggregates_test pages) fun x hx => ?_, (page_eq_filter nonneg take whole).symm⟩
  have hx := inRow x.1 (List.fst_mem_of_mem_zipIdx hx)
  exact test_numberedFrame pages (hx ▸ names ▸ nodup) (hx ▸ names ▸ named)

end Select

end ObjectQuery
