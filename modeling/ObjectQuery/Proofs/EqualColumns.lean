import ObjectQuery.Proofs.AlikeSelects
import ObjectQuery.Proofs.FlatSelects
import ObjectQuery.Proofs.StackColumns

/-!
Columns that compare equal have the same values. A select that computes each expression once has the
rows of the whole select with some of their values left out, each of which stands in the row under
another name: the rows are told apart in the same way, they are sorted and paged in the same way, and
every name is read from the column that stands for it.
-/

namespace ObjectQuery

open Eval

variable {tables : Tables}

/-- What compares equal is the same tree, up to expressions that have no value. -/
theorem Part.paired_of_same {p p' : Part} (floatless : p.Every Part.Floatless) (same : p.same p' = true) :
    p.Paired Eq Eq Expr.ValuelessBoth p' := by
  by_cases rigid : ∃ e, p = .expr e ∧ e.Rigid
  · obtain ⟨e, rfl, rigid⟩ := rigid
    cases p' <;> simp only [Part.same, Bool.false_eq_true] at same
    rename_i e'
    have passes : e.match? [] e' = some [] := by
      rw [Expr.match?_rigid rigid]
      exact keepIf_eq_some.mpr ⟨same, rfl⟩
    have paired := (compared_of_rigid rigid floatless.here passes).paired [] (List.Subset.refl _)
    exact paired.mono (by simp) (by simp)
  have loose : ∀ e, p = .expr e → ¬ e.Rigid := fun e he hr => rigid ⟨e, he, hr⟩
  have parts := (parts_of_same same).2.2
  have kin : p.Kin Eq Eq p' := by
    cases p with
    | expr e =>
      cases p' <;> simp only [Part.same, Bool.false_eq_true] at same
      exact .expr (.refl (fun _ => rfl) (fun _ => rfl) e) (Expr.like_of_same same (loose e rfl))
    | select s =>
      cases p' <;> simp only [Part.same, Bool.false_eq_true] at same
      have shaped := Select.shaped_of_same same
      exact .select shaped.rel (shaped.imp fun _ _ _ _ => trivial).akin
    | projection p =>
      cases p' <;> simp only [Part.same, Bool.false_eq_true] at same
      rename_i p'
      cases p
      cases p'
      simp only [sameProjection, Bool.and_eq_true, beq_iff_eq] at same
      exact .projection same.2
  exact .node kin parts.length_eq fun q q' hq =>
    have under : q ∈ p.parts := (List.of_mem_zip hq).1
    paired_of_same (floatless.part under) ((List.forall₂_iff_zip.mp parts).2 hq)
termination_by p.weight
decreasing_by exact weight_lt under

theorem Expr.rowOrders?_isSome_of_same {e e' : Expr} (same : e.same e' = true) :
    e.rowOrders?.isSome = e'.rowOrders?.isSome := by
  unfold Expr.same at same
  split at same <;> first | rfl | cases same

/-- Expressions that compare equal have the same value, or none. -/
theorem Eval.scalar_of_same (tables : Tables) {e e' : Expr} (floatless : (Part.expr e).Every Part.Floatless)
    (same : e.same e' = true) (τ : Scope) (v : Value) :
    scalar tables e τ = .ok v ↔ scalar tables e' τ = .ok v := by
  have unique : Relator.BiUnique (Eq (α := Alias)) := ⟨fun _ _ _ h h' => h.trans h'.symm,
    fun _ _ _ h h' => h.symm.trans h'⟩
  have alike : ∀ {e e' : Expr}, (Part.expr e).Paired Eq Eq Expr.ValuelessBoth (.expr e') →
      Follows Eq (scalar tables e τ) (scalar tables e' τ) := fun paired =>
    (Lockstep.matches_of_paired (M := .exchanging Eq unique) paired fun _ _ h => h).of_expr.value τ τ
      (Lockstep.scopes_refl unique fun _ _ => rfl)
  have paired : (Part.expr e).Paired Eq Eq Expr.ValuelessBoth (.expr e') :=
    Part.paired_of_same (p := .expr e) floatless same
  have back : (Part.expr e').Paired Eq Eq Expr.ValuelessBoth (.expr e) :=
    (paired.flip fun _ _ h => h.symm).mono (fun _ _ _ _ h => h.symm) fun _ _ _ _ h => h.symm
  exact ⟨fun h => (alike back).eq_ok h, fun h => (alike paired).eq_ok h⟩

section Arranging

variable {α β : Type} {R : α → β → Prop}

theorem sortStable_related {less : α → α → Bool} {less' : β → β → Bool}
    (agree : ∀ a b, R a b → ∀ a' b', R a' b' → less a a' = less' b b') {as : List α} {bs : List β}
    (h : List.Forall₂ R as bs) : List.Forall₂ R (sortStable less as) (sortStable less' bs) := by
  obtain ⟨lengths, related⟩ := List.forall₂_iff_zip.mp h
  let less₂ (x y : α × β) : Bool := less x.1 y.1
  have left : sortStable less ((as.zip bs).map (·.1)) = (sortStable less₂ (as.zip bs)).map (·.1) :=
    sortStable_map _ (fun _ _ => rfl) _
  have right : sortStable less' ((as.zip bs).map (·.2)) = (sortStable less₂ (as.zip bs)).map (·.2) := by
    have same : sortStable less₂ (as.zip bs) = sortStable (fun x y => less' x.2 y.2) (as.zip bs) :=
      sortStable_congr fun x hx y hy => agree x.1 x.2 (related hx) y.1 y.2 (related hy)
    rw [same]
    exact sortStable_map _ (fun _ _ => rfl) _
  rw [List.map_fst_zip (Nat.le_of_eq lengths)] at left
  rw [List.map_snd_zip (Nat.le_of_eq lengths.symm)] at right
  rw [left, right, List.forall₂_map_left_iff, List.forall₂_map_right_iff]
  exact forall₂_refl_mem fun x hx => related ((sortStable_perm _).mem_iff.mp hx)

theorem distinctBy_related {key : α → List Value} {key' : β → List Value}
    (agree : ∀ a b, R a b → ∀ a' b', R a' b' →
      Value.keysEqual (key a) (key a') = Value.keysEqual (key' b) (key' b'))
    {as : List α} {bs : List β} (h : List.Forall₂ R as bs) :
    List.Forall₂ R (distinctBy key as) (distinctBy key' bs) := by
  have step : ∀ {kept : List α} {kept' : List β}, List.Forall₂ R kept kept' → List.Forall₂ R
      (as.foldl (fun kept a =>
        if kept.any (fun b => Value.keysEqual (key b) (key a)) then kept else kept ++ [a]) kept)
      (bs.foldl (fun kept a =>
        if kept.any (fun b => Value.keysEqual (key' b) (key' a)) then kept else kept ++ [a]) kept') := by
    induction h with
    | nil => exact fun before => before
    | @cons a b _ _ hab _ ih =>
      intro kept kept' before
      have found : kept.any (fun c => Value.keysEqual (key c) (key a))
          = kept'.any (fun c => Value.keysEqual (key' c) (key' b)) :=
        any_congr before fun c c' hc => agree c c' hc a b hab
      rw [List.foldl_cons, List.foldl_cons, found]
      refine ih ?_
      split
      · exact before
      · exact List.rel_append before (.cons hab .nil)
  exact step .nil

/-- Rows that are told apart and sorted alike are arranged alike. -/
theorem arrange_related {s s' : Select Expr} {R : Produced → Produced → Prop}
    (keys : ∀ p p', R p p' → p.keys = p'.keys)
    (values : s'.distinct = true → ∀ p p', R p p' → ∀ q q', R q q' →
      Value.keysEqual p.row.values q.row.values = Value.keysEqual p'.row.values q'.row.values)
    (distinct : s.distinct = s'.distinct) (orders : s.orderBy = s'.orderBy)
    (reversed : s.reversed = s'.reversed) {ps ps' : List Produced} (h : List.Forall₂ R ps ps') :
    List.Forall₂ (fun row row' => ∃ p p', R p p' ∧ p.row = row ∧ p'.row = row') (arrange s ps)
      (arrange s' ps') := by
  have kept : List.Forall₂ R (if s'.distinct then distinctBy (·.row.values) ps else ps)
      (if s'.distinct then distinctBy (·.row.values) ps' else ps') := by
    split
    · exact distinctBy_related (values ‹_›) h
    · exact h
  let less (p q : Produced) : Bool := compareKeys (s'.orderBy.map (·.direction)) p.keys q.keys == .lt
  have agree : ∀ p p', R p p' → ∀ q q', R q q' → less p q = less p' q' := fun p p' hp q q' hq => by
    simp only [less, keys p p' hp, keys q q' hq]
  have sorted := sortStable_related agree kept
  have rows : List.Forall₂ (fun row row' => ∃ p p', R p p' ∧ p.row = row ∧ p'.row = row') _ _ :=
    List.forall₂_map_left_iff.mpr (List.forall₂_map_right_iff.mpr
      (sorted.imp fun p p' hp => ⟨p, p', hp, rfl, rfl⟩))
  rw [arrange, arrange, distinct, orders, reversed]
  split
  · exact List.rel_reverse rows
  · exact rows

end Arranging

section Columns

variable {s : Select Expr} {columns : List (ColumnDecl Expr)} {R : Produced → Produced → Prop}

/-- Selects with the same source and the same clauses compute their rows in the same scopes, and
arrange and page them alike. -/
theorem select_related (aggregates : s.hasAggregates = { s with columns }.hasAggregates)
    (numbers : s.columns.findSome? (fun d => d.expr.rowOrders?)
      = columns.findSome? fun d => d.expr.rowOrders?)
    (keys : ∀ p p', R p p' → p.keys = p'.keys)
    (values : ∀ p p', R p p' → ∀ q q', R q q' →
      Value.keysEqual p.row.values q.row.values = Value.keysEqual p'.row.values q'.row.values)
    (produced : ∀ τ, Follows R (produce s (fun e _ => scalar tables e) τ)
      (produce { s with columns } (fun e _ => scalar tables e) τ)) (σ : Scope) :
    Follows (List.Forall₂ fun row row' => ∃ p p', R p p' ∧ p.row = row ∧ p'.row = row')
      (select tables s σ) (select tables { s with columns } σ) := by
  rw [select_eq, select_eq]
  refine Follows.bind_same (.refl _) fun frames => ?_
  rw [filtered_eq, filtered_eq]
  refine Follows.bind_same (.refl _) fun frames => ?_
  rw [scopes_eq, scopes_eq, aggregates]
  refine Follows.bind_same (.refl _) fun τs => ?_
  rw [numbered_eq, numbered_eq, numbers]
  refine Follows.bind_same (.refl _) fun τs => ?_
  have all : List.Forall₂ Eq τs τs := forall₂_refl_mem fun _ _ => rfl
  have each : Follows (List.Forall₂ R) (τs.mapM (produce s fun e _ => scalar tables e))
      (τs.mapM (produce { s with columns } fun e _ => scalar tables e)) :=
    Follows.mapM all fun τ _ τ' same => same ▸ produced τ
  refine Follows.bind each fun ps ps' h => ?_
  have arranged : List.Forall₂ (fun row row' => ∃ p p', R p p' ∧ p.row = row ∧ p'.row = row')
      (arrange s ps) (arrange { s with columns } ps') := arrange_related keys (fun _ => values) rfl rfl rfl h
  rw [skipped_eq, skipped_eq]
  refine Follows.bind (R := List.Forall₂ fun row row' => ∃ p p', R p p' ∧ p.row = row ∧ p'.row = row')
    ?_ fun rows rows' hrows => ?_
  · cases s.skip with
    | none => exact .pure arranged
    | some e =>
      exact Follows.bind_same (.refl _) fun v => Follows.bind_same (.refl _) fun n =>
        .pure (List.forall₂_drop _ arranged)
  · rw [taken_eq, taken_eq]
    cases s.take with
    | none => exact .pure hrows
    | some e =>
      exact Follows.bind_same (.refl _) fun v => Follows.bind_same (.refl _) fun n =>
        .pure (List.forall₂_take _ hrows)

end Columns

section Shortened

variable {columns kept : List (ColumnDecl Expr)}

def Shortened (columns kept : List (ColumnDecl Expr)) (p p' : Produced) : Prop :=
  ∃ v : Expr → Value, (∀ d ∈ columns, ∀ d' ∈ columns, d'.expr.same d.expr = true → v d'.expr = v d.expr)
    ∧ p.row = columns.map (fun d => (d.name, v d.expr)) ∧ p'.row = kept.map (fun d => (d.name, v d.expr))
    ∧ p.keys = p'.keys

theorem Shortened.keys {p p' : Produced} (h : Shortened columns kept p p') : p.keys = p'.keys := by
  obtain ⟨_, _, _, _, keys⟩ := h
  exact keys

theorem keysEqual_map {α : Type} (l : List α) (f g : α → Value) :
    Value.keysEqual (l.map f) (l.map g) = l.all fun a => Value.keysEqual [f a] [g a] := by
  induction l with
  | nil => rfl
  | cons a rest ih => simp [Value.keysEqual, ih]

/-- Values that stand for others tell rows apart as all values do. -/
theorem Shortened.values (sub : kept ⊆ columns)
    (stands : ∀ d ∈ columns, ∃ d' ∈ kept, d'.expr.same d.expr = true ∨ d' = d)
    {p p' q q' : Produced} (hp : Shortened columns kept p p')
    (hq : Shortened columns kept q q') :
    Value.keysEqual p.row.values q.row.values = Value.keysEqual p'.row.values q'.row.values := by
  obtain ⟨v, same, row, row', -⟩ := hp
  obtain ⟨w, same', other, other', -⟩ := hq
  simp only [Row.values, row, row', other, other', List.map_map, Function.comp_def, keysEqual_map]
  rw [Bool.eq_iff_iff, List.all_eq_true, List.all_eq_true]
  refine ⟨fun h d hd => h d (sub hd), fun h d hd => ?_⟩
  obtain ⟨d', hd', equal | rfl⟩ := stands d hd
  · rw [← same d hd d' (sub hd') equal, ← same' d hd d' (sub hd') equal]
    exact h d' hd'
  · exact h d' hd'

/-- Columns that stand for all of them have an aggregate if any column has one. -/
theorem any_aggregates_kept (sub : kept ⊆ columns)
    (stands : ∀ d ∈ columns, ∃ d' ∈ kept, d'.expr.same d.expr = true ∨ d' = d) :
    columns.any (fun d => (Part.expr d.expr).aggregates)
      = kept.any fun d => (Part.expr d.expr).aggregates := by
  rw [Bool.eq_iff_iff, List.any_eq_true, List.any_eq_true]
  refine ⟨fun ⟨d, hd, here⟩ => ?_, fun ⟨d, hd, here⟩ => ⟨d, sub hd, here⟩⟩
  obtain ⟨d', hd', same | rfl⟩ := stands d hd
  · have equal : (Part.expr d'.expr).aggregates = (Part.expr d.expr).aggregates :=
      Part.aggregates_of_same (p := .expr d'.expr) same
    exact ⟨d', hd', equal.trans here⟩
  · exact ⟨d', hd', here⟩

/-- Where the columns of a select that stand for all of them have values, all have. -/
theorem produce_shortened (tables : Tables) {s : Select Expr} (sub : kept ⊆ s.columns)
    (stands : ∀ d ∈ s.columns, ∃ d' ∈ kept, d'.expr.same d.expr = true ∨ d' = d)
    (floatless : ∀ d ∈ s.columns, (Part.expr d.expr).Every Part.Floatless) (τ : Scope) :
    Follows (Shortened s.columns kept) (produce s (fun e _ => scalar tables e) τ)
        (produce { s with columns := kept } (fun e _ => scalar tables e) τ)
      ∧ Follows (flip (Shortened s.columns kept))
        (produce { s with columns := kept } (fun e _ => scalar tables e) τ)
        (produce s (fun e _ => scalar tables e) τ) := by
  let v : Expr → Value := fun e => ((scalar tables e τ).toOption).getD .null
  have known : ∀ {e : Expr}, (∃ w, scalar tables e τ = .ok w) → scalar tables e τ = .ok (v e) := by
    rintro e ⟨w, hw⟩
    simp only [v, hw]
    rfl
  have equal : ∀ d ∈ s.columns, ∀ d' ∈ s.columns, d'.expr.same d.expr = true → v d'.expr = v d.expr := by
    intro d _ d' hd' same
    have alike := scalar_of_same tables (floatless d' hd') same τ
    cases h : scalar tables d'.expr τ with
    | ok w => simp only [v, h, (alike w).mp h]
    | error _ =>
      cases h' : scalar tables d.expr τ with
      | ok w => cases h.symm.trans ((alike w).mpr h')
      | error _ => simp only [v, h, h', Except.toOption]
  -- Both produce the same values from here on.
  have both : (∀ d ∈ s.columns, scalar tables d.expr τ = .ok (v d.expr)) →
      (∀ o ∈ s.orderBy, scalar tables o.expr τ = .ok (v o.expr)) →
      ∃ p p', produce s (fun e _ => scalar tables e) τ = .ok p
        ∧ produce { s with columns := kept } (fun e _ => scalar tables e) τ = .ok p'
        ∧ Shortened s.columns kept p p' := fun columns orders =>
    ⟨_, _, produce_eq_ok columns orders, produce_eq_ok (s := { s with columns := kept })
      (fun d hd => columns d (sub hd)) orders, v, equal, rfl, rfl, rfl⟩
  refine ⟨fun p' h => ?_, fun p h => ?_⟩
  · obtain ⟨columns, orders⟩ := ok_of_produce h
    have all : ∀ d ∈ s.columns, scalar tables d.expr τ = .ok (v d.expr) := by
      intro d hd
      obtain ⟨d', hd', same | rfl⟩ := stands d hd
      · obtain ⟨w, hw⟩ := columns d' hd'
        exact known ⟨w, (scalar_of_same tables (floatless d' (sub hd')) same τ w).mp hw⟩
      · exact known (columns d' hd')
    obtain ⟨p, q', hp, hq', shortened⟩ := both all fun o ho => known (orders o ho)
    cases h.symm.trans hq'
    exact ⟨p, hp, shortened⟩
  · obtain ⟨columns, orders⟩ := ok_of_produce h
    obtain ⟨q, p', hq, hp', shortened⟩ := both (fun d hd => known (columns d hd)) fun o ho =>
      known (orders o ho)
    cases h.symm.trans hq
    exact ⟨p', hp', shortened⟩

end Shortened

namespace RepeatedColumns

variable {rel : Alias} {kept rest : List (ColumnDecl Expr)} {replaced : Replaced}

/-- The first column is kept. -/
theorem head?_fold : (fold rel kept rest replaced).1.head? = (kept ++ rest).head? := by
  fun_induction fold rel kept rest replaced with
  | case1 => simp
  | case2 kept d rest replaced first found ih =>
    rw [ih]
    cases kept with
    | nil => simp at found
    | cons _ _ => rfl
  | case3 _ _ _ _ _ ih => simpa using ih

/-- What is found first among all columns is found first among those that are kept. -/
theorem findSome?_fold {γ : Type} {f : ColumnDecl Expr → Option γ}
    (agree : ∀ d d', d.expr.same d'.expr = true → (f d).isSome = (f d').isSome) :
    (fold rel kept rest replaced).1.findSome? f = (kept ++ rest).findSome? f := by
  fun_induction fold rel kept rest replaced with
  | case1 => simp
  | case2 kept d rest replaced first found ih =>
    have same := List.find?_some found
    rw [ih, List.findSome?_append, List.findSome?_append, List.findSome?_cons]
    cases among : kept.findSome? f with
    | some _ => rfl
    | none =>
      have missing := List.findSome?_eq_none_iff.mp among first (List.mem_of_find?_eq_some found)
      have here : f d = none := by
        rw [← Option.isNone_iff_eq_none, ← Option.not_isSome, ← agree first d same, missing]
        rfl
      rw [here]
  | case3 _ _ _ _ _ ih => simpa using ih

theorem lookup_fold_apart {a : Alias} (h : a ≠ rel) (name : String) :
    (fold rel kept rest replaced).2.lookup (a, name) = replaced.lookup (a, name) := by
  fun_induction fold rel kept rest replaced with
  | case1 => rfl
  | case2 _ d _ _ _ _ ih => rw [ih, List.lookup_cons, beq_false_of_ne (by simp [h])]
  | case3 _ _ _ _ _ ih => exact ih

def Replaced.Sound (replaced : Replaced) : Prop := ∀ entry ∈ replaced, entry.2.rel = entry.1.1

theorem Replaced.Sound.fold (h : replaced.Sound) : (fold rel kept rest replaced).2.Sound := by
  fun_induction RepeatedColumns.fold rel kept rest replaced with
  | case1 => exact h
  | case2 _ _ _ _ _ _ ih => exact ih (List.forall_mem_cons.mpr ⟨rfl, h⟩)
  | case3 _ _ _ _ _ ih => exact ih h

theorem Replaced.Sound.rel_of_lookup (h : replaced.Sound) {a : Alias} {name : String} {c : Column}
    (found : replaced.lookup (a, name) = some c) : c.rel = a := by
  obtain ⟨before, after, rfl, -⟩ := List.lookup_eq_some_iff.mp found
  exact h ((a, name), c) (by simp)

def Replaced.standIn (replaced : Replaced) (a : Alias) (name : String) : String :=
  ((replaced.lookup (a, name)).map (·.name)).getD name

def Replaced.Stands (replaced : Replaced) (a : Alias) (row row' : Row) : Prop :=
  ∀ name, row.get? name = row'.get? (replaced.standIn a name)

theorem Replaced.stands_self {a : Alias} (h : ∀ name, replaced.lookup (a, name) = none) (row : Row) :
    replaced.Stands a row row := by
  intro name
  rw [standIn, h]
  rfl

section Settled

variable {s : Select Expr} (names : s.columnNames.Nodup)
  (fresh : ∀ name, replaced.lookup (s.rel, name) = none)
include names fresh

theorem kept_stands : ∀ d ∈ s.columns, ∃ d' ∈ (fold s.rel [] s.columns replaced).1,
    d'.expr.same d.expr = true ∨ d' = d := by
  intro d hd
  obtain ⟨d', hd', h⟩ := fold_stands names (fun d _ => fresh d.name) d hd
  exact ⟨d', hd', h.imp And.left And.right⟩

theorem aggregates_settled : (Part.select s).aggregates
    = (Part.select { s with columns := (fold s.rel [] s.columns replaced).1 }).aggregates := by
  have sub : (fold s.rel [] s.columns replaced).1 ⊆ s.columns := fold_sublist.subset
  have alike := any_aggregates_kept sub (kept_stands names fresh)
  simp [Part.aggregates_eq (.select _), Part.isAggregate, Part.aggregatesApart, Part.parts, Select.exprs,
    List.any_map, Function.comp_def, alike]

/-- Rows from the same values, all of them in the one and those that are kept in the other. -/
theorem stands_of_shortened {p p' : Produced}
    (h : Shortened s.columns (fold s.rel [] s.columns replaced).1 p p') :
    (fold s.rel [] s.columns replaced).2.Stands s.rel p.row p'.row ∧ p.row.head = p'.row.head := by
  obtain ⟨v, same, row, row', -⟩ := h
  have sub : (fold s.rel [] s.columns replaced).1.Sublist s.columns := fold_sublist
  have kept : ((fold s.rel [] s.columns replaced).1.map (·.name)).Nodup := names.sublist (sub.map _)
  refine ⟨fun name => ?_, ?_⟩
  · rw [row, row', Replaced.standIn]
    by_cases known : name ∈ s.columnNames
    · obtain ⟨d, hd, rfl⟩ := List.mem_map.mp known
      rw [Feed.get?_columns names hd fun d => v d.expr]
      obtain ⟨d', hd', ⟨equal, found⟩ | ⟨missing, rfl⟩⟩ := fold_stands names (fun d _ => fresh d.name) d hd
      · rw [found, ← same d hd d' (sub.subset hd') equal]
        exact (Feed.get?_columns kept hd' fun d => v d.expr).symm
      · rw [missing]
        exact (Feed.get?_columns kept hd' fun d => v d.expr).symm
    · have hidden : ∀ {columns : List (ColumnDecl Expr)}, columns ⊆ s.columns →
          Row.get? (columns.map fun d => (d.name, v d.expr)) name = none := fun sub =>
        List.lookup_eq_none_iff.mpr fun x hx => by
          obtain ⟨d, hd, rfl⟩ := List.mem_map.mp hx
          have other : name ≠ d.name := by
            rintro rfl
            exact known (List.mem_map_of_mem (sub hd))
          exact bne_iff_ne.mpr other
      rw [hidden (List.Subset.refl _), lookup_fold known, fresh]
      exact (hidden sub.subset).symm
  · have first : (fold s.rel [] s.columns replaced).1.head? = s.columns.head? := head?_fold
    rw [Row.head, Row.head, row, row', List.head?_map, List.head?_map, first]

variable (tables) (floatless : ∀ d ∈ s.columns, (Part.expr d.expr).Every Part.Floatless)
include floatless

/-- The rows of a select that computes each expression once stand for those of the whole select. -/
theorem select_settled (σ : Scope) :
    Follows (List.Forall₂ fun row row' =>
        (fold s.rel [] s.columns replaced).2.Stands s.rel row row' ∧ row.head = row'.head)
      (select tables s σ) (select tables { s with columns := (fold s.rel [] s.columns replaced).1 } σ)
    ∧ Follows (List.Forall₂ fun row' row =>
        (fold s.rel [] s.columns replaced).2.Stands s.rel row row' ∧ row'.head = row.head)
      (select tables { s with columns := (fold s.rel [] s.columns replaced).1 } σ)
      (select tables s σ) := by
  have sub : (fold s.rel [] s.columns replaced).1 ⊆ s.columns := fold_sublist.subset
  have stands := kept_stands names fresh
  have numbers : s.columns.findSome? (fun d => d.expr.rowOrders?)
      = (fold s.rel [] s.columns replaced).1.findSome? fun d => d.expr.rowOrders? :=
    Eq.symm (findSome?_fold (γ := List (Order Expr)) fun _ _ same => Expr.rowOrders?_isSome_of_same same)
  have aggregates : s.hasAggregates
      = { s with columns := (fold s.rel [] s.columns replaced).1 }.hasAggregates := by
    rw [Select.hasAggregates, Select.hasAggregates, any_aggregates_kept sub stands]
  have produced := fun τ => produce_shortened tables sub stands floatless τ
  refine ⟨(select_related aggregates numbers (fun _ _ h => h.keys)
      (fun _ _ hp _ _ hq => hp.values sub stands hq) (fun τ => (produced τ).1) σ).mono
      fun rows rows' h => h.imp ?_,
    (select_related (s := { s with columns := (fold s.rel [] s.columns replaced).1 })
      aggregates.symm numbers.symm (fun _ _ h => (Shortened.keys h).symm)
      (fun _ _ hp _ _ hq => (Shortened.values sub stands hp hq).symm) (fun τ => (produced τ).2) σ).mono
      fun rows rows' h => h.imp ?_⟩
  · rintro _ _ ⟨p, p', h, rfl, rfl⟩
    exact stands_of_shortened names fresh h
  · rintro _ _ ⟨p', p, h, rfl, rfl⟩
    exact (stands_of_shortened names fresh h).imp id Eq.symm

end Settled

end RepeatedColumns

end ObjectQuery
