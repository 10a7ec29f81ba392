import ObjectQuery.OuterJoin
import ObjectQuery.Proofs.Conditions
import ObjectQuery.Proofs.CountedRows
import ObjectQuery.Proofs.EqualColumns
import ObjectQuery.Proofs.StackOrdering
import ObjectQuery.Sample

/-!
The test column of an outer join. A conjunction that is true leaves no column unknown that one of its terms
compares with another, so the column by which a select is tested is never null in a row of it; and to test a
select does no more to its rows than to add that column.
-/

namespace ObjectQuery

open Eval

/-- Both computations fail with one error, or both succeed with related results. -/
inductive Accords {ε α β : Type} (R : α → β → Prop) : Except ε α → Except ε β → Prop
  | error (e : ε) : Accords R (.error e) (.error e)
  | ok {a : α} {b : β} : R a b → Accords R (.ok a) (.ok b)

namespace Accords

variable {ε α β γ δ : Type} {R : α → β → Prop} {S : γ → δ → Prop}

protected theorem bind {x : Except ε α} {y : Except ε β} {f : α → Except ε γ} {g : β → Except ε δ}
    (h : Accords R x y) (next : ∀ a b, R a b → Accords S (f a) (g b)) : Accords S (x >>= f) (y >>= g) := by
  cases h with
  | error e => exact .error e
  | ok related => exact next _ _ related

/-- Computations that go on from the same result. -/
theorem bind_same {x : Except ε α} {f : α → Except ε γ} {g : α → Except ε δ}
    (next : ∀ a, x = .ok a → Accords S (f a) (g a)) : Accords S (x >>= f) (x >>= g) := by
  cases x with
  | error e => exact .error e
  | ok a => exact next a rfl

theorem mapM {as : List α} {f : α → Except ε γ} {g : α → Except ε δ}
    (step : ∀ a ∈ as, Accords S (f a) (g a)) : Accords (List.Forall₂ S) (as.mapM f) (as.mapM g) := by
  induction as with
  | nil => exact .ok .nil
  | cons a rest ih =>
    rw [List.mapM_cons, List.mapM_cons]
    exact (step a (by simp)).bind fun c d hcd =>
      (ih fun b hb => step b (by simp [hb])).bind fun cs ds hcds => .ok (.cons hcd hcds)

end Accords

def Expr.Settles (e : Expr) (c : Column) : Prop :=
  ∀ (tables : Tables) (σ : Scope), Eval.scalar tables e σ = .ok (.bool true) →
    ∃ v, σ.column c = .ok v ∧ v.isNull = false

section Settling

variable {left right : Expr} {c : Column}

theorem eq_column_of_asColumn? {e : Expr} (h : e.asColumn? = some c) : e = .column c := by
  cases e with
  | column c' => rw [Option.some.inj h]
  | _ => cases h

/-- A comparison settles its sides. -/
theorem settles_comparison {op : BinaryOp} (comparison : op.isComparison = true)
    (h : left.asColumn? = some c ∨ right.asColumn? = some c) : (Expr.binary op left right).Settles c := by
  intro tables σ holds
  obtain ⟨a, b, ha, hb, compared⟩ := sides_of_binary holds
  obtain ⟨knownLeft, knownRight⟩ := Value.known_of_comparison comparison compared
  rcases h with h | h
  · rw [eq_column_of_asColumn? h, scalar] at ha
    exact ⟨a, ha, knownLeft⟩
  · rw [eq_column_of_asColumn? h, scalar] at hb
    exact ⟨b, hb, knownRight⟩

/-- A conjunction settles what one of its sides settles. -/
theorem settles_and (h : left.Settles c ∨ right.Settles c) : (Expr.binary .and left right).Settles c := by
  intro tables σ holds
  obtain ⟨a, b, ha, hb, conj⟩ := sides_of_binary holds
  obtain ⟨rfl, rfl⟩ := Value.both_of_and conj
  exact h.elim (fun h => h tables σ ha) fun h => h tables σ hb

theorem mem_addJoinColumn {aliases : List Alias} {found : List Column} {c' : Column}
    (h : c ∈ addJoinColumn aliases found c') : c ∈ found ∨ c = c' := by
  rw [addJoinColumn] at h
  split at h
  · simpa using h
  · exact .inl h

/-- The side of a comparison that is read against a column from outside. -/
theorem side_of_inner {aliases : List Alias} {c' : Column}
    (h : (if left.isColumnOutside aliases then right.asColumn?
      else if right.isColumnOutside aliases then left.asColumn? else none) = some c') :
    left.asColumn? = some c' ∨ right.asColumn? = some c' := by
  split at h
  · exact .inr h
  · split at h
    · exact .inl h
    · cases h

/-- The join columns of a condition are columns that it settles. -/
theorem settles_of_mem_joinColumnsFrom {aliases : List Alias} {found : List Column} {e : Expr}
    (h : c ∈ joinColumnsFrom aliases found e) : c ∈ found ∨ e.Settles c := by
  fun_induction joinColumnsFrom aliases found e with
  | case1 found left right inner c' side =>
    refine (mem_addJoinColumn h).imp id ?_
    rintro rfl
    exact settles_comparison rfl (side_of_inner side)
  | case2 => exact .inl h
  | case3 found left right inner c' side =>
    refine (mem_addJoinColumn h).imp id ?_
    rintro rfl
    exact settles_comparison rfl (side_of_inner side)
  | case4 => exact .inl h
  | case5 found left right ihLeft ihRight =>
    rcases ihRight h with before | settled
    · exact (ihLeft before).imp id fun settled => settles_and (.inl settled)
    · exact .inr (settles_and (.inr settled))
  | case6 => exact .inl h

end Settling

/-- A select is tested by a column that its filter settles, or by a constant. -/
theorem Select.joinTest_settled (s : Select Expr) :
    s.joinTest = .int 1 ∨ ∃ c, s.joinTest = .column c ∧ ∃ e ∈ s.filter, e.Settles c := by
  have settled : ∀ c ∈ (s.filter.map (joinColumns s.sourceAliases)).getD [], ∃ e ∈ s.filter, e.Settles c := by
    intro c hc
    cases filter : s.filter with
    | none => simp [filter] at hc
    | some e =>
      rw [filter] at hc
      rcases settles_of_mem_joinColumnsFrom (show c ∈ joinColumnsFrom s.sourceAliases [] e from hc) with none | settles
      · cases none
      · exact ⟨e, rfl, settles⟩
  rw [joinTest]
  split
  · rename_i c found
    exact .inr ⟨c, rfl, settled c (List.mem_of_find?_eq_some found)⟩
  · split
    · rename_i c rest all
      exact .inr ⟨c, rfl, settled c (by simp [all])⟩
    · exact .inl rfl

/-- In a frame that passes the filter the test is known. -/
theorem Select.joinTest_known {s : Select Expr} {tables : Tables} {σ : Scope}
    (passes : meets tables s.filter σ = .ok true) :
    ∃ v, v.isNull = false ∧ ∀ τ : Scope, τ.rows = σ.rows → scalar tables s.joinTest τ = .ok v := by
  rcases s.joinTest_settled with test | ⟨c, test, e, filter, settles⟩
  · refine ⟨.int 1, rfl, fun τ _ => ?_⟩
    rw [test, Expr.int, scalar]
  · rw [Option.mem_def.mp filter, meets] at passes
    obtain ⟨v, value, holds⟩ := bind_eq_ok.mp passes
    rw [eq_true_of_holds holds] at value
    obtain ⟨v, value, known⟩ := settles tables σ value
    refine ⟨v, known, fun τ same => ?_⟩
    rw [test, scalar, ← value, Scope.column, Scope.column, same]

structure Tested (name : String) (row row' : Row) : Prop where
  extends_row : ∃ extra : Row, row' = row ++ extra ∧ extra.length ≤ 1
  present : ∃ v, row'.get? name = some v ∧ v.isNull = false

section Rows

variable {tables : Tables} {s : Select Expr} {extra : List (ColumnDecl Expr)} {τ : Scope}

/-- A row has the value of each of its columns under the column's name. -/
theorem get?_of_rowOf {columns : List (ColumnDecl Expr)} (nodup : (columns.map (·.name)).Nodup) {row : Row}
    (h : rowOf tables columns τ = .ok row) {d : ColumnDecl Expr} (hd : d ∈ columns) :
    ∃ v, row.get? d.name = some v ∧ scalar tables d.expr τ = .ok v := by
  obtain ⟨names, values⟩ := rowOf_spec h
  obtain ⟨v, value, mem⟩ := values d hd
  exact ⟨v, Row.get?_of_mem (by rwa [names]) mem, value⟩

/-- A row is computed as before, with the value of the test after it. -/
theorem produce_tested {d : ColumnDecl Expr} {v : Value} (test : ∀ c ∈ extra, c.expr = d.expr)
    (few : extra.length ≤ 1) (names : ((s.columns ++ extra).map (·.name)).Nodup)
    (hd : d ∈ s.columns ++ extra) (value : scalar tables d.expr τ = .ok v) (known : v.isNull = false) :
    Accords (fun p p' => Tested d.name p.row p'.row ∧ p.keys = p'.keys)
      (produce s (fun e _ => scalar tables e) τ)
      (produce { s with columns := s.columns ++ extra } (fun e _ => scalar tables e) τ) := by
  have added : rowOf tables extra τ = .ok (extra.map fun c => (c.name, v)) :=
    mapM_eq_ok fun c hc => by rw [test c hc, value, ok_bind]; rfl
  have before : produce s (fun e _ => scalar tables e) τ = (do
      let row ← rowOf tables s.columns τ
      let keys ← s.orderBy.mapM fun o => scalar tables o.expr τ
      return ⟨row, keys⟩) := produce_eq ..
  have after : produce { s with columns := s.columns ++ extra } (fun e _ => scalar tables e) τ = (do
      let row ← rowOf tables (s.columns ++ extra) τ
      let keys ← s.orderBy.mapM fun o => scalar tables o.expr τ
      return ⟨row, keys⟩) := produce_eq ..
  rw [before, after]
  cases computed : rowOf tables s.columns τ with
  | error e =>
    rw [rowOf_append, computed]
    exact .error e
  | ok row =>
    have whole : rowOf tables (s.columns ++ extra) τ = .ok (row ++ extra.map fun c => (c.name, v)) := by
      rw [rowOf_append, computed, added]
      rfl
    obtain ⟨w, found, again⟩ := get?_of_rowOf names whole hd
    rw [whole, ok_bind, ok_bind]
    refine Accords.bind_same fun keys _ => .ok ⟨⟨⟨_, rfl, by simpa using few⟩, v, ?_, known⟩, rfl⟩
    rw [found, ← Except.ok.inj (value.symm.trans again)]

end Rows

namespace Select

variable {tables : Tables} {s : Select Expr} {env : Scope}

/-- The test of a select is known in each scope in which a row is computed. -/
theorem joinTest_known_of_numbered (groupBy : s.groupBy = []) (aggregates : s.hasAggregates = false)
    {τs τs' : List Scope} (scopes : rowScopes tables s env = .ok τs)
    (numbered : numbered s (fun e _ => scalar tables e) τs = .ok τs') :
    ∀ τ ∈ τs', ∃ v, scalar tables s.joinTest τ = .ok v ∧ v.isNull = false := by
  intro τ hτ
  obtain ⟨frames, -, scopes⟩ := bind_eq_ok.mp scopes
  obtain ⟨kept, filtered, scopes⟩ := bind_eq_ok.mp scopes
  rw [scopes_eq, if_neg (by simp [groupBy, aggregates])] at scopes
  have rows : τ.rows ∈ τs.map (·.rows) := rows_numbered numbered ▸ List.mem_map_of_mem hτ
  obtain ⟨σ, hσ, same⟩ := List.mem_map.mp rows
  rw [← Except.ok.inj scopes] at hσ
  obtain ⟨f, hf, rfl⟩ := List.mem_map.mp hσ
  have passes : meets tables s.filter (env.extend f) = .ok true := by
    rw [filtered_eq] at filtered
    cases filter : s.filter with
    | none => rfl
    | some e =>
      rw [filter] at filtered
      exact (kept_of_filterM filtered f hf).2
  obtain ⟨v, known, value⟩ := joinTest_known passes
  exact ⟨v, value τ same.symm, known⟩

theorem rowScopes_columns (s : Select Expr) {columns : List (ColumnDecl Expr)}
    (aggregates : { s with columns }.hasAggregates = s.hasAggregates) :
    rowScopes tables { s with columns } env = rowScopes tables s env := by
  simp only [rowScopes, filtered_eq, scopes_eq, aggregates]
  rfl

theorem numbered_columns (s : Select Expr) {columns : List (ColumnDecl Expr)}
    (numbers : columns.findSome? (fun d => d.expr.rowOrders?) = s.columns.findSome? fun d => d.expr.rowOrders?)
    (τs : List Scope) : numbered { s with columns } (fun e _ => scalar tables e) τs
      = numbered s (fun e _ => scalar tables e) τs := by
  rw [numbered_eq, numbered_eq, numbers]

/-- The test neither aggregates nor numbers the rows. -/
theorem joinTest_single (s : Select Expr) :
    (Part.expr s.joinTest).aggregates = false ∧ s.joinTest.rowOrders? = none := by
  rcases s.joinTest_settled with test | ⟨c, test, -⟩ <;> rw [test]
  · exact ⟨by simp [Part.aggregates_eq, Part.isAggregate, Part.parts, Expr.int], rfl⟩
  · exact ⟨by simp [Part.aggregates_eq, Part.isAggregate, Part.parts], rfl⟩

/-- A select with its test fails as before, or has its rows as before with the test in each. -/
theorem select_tested {extra : List (ColumnDecl Expr)} {d : ColumnDecl Expr} (env : Scope)
    (distinct : s.distinct = false) (groupBy : s.groupBy = []) (aggregates : s.hasAggregates = false)
    (test : ∀ c ∈ extra, c.expr = s.joinTest) (few : extra.length ≤ 1)
    (names : ((s.columns ++ extra).map (·.name)).Nodup) (hd : d ∈ s.columns ++ extra)
    (tests : d.expr = s.joinTest) :
    Accords (List.Forall₂ (Tested d.name)) (select tables s env)
      (select tables { s with columns := s.columns ++ extra } env) := by
  obtain ⟨single, unnumbered⟩ := s.joinTest_single
  have none : extra.any (fun c => (Part.expr c.expr).aggregates) = false := by
    rw [List.any_eq_false]
    exact fun c hc => by simp [test c hc, single]
  have same : { s with columns := s.columns ++ extra }.hasAggregates = s.hasAggregates := by
    simp only [hasAggregates, List.any_append, none, Bool.or_false]
  have numbers : (s.columns ++ extra).findSome? (fun d => d.expr.rowOrders?)
      = s.columns.findSome? fun d => d.expr.rowOrders? := by
    have added : extra.findSome? (fun d => d.expr.rowOrders?) = .none :=
      List.findSome?_eq_none_iff.mpr fun c hc => by rw [test c hc, unnumbered]
    rw [List.findSome?_append, added, Option.or_none]
  rw [select_eq_rowScopes, select_eq_rowScopes, rowScopes_columns s same]
  refine Accords.bind_same fun τs scopes => ?_
  rw [numbered_columns s numbers]
  refine Accords.bind_same fun τs' numbered => ?_
  have each : Accords (List.Forall₂ fun p p' => Tested d.name p.row p'.row ∧ p.keys = p'.keys)
      (τs'.mapM (produce s fun e _ => scalar tables e))
      (τs'.mapM (produce { s with columns := s.columns ++ extra } fun e _ => scalar tables e)) := by
    refine Accords.mapM fun τ hτ => ?_
    obtain ⟨v, value, known⟩ := joinTest_known_of_numbered groupBy aggregates scopes numbered τ hτ
    exact produce_tested (fun c hc => (test c hc).trans tests.symm) few names hd (tests ▸ value) known
  refine each.bind fun ps ps' produced => ?_
  have arranged : List.Forall₂ (Tested d.name) (arrange s ps)
      (arrange { s with columns := s.columns ++ extra } ps') := by
    refine (arrange_related (fun _ _ h => h.2) (fun unequal => ?_) rfl rfl rfl produced).imp ?_
    · cases distinct.symm.trans unequal
    · rintro _ _ ⟨p, p', h, rfl, rfl⟩
      exact h.1
  rw [skipped_eq, skipped_eq]
  refine Accords.bind (R := List.Forall₂ (Tested d.name)) ?_ fun rows rows' kept => ?_
  · cases s.skip with
    | none => exact .ok arranged
    | some e =>
      exact Accords.bind_same fun v _ => Accords.bind_same fun n _ => .ok (List.forall₂_drop _ arranged)
  · rw [taken_eq, taken_eq]
    cases s.take with
    | none => exact .ok kept
    | some e =>
      exact Accords.bind_same fun v _ => Accords.bind_same fun n _ => .ok (List.forall₂_take _ kept)

/-- What compares equal to the test is the test. -/
theorem joinTest_exact (s : Select Expr) : (Part.expr s.joinTest).Every Part.Exact := by
  rcases s.joinTest_settled with test | ⟨c, test, -⟩ <;> rw [test]
  · exact .node (.int 1) (by simp [Part.parts, Expr.int])
  · exact .node trivial (by simp [Part.parts])

end Select

/-- The test of an outer join marks the rows that there are: the select with the test fails as before, or
has its rows as before, at most one column longer, and in none of them is the test null. -/
theorem Projection.withJoinTest_tested (p : Projection Expr) (names : p.select.columnNames.Nodup)
    (distinct : p.select.distinct = false) (groupBy : p.select.groupBy = [])
    (aggregates : p.select.hasAggregates = false) (tables : Tables) (env : Scope) :
    ∃ c : Column, c.rel = p.select.rel ∧ p.withJoinTest.projector = .outerJoined (.column c) p.projector
      ∧ Accords (List.Forall₂ (Tested c.name)) (Eval.select tables p.select env)
        (Eval.select tables p.withJoinTest.select env) := by
  obtain ⟨extra, columns, mem, expr, new, nodup⟩ :=
    ColumnDecl.provide_spec (p.select.joinTest.baseName "Test") p.select.joinTest_exact names
  -- The new columns share a name that is free.
  have few : extra.length ≤ 1 := by
    have named : extra.map (·.name) = List.replicate extra.length _ :=
      List.eq_replicate_iff.mpr ⟨by simp, by simpa using fun d hd => (new d hd).2⟩
    rw [List.map_append, List.nodup_append, named] at nodup
    exact List.nodup_replicate.mp nodup.2.1
  refine ⟨⟨p.select.rel, _, p.select.joinTest.columnType⟩, rfl, rfl, ?_⟩
  have widened : p.withJoinTest.select = { p.select with columns := p.select.columns ++ extra } := by
    rw [withJoinTest, ← columns]
  rw [widened]
  exact Select.select_tested env distinct groupBy aggregates (fun d hd => (new d hd).1) few nodup mem expr

namespace Sample

def atFirstCustomer : Scope := Scope.root.bind ⟨1⟩ [("CustomerID", .text "C1")]

def ordersAround : Projection Expr where
  select := .plain ⟨3⟩ [⟨"OrderID", .column ⟨⟨2⟩, "OrderID", .int⟩, .int⟩] (some (.table ⟨⟨2⟩, "Order", "Orders"⟩))
    (some (.equals (.column ⟨⟨2⟩, "CustomerID", .text⟩) (.column ⟨⟨1⟩, "CustomerID", .text⟩)))
  projector := .column ⟨⟨3⟩, "OrderID", .int⟩
  pick := none

/-- The three orders of a customer are marked by the key that they have in common with the customer. -/
theorem ordersAround_tested : ∃ c : Column, ∃ rows rows' : List Row,
    ordersAround.withJoinTest.projector = .outerJoined (.column c) ordersAround.projector
      ∧ Eval.select tables ordersAround.select atFirstCustomer = .ok rows
      ∧ Eval.select tables ordersAround.withJoinTest.select atFirstCustomer = .ok rows'
      ∧ rows.length = 3 ∧ List.Forall₂ (Tested c.name) rows rows' := by
  have found : (Eval.select tables ordersAround.select atFirstCustomer).toOption.any (·.length == 3) = true := by
    decide +kernel
  have unaggregated : ordersAround.select.hasAggregates = false := by decide +kernel
  obtain ⟨c, -, projector, accords⟩ := ordersAround.withJoinTest_tested (by decide) rfl rfl unaggregated
    tables atFirstCustomer
  obtain ⟨rows, select, three⟩ := exists_ok_of_any found
  cases tested : Eval.select tables ordersAround.withJoinTest.select atFirstCustomer with
  | error e =>
    rw [select, tested] at accords
    cases accords
  | ok rows' =>
    rw [select, tested] at accords
    cases accords with
    | ok marked => exact ⟨c, rows, rows', projector, select, rfl, by simpa using three, marked⟩

end Sample

end ObjectQuery
