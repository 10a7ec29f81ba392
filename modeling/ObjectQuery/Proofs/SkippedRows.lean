import ObjectQuery.Proofs.NumberedPages
import ObjectQuery.Sample

/-!
Skipping by row numbers does not change what a query answers. Every select that skips rows is replaced by
one that keeps a page by its numbers; where the tree is executed with success, so is the tree without
skipping, with the same result.
-/

namespace ObjectQuery

open Eval RowNumbers

/-- Only expressions stand here, subqueries apart: no operand of a set operation and no side of a client
join is looked into for aggregates. -/
inductive Part.OneLevel : Part → Prop
  | apart {p : Part} : p.aggregatesApart = true → OneLevel p
  | expr {e : Expr} : (∀ q ∈ (Part.expr e).parts, OneLevel q) → OneLevel (.expr e)

theorem Part.oneLevel_iff {e : Expr} : (Part.expr e).OneLevel ↔
    (Part.expr e).aggregatesApart = true ∨ ∀ q ∈ (Part.expr e).parts, q.OneLevel := by
  refine ⟨fun h => ?_, fun h => h.elim .apart .expr⟩
  cases h with
  | apart h => exact .inl h
  | expr h => exact .inr h

/-- No row numbers are there yet, and a select can number its rows: its column names are distinct and
leave the name of the numbers free, and if it skips rows, it does so by constants that can be added up and
neither groups nor drops nor reverses rows. -/
def Part.Pageable : Part → Prop
  | .expr (.rowNumber _) => False
  | .select s => s.columnNames.Nodup ∧ columnName ∉ s.columnNames
    ∧ (∀ e ∈ s.computing, (Part.expr e).OneLevel)
    ∧ (s.skip ≠ none → s.distinct = false ∧ s.groupBy = [] ∧ s.reversed = false
      ∧ ∃ skip take, 0 ≤ skip ∧ s.Pages skip take)
  | _ => True

def Part.Skipless : Part → Prop
  | .select s => s.skip = none
  | _ => True

section Rewriting

variable {tables : Tables}

structure Unskipped (tables : Tables) (e e' : Expr) : Prop where
  pairs : Lockstep.unnumbered.Pairs tables e' e
  objects : ∀ σ σ', Lockstep.unnumbered.Scopes σ σ' →
    FollowsRun (client tables e' σ) (client tables e σ')
  aggregates : (Part.expr e).OneLevel → (Part.expr e').aggregates = (Part.expr e).aggregates
  constant : ∀ v, e = .const v → e' = .const v
  skipless : (Part.expr e').Every Part.Skipless

structure UnskippedSelect (tables : Tables) (s s' : Select Expr) : Prop where
  pairs : Lockstep.unnumbered.SelectPairs tables s' s
  skipless : (Part.select s').Every Part.Skipless

structure UnskippedProjection (tables : Tables) (p p' : Projection Expr) : Prop where
  rel : p'.select.rel = p.select.rel
  pick : p'.pick = p.pick
  objects : ∀ σ σ', Lockstep.unnumbered.Scopes σ σ' →
    FollowsRun (project tables p' σ) (project tables p σ')
  joined : ∀ inner inner', List.Forall₂ (Unskipped tables) inner inner' →
    FollowsRun (joinedRows tables p' inner') (joinedRows tables p inner)
  skipless : (Part.projection p').Every Part.Skipless

/-- Aggregates are found in the same places, as long as only expressions are looked into. -/
theorem aggregates_of_oneLevel {e e' : Expr} (level : (Part.expr e).OneLevel)
    {QS : Select Expr → Select Expr → Prop} {QP : Projection Expr → Projection Expr → Prop}
    (shaped : e.Shaped (fun c c' => (Part.expr c).OneLevel →
      (Part.expr c').aggregates = (Part.expr c).aggregates) QS QP e') :
    (Part.expr e').aggregates = (Part.expr e).aggregates := by
  rw [Part.aggregates_eq, Part.aggregates_eq, ← shaped.isAggregate, ← shaped.aggregatesApart]
  cases level with
  | apart apart => rw [apart, Bool.not_true, Bool.false_and, Bool.false_and]
  | expr parts =>
    have same : List.Forall₂ (fun q q' : Part => q.aggregates = q'.aggregates) (Part.expr e).parts
        (Part.expr e').parts := by
      refine forall₂_imp_mem shaped.parts fun q hq q' h => ?_
      have level := parts q hq
      cases h with
      | expr h => exact (h level).symm
      | select _ | projection _ =>
        cases level with
        | apart apart => cases apart
    rw [any_congr same fun _ _ h => h]

/-- An expression over rewritten parts. -/
theorem Unskipped.of_shaped {e e' : Expr} (numberless : ∀ orders, e ≠ .rowNumber orders)
    (shaped : e.Shaped (Unskipped tables) (UnskippedSelect tables) (UnskippedProjection tables) e') :
    Unskipped tables e e' := by
  have flipped : e'.Shaped (fun c' c => Unskipped tables c c') (fun s' s => UnskippedSelect tables s s')
      (fun p' p => UnskippedProjection tables p p') e := shaped.flip
  have numberless' : ∀ orders, e' = .rowNumber orders → ∀ n n', Lockstep.unnumbered.number n n' → n = n' := by
    rintro orders rfl
    cases flipped
    exact absurd rfl (numberless _)
  have pairs : Lockstep.unnumbered.Pairs tables e' e :=
    .of_renamed (.refl (fun _ => rfl) (fun _ => rfl) e')
      (flipped.imp (fun _ _ _ h => h.pairs) (fun _ _ _ h => h.pairs) fun _ _ _ h => h) numberless'
  refine ⟨pairs, fun σ σ' hσ => ?_, fun level => ?_, ?_, ?_⟩
  · exact client_follows flipped (pairs.value σ σ' hσ) (fun _ _ h => h.pairs.value σ σ' hσ)
      (fun _ _ h => h.objects σ σ' hσ) (fun _ _ h => h.objects σ σ' hσ)
      fun p outer inner _ p' inner' h hinner => ⟨h.rel, h.pick, h.joined inner' inner hinner.flip⟩
  · exact aggregates_of_oneLevel level
      (shaped.imp (fun _ _ _ h => h.aggregates) (fun _ _ _ h => h) fun _ _ _ h => h)
  · rintro v rfl
    cases shaped
    rfl
  · exact .of_matches trivial shaped.parts (fun _ _ h => h.skipless) (fun _ _ h => h.skipless)
      fun _ _ h => h.skipless

/-- A projection over rewritten parts. -/
theorem UnskippedProjection.of_shaped {p p' : Projection Expr}
    (shaped : p.Shaped (Unskipped tables) (UnskippedSelect tables) p') :
    UnskippedProjection tables p p' := by
  have rel : p'.select.rel = p.select.rel := shaped.select.pairs.named
  have bound : ∀ {σ σ' : Scope} (row : Row), Lockstep.unnumbered.Scopes σ σ' →
      Lockstep.unnumbered.Scopes (σ.bind p'.select.rel row) (σ'.bind p'.select.rel row) :=
    fun row hσ => hσ.extend rfl
  refine ⟨rel, shaped.pick.symm, fun σ σ' hσ => ?_, fun inner inner' h => ?_, ?_⟩
  · refine project_follows rel shaped.pick.symm (Follows.forall₂_eq (shaped.select.pairs.rows σ σ' hσ)) ?_
    rintro row _ rfl
    exact shaped.projector.objects _ _ (bound row hσ)
  · have root : Lockstep.unnumbered.Scopes .root .root := ⟨rfl, .none, trivial⟩
    refine joinedRows_follows rel (Follows.forall₂_eq (shaped.select.pairs.rows .root .root root)) ?_ ?_
    · rintro row _ rfl
      exact h.flip.imp fun k' k hk => hk.pairs.value _ _ (bound row root)
    · rintro row _ rfl
      exact shaped.projector.objects _ _ (bound row root)
  · exact .of_matches trivial shaped.parts (fun _ _ h => h.skipless) (fun _ _ h => h.skipless)
      fun _ _ h => h.elim

section Selects

variable {s s' : Select Expr} (shaped : s.Shaped (Unskipped tables) s')
include shaped

theorem akin_of_unskipped : s'.Akin (Lockstep.unnumbered.Pairs tables) s :=
  (shaped.flip.imp fun _ _ _ (h : Unskipped tables _ _) => h.pairs).akin

theorem skipless_of_unskipped : ∀ q ∈ (Part.select s').parts, q.Every Part.Skipless := by
  intro q hq
  obtain ⟨e, he, rfl⟩ := List.mem_map.mp hq
  obtain ⟨_, -, h⟩ := exists_of_forall₂_right shaped.exprs e he
  exact h.skipless

theorem hasAggregates_of_unskipped (level : ∀ e ∈ s.computing, (Part.expr e).OneLevel) :
    s'.hasAggregates = s.hasAggregates :=
  (shaped.akin.hasAggregates fun c hc _ h => (h.aggregates (level c hc)).symm).symm

theorem pages_of_unskipped {skip : Int} {take : Option Int} (pages : s.Pages skip take) :
    s'.Pages skip take := by
  have hskip := shaped.skip
  have htake := shaped.take
  rw [pages.skip] at hskip
  rw [pages.take] at htake
  refine ⟨pages.sums, ?_, ?_⟩
  · generalize s'.skip = skip' at hskip
    cases hskip with
    | some h => rw [h.constant _ rfl]; rfl
  · generalize s'.take = take' at htake
    cases take with
    | none =>
      cases htake
      rfl
    | some n =>
      cases htake with
      | some h => rw [h.constant _ rfl]; rfl

/-- The select above numbered rows skips none, and neither does what is below. -/
theorem skipless_pageOf (rel : Alias) {test : Expr} (tested : (Part.expr test).Every Part.Skipless) :
    (Part.select (s'.pageOf rel test)).Every Part.Skipless := by
  have skipless := skipless_of_unskipped shaped
  have numbered : (Part.select (s'.numberedAs rel)).Every Part.Skipless := by
    refine .node rfl fun q hq => ?_
    obtain ⟨e, he, rfl⟩ := List.mem_map.mp hq
    have either : e ∈ s'.exprs ∨ e = .rowNumber s'.orderBy := by
      simp only [Select.exprs, Select.numberedAs, List.map_append, List.map_cons, List.map_nil,
        List.mem_append, List.mem_singleton, Option.toList_none, List.not_mem_nil, or_false] at he ⊢
      tauto
    rcases either with he | rfl
    · exact skipless _ (List.mem_map_of_mem he)
    · refine .node trivial fun q hq => ?_
      obtain ⟨o, ho, rfl⟩ := List.mem_map.mp hq
      exact skipless _ (Select.orderBy_mem ho)
  refine .node rfl fun q hq => ?_
  obtain ⟨e, he, rfl⟩ := List.mem_map.mp hq
  simp only [Select.exprs, Select.pageOf, Select.plain, Option.toList_some, Option.toList_none, List.map_nil,
    List.append_nil, List.cons_append, List.nil_append, List.map_map, List.mem_cons, List.mem_map] at he
  rcases he with rfl | rfl | ⟨d, -, rfl⟩
  · exact .node trivial (by simpa [Part.parts] using numbered)
  · exact tested
  · exact .node trivial (by simp [Part.parts])

/-- A select that skips no rows stays over its rewritten parts. -/
theorem UnskippedSelect.kept (skip : s.skip = none) (level : ∀ e ∈ s.computing, (Part.expr e).OneLevel) :
    Mints (UnskippedSelect tables s) (RowNumbers.finish s') := by
  have skipless : s'.skip = none := by
    have hskip := shaped.skip
    rw [skip] at hskip
    generalize s'.skip = skip' at hskip
    cases hskip
    rfl
  have pairs : Lockstep.unnumbered.SelectPairs tables s' s :=
    .of_akin (akin_of_unskipped shaped) shaped.rel.symm fun _ => hasAggregates_of_unskipped shaped level
  intro supply
  exact ⟨s', supply, Select.finish_keep skipless supply, Nat.le_refl _, fun _ _ =>
    ⟨pairs, .node skipless (skipless_of_unskipped shaped)⟩⟩

/-- A select that skips rows becomes a page of its numbered rows. -/
theorem UnskippedSelect.paged {skip : Int} {take : Option Int} (pages : s.Pages skip take) (nonneg : 0 ≤ skip)
    (distinct : s.distinct = false) (groupBy : s.groupBy = []) (reversed : s.reversed = false)
    (pageable : (Part.select s).Every Part.Pageable) :
    Mints (UnskippedSelect tables s) (RowNumbers.finish s') := by
  obtain ⟨nodup, named, level, -⟩ := pageable.here
  have akin := akin_of_unskipped shaped
  have names : s'.columnNames = s.columnNames := Lockstep.columnNames_of_akin akin
  have pages' := pages_of_unskipped shaped pages
  have numberless : ∀ d ∈ s.columns, d.expr.rowOrders? = none := by
    intro d hd
    have node := (pageable.part (Select.columns_mem hd)).here
    generalize d.expr = e at node
    cases e with
    | rowNumber _ => exact node.elim
    | _ => rfl
  have groupBy' : s'.groupBy = [] := List.length_eq_zero_iff.mp (by
    rw [shaped.groupBy.length_eq.symm, groupBy, List.length_nil])
  intro supply
  have run := Select.finish_page pages'.skip (shaped.distinct.symm.trans distinct) groupBy' (names ▸ named) supply
  rw [pages'.take] at run
  have pairs : Lockstep.unnumbered.SelectPairs tables (s'.pageOf ⟨supply.next⟩
      (inPage (.column ⟨⟨supply.next⟩, columnName, .int⟩) (.int skip) (take.map .int))) s := by
    refine ⟨shaped.rel.symm, ?_, fun σ σ' hσ => ?_⟩
    · rw [← names, Select.columnNames, Select.pageOf, Select.plain, List.map_map]
      rfl
    · exact Select.pageOf_follows akin (fun _ => hasAggregates_of_unskipped shaped level) numberless distinct
        reversed pages nonneg nodup named ⟨supply.next⟩ hσ
  refine ⟨_, _, run, Nat.le_succ _, fun _ _ => ⟨pairs, skipless_pageOf shaped _ ?_⟩⟩
  cases take with
  | none => simp [inPage, Expr.int, Part.every_iff (p := .expr _), Part.parts, Part.Skipless]
  | some n =>
    rw [Option.map_some, pages.inPage_some]
    simp [Expr.int, Part.every_iff (p := .expr _), Part.parts, Part.Skipless]

theorem UnskippedSelect.finish (pageable : (Part.select s).Every Part.Pageable) :
    Mints (UnskippedSelect tables s) (RowNumbers.finish s') := by
  obtain ⟨-, -, level, paged⟩ := pageable.here
  cases skip : s.skip with
  | none => exact UnskippedSelect.kept shaped skip level
  | some _ =>
    obtain ⟨distinct, groupBy, reversed, skip, take, nonneg, pages⟩ := paged (by simp [skip])
    exact UnskippedSelect.paged shaped pages nonneg distinct groupBy reversed pageable

end Selects

/-- What the rewriting makes of a tree. -/
theorem Part.Every.unskipped {p : Part} (pageable : p.Every Part.Pageable) :
    (∀ e, p = .expr e → Mints (Unskipped tables e) (e.bottomUp ⟨pure, RowNumbers.finish⟩))
    ∧ (∀ s, p = .select s → Mints (UnskippedSelect tables s) (s.bottomUp ⟨pure, RowNumbers.finish⟩))
    ∧ ∀ q, p = .projection q →
      Mints (UnskippedProjection tables q) (q.bottomUp ⟨pure, RowNumbers.finish⟩) := by
  induction pageable with
  | @node p here parts ih =>
    refine ⟨?_, ?_, ?_⟩
    · rintro e rfl
      have numberless : ∀ orders, e ≠ .rowNumber orders := by
        rintro orders rfl
        exact here
      rw [Expr.bottomUp]
      exact mints_bind (Expr.traverse_makes e (fun c hc => (ih _ hc).1 c rfl)
        (fun s hs => (ih _ hs).2.1 s rfl) fun q hq => (ih _ hq).2.2 q rfl) fun _ shaped =>
        mints_pure (.of_shaped numberless shaped)
    · rintro s rfl
      rw [Select.bottomUp]
      exact mints_bind (Select.traverse_makes s fun c hc => (ih _ hc).1 c rfl) fun _ shaped =>
        UnskippedSelect.finish shaped (.node here parts)
    · rintro q rfl
      rw [Projection.bottomUp]
      exact Yields.Makes.mono (Projection.traverse_makes q (fun c hc => (ih _ hc).1 c rfl)
        fun s hs => (ih _ hs).2.1 s rfl) fun _ _ shaped => .of_shaped shaped

/-- Where a tree is executed with success, so is the tree that skips by row numbers, with the same
result; no select of that one skips rows. -/
theorem Expr.execute_skipByRowNumbers {e : Expr} (pageable : (Part.expr e).Every Part.Pageable)
    (supply : Supply) {v : ClientValue} (h : e.execute tables = .ok v) :
    (e.skipByRowNumbers.run supply).1.execute tables = .ok v
      ∧ (Part.expr (e.skipByRowNumbers.run supply).1).Every Part.Skipless := by
  obtain ⟨-, joined, run⟩ := Expr.execute_eq_ok.mp h
  have unskipped : Unskipped tables e (e.skipByRowNumbers.run supply).1 := by
    have makes : Mints (Unskipped tables e) e.skipByRowNumbers := pageable.unskipped.1 e rfl
    obtain ⟨e', supply', walk, -, later⟩ := makes supply
    have walk : e.skipByRowNumbers.run supply = (e', supply') := walk
    rw [walk]
    exact later supply' (Nat.le_refl _)
  generalize (e.skipByRowNumbers.run supply).1 = e' at unskipped ⊢
  have run := (unskipped.objects .root .root ⟨rfl, .none, trivial⟩ []).eq_ok run
  refine ⟨Expr.execute_eq_ok.mpr ⟨?_, joined, run⟩, unskipped.skipless⟩
  rintro c rfl
  simp [client, Eval.scalar] at run

end Rewriting

namespace Sample

def deputy : Select Expr :=
  { rel := ⟨4⟩, columns := [⟨"Name", .column ⟨⟨3⟩, "Name", .text⟩, .text⟩]
    source := some (.table ⟨⟨3⟩, "Employee", "Staff"⟩)
    filter := some (.equals (.column ⟨⟨3⟩, "boss_id", .int⟩) (.column ⟨⟨1⟩, "ID", .int⟩))
    orderBy := [⟨.ascending, .column ⟨⟨3⟩, "Name", .text⟩⟩]
    groupBy := [], distinct := false, skip := some (.int 1), take := some (.int 1), reversed := false }

def withDeputies : Select Expr :=
  { rel := ⟨2⟩
    columns := [⟨"Name", .column ⟨⟨1⟩, "Name", .text⟩, .text⟩, ⟨"Deputy", .scalar deputy, .text⟩]
    source := some (.table ⟨⟨1⟩, "Employee", "Staff"⟩), filter := none
    orderBy := [⟨.descending, .column ⟨⟨1⟩, "Name", .text⟩⟩]
    groupBy := [], distinct := false, skip := some (.int 1), take := none, reversed := false }

def deputies : Expr :=
  .projection ⟨withDeputies, .construct none [⟨"Name", .column ⟨⟨2⟩, "Name", .text⟩⟩,
    ⟨"Deputy", .column ⟨⟨2⟩, "Deputy", .text⟩⟩], none⟩

theorem pageable_deputies : (Part.expr deputies).Every Part.Pageable := by
  have inner : (Part.select deputy).Pageable := by
    refine ⟨by decide, by decide, ?_, fun _ => ⟨rfl, rfl, rfl, 1, some 1, by decide, by simp [Expr.plus, Expr.int], rfl, rfl⟩⟩
    simp [deputy, Select.computing, Part.oneLevel_iff, Part.parts, Expr.equals]
  have outer : (Part.select withDeputies).Pageable := by
    refine ⟨by decide, by decide, ?_, fun _ => ⟨rfl, rfl, rfl, 1, none, by decide, by simp, rfl, rfl⟩⟩
    simp [withDeputies, Select.computing, Part.oneLevel_iff, Part.aggregatesApart, Part.parts]
  have inner : (Part.select deputy).Every Part.Pageable := .node inner (by
    simp [deputy, Part.parts, Select.exprs, Part.every_iff (p := .expr _), Part.Pageable, Expr.equals,
      Expr.int])
  have outer : (Part.select withDeputies).Every Part.Pageable := .node outer (by
    simp [withDeputies, Part.parts, Select.exprs, Part.every_iff (p := .expr _), Part.Pageable, inner,
      Expr.int])
  simp [deputies, Part.parts, Part.every_iff (p := .expr _), Part.every_iff (p := .projection _),
    Part.Pageable, outer]

/-- Both trees of the deputies are executed, with the same result; the second one skips nowhere. -/
theorem execute_deputies : ∃ v, deputies.execute tables = .ok v
    ∧ (deputies.skipByRowNumbers.run ⟨5⟩).1.execute tables = .ok v
    ∧ (Part.expr (deputies.skipByRowNumbers.run ⟨5⟩).1).Every Part.Skipless := by
  have executes : (deputies.execute tables).toOption.any (fun _ => true) = true := by
    decide +kernel
  obtain ⟨v, h, -⟩ := exists_ok_of_any executes
  exact ⟨v, h, Expr.execute_skipByRowNumbers pageable_deputies ⟨5⟩ h⟩

def aggregatedNone : Select Expr :=
  let headcount : Select Expr :=
    { Select.plain ⟨4⟩ [⟨"Count", .aggregate .count none false, .int⟩]
        (some (.table ⟨⟨5⟩, "Employee", "Staff"⟩)) none with skip := some (.int 0) }
  let nobody : Select Expr := .plain ⟨2⟩ [] none (some (.const (.bool false)))
  .plain ⟨1⟩ [⟨"One", .int 1, .int⟩] (some (.select nobody))
    (some (.setOp ⟨3⟩ .unionAll headcount (.plain ⟨6⟩ [⟨"Count", .int 1, .int⟩] none none)))

/-- Once the operand numbers its rows, the aggregate stands below it and counts for nothing further out. -/
example : ((Eval.select tables aggregatedNone .root).toOption.map List.length,
    (Eval.select tables ((aggregatedNone.bottomUp ⟨pure, RowNumbers.finish⟩).run ⟨7⟩).1 .root).toOption.map
      List.length) = (some 1, some 0) := by
  decide +kernel

end Sample

end ObjectQuery
