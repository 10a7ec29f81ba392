import ObjectQuery.Proofs.Tidiness
import ObjectQuery.Proofs.StackColumns
import ObjectQuery.Proofs.UnusedColumns
import ObjectQuery.Rewrite.Applies
import ObjectQuery.Rewrite.CrossJoins
import ObjectQuery.Rewrite.GroupColumns
import ObjectQuery.Rewrite.RepeatedJoins

/-!
The passes that add no column but under a free name, and those that only drop columns, keep a tree
tidy: aggregates of groups are added to the grouping select, isolated joins export what is read
through them, applies become joins, repeated joins and columns and unused columns go.
-/

namespace ObjectQuery

open Outcomes (ofState ofId)

namespace GroupColumns

def TidyWaiting (state : State) : Prop := ∀ c ∈ state.waiting, c.aggregate.Tidy

theorem tidy_place {s : Select Expr} {c : Candidate} (hs : s.Tidy) (hc : c.aggregate.Tidy) :
    (place s c).1.Tidy := by
  have clauses := hs.clauses
  exact Select.TidyClauses.tidy { clauses with columns := clauses.columns.available _ hc }

theorem tidy_foldl_place {cs : List Candidate} (hcs : ∀ c ∈ cs, c.aggregate.Tidy) {s : Select Expr}
    (hs : s.Tidy) (placed : List (Nat × Column)) :
    (cs.foldl (fun (s, placed) c => ((place s c).1, (c.correlation, (place s c).2) :: placed))
      (s, placed)).1.Tidy := by
  induction cs generalizing s placed with
  | nil => exact hs
  | cons c rest ih => exact ih (fun c hc => hcs c (by simp [hc])) (tidy_place hs (hcs c (by simp))) _

theorem keeps_settle {s : Select Expr} (hs : s.Tidy) :
    (ofState State).Keeps TidyWaiting Select.Tidy (settle s) := by
  rw [settle]
  refine (Outcomes.keeps_get fun _ => id).bind fun state waiting => ?_
  simp only [List.partition_eq_filter_filter]
  exact (Outcomes.keeps_set fun c hc => waiting c (List.mem_of_mem_filter hc)).bind fun _ _ =>
    .pure (tidy_foldl_place (fun c hc => waiting c (List.mem_of_mem_filter hc)) hs _)

def walker : Walker (StateM State) := ⟨Expr.groupColumns, Select.groupColumns, Projection.groupColumns⟩

theorem keeps_tidy {p : Part} (h : p.Tidy) :
    walker.Keeps (ofState State) TidyWaiting Part.NamesOnce p := by
  refine .of_steps (fun p here parts => ?_) h
  cases p with
  | expr e =>
    change (ofState State).Keeps TidyWaiting Expr.Tidy e.groupColumns
    by_cases group : ∃ n owner inGroup fallback, e = .groupAggregate n owner inGroup fallback
    · obtain ⟨n, owner, inGroup, fallback, rfl⟩ := group
      have fallen := parts (.select fallback) (by simp [Part.parts])
      rw [Expr.groupColumns]
      refine (Outcomes.keeps_get (R := fun _ => True) fun _ _ => trivial).bind fun state _ => ?_
      split
      · exact .pure (Expr.tidy_column _)
      · exact Outcomes.Keeps.bind fallen fun s hs => .pure (Expr.tidy_scalar.mpr hs)
    · rw [Expr.groupColumns.eq_2 e fun n owner inGroup fallback he => group ⟨n, owner, inGroup, fallback, he⟩]
      exact Walker.Keeps.traverse parts Part.lasting_namesOnce here
  | select s =>
    change (ofState State).Keeps TidyWaiting Select.Tidy s.groupColumns
    rw [Select.groupColumns]
    exact (Walker.Keeps.traverseSelect parts Part.lasting_namesOnce here).bind fun s hs => keeps_settle hs
  | projection p =>
    change (ofState State).Keeps TidyWaiting Projection.Tidy p.groupColumns
    rw [Projection.groupColumns]
    exact Walker.Keeps.traverseProjection parts Part.lasting_namesOnce here

theorem foldl_addCandidate_subset (found : List Candidate) (cs : List Candidate) :
    cs.foldl addCandidate found ⊆ found ++ cs := by
  induction cs generalizing found with
  | nil => simp
  | cons c rest ih =>
    have added : addCandidate found c ⊆ found ++ [c] := by
      rw [addCandidate]
      split
      · exact List.subset_append_left _ _
      · exact List.Subset.refl _
    rw [List.append_cons]
    intro d hd
    rcases List.mem_append.mp (ih _ hd) with hd | hd
    · exact List.mem_append_left _ (added hd)
    · exact List.mem_append_right _ hd

theorem tidy_candidates {e : Expr} (h : e.Tidy) : ∀ c ∈ candidates e, c.aggregate.Tidy := by
  intro c hc
  have gathered := foldl_addCandidate_subset _ _ hc
  refine Part.Every.of_mem_gather (D := fun c : Candidate => c.aggregate.Tidy)
    (h.everywhere.mono fun q hq c hc => ?_) c gathered
  split at hc
  · rw [List.mem_singleton.mp hc]
    exact hq.part (by simp [Part.parts])
  · cases hc

end GroupColumns

theorem Expr.Tidy.withGroupColumns {e : Expr} (h : e.Tidy) : e.withGroupColumns.Tidy :=
  Outcomes.Keeps.result (GroupColumns.keeps_tidy h) (s := ⟨GroupColumns.candidates e, []⟩)
    (GroupColumns.tidy_candidates h)

namespace CrossJoins

theorem tidy_exports (rel : Alias) (read : List Column) {columns : List (ColumnDecl Expr)}
    (h : TidyColumns columns) : TidyColumns (exports rel read columns).1 := by
  induction read generalizing columns with
  | nil => exact h
  | cons c rest ih => exact ih (h.available _ (Expr.tidy_column c))

theorem keeps_isolate (read : List Column) {source : Expr} (h : source.Tidy) :
    (ofState State).Keeps (fun _ => True) Expr.Tidy (isolate read source) := by
  rintro state _ _ - ⟨⟩
  exact ⟨Expr.tidy_select.mpr (Select.tidy_plain (tidy_exports _ _ .nil) (by simpa using h) (by simp)),
    trivial⟩

def walker (read : List Column) (parent : Option JoinKind) : Walker Walk :=
  ⟨Expr.isolateJoins read parent, Select.isolateJoins read, Projection.isolateJoins read parent⟩

theorem keeps_tidy (read : List Column) {p : Part} (h : p.Tidy) (parent : Option JoinKind) :
    (walker read parent).Keeps (ofState State) (fun _ => True) Part.NamesOnce p := by
  induction h generalizing parent with
  | @node p here _ ih =>
    cases p with
    | expr e =>
      change (ofState State).Keeps (fun _ => True) Expr.Tidy (e.isolateJoins read parent)
      have walked := Walker.Keeps.traverse (fun q hq => ih q hq parent) Part.lasting_namesOnce here
      cases e with
      | column c =>
        rw [Expr.isolateJoins]
        exact Outcomes.Keeps.anything.bind fun _ _ =>
          .pure (Expr.tidy_column _)
      | join kind left right on =>
        have onCondition := Outcomes.Keeps.option (o := on) fun c hc =>
          ih (.expr c) (by simp [Part.parts, Option.mem_def.mp hc]) (some kind)
        rw [Expr.isolateJoins]
        refine Outcomes.Keeps.bind (ih (.expr left) (by simp [Part.parts]) (some kind)) fun left hl => ?_
        refine Outcomes.Keeps.bind (ih (.expr right) (by simp [Part.parts]) (some kind)) fun right hr => ?_
        refine onCondition.bind fun on hon => ?_
        have joined : (Expr.join kind left right on).Tidy := Expr.tidy_join.mpr ⟨hl, hr, hon⟩
        simp only
        split
        · exact keeps_isolate read joined
        · exact .pure joined
      | _ =>
        rw [Expr.isolateJoins.eq_3 _ _ _ (by simp) (by simp)]
        exact walked
    | select s =>
      change (ofState State).Keeps (fun _ => True) Select.Tidy (s.isolateJoins read)
      rw [Select.isolateJoins]
      exact Walker.Keeps.traverseSelect (fun q hq => ih q hq none) Part.lasting_namesOnce here
    | projection p =>
      change (ofState State).Keeps (fun _ => True) Projection.Tidy (p.isolateJoins read parent)
      rw [Projection.isolateJoins]
      exact Walker.Keeps.traverseProjection (fun q hq => ih q hq parent) Part.lasting_namesOnce here

end CrossJoins

theorem Expr.Tidy.withCrossJoinsIsolated {e : Expr} (h : e.Tidy) (supply : Supply) :
    (e.withCrossJoinsIsolated.run supply).1.Tidy :=
  Outcomes.Keeps.result (CrossJoins.keeps_tidy e.columns h none) trivial

namespace Applies

theorem tidy_joinSelect? {affinity : Affinity} {kind : JoinKind} {left : Expr} {s : Select Expr}
    (hl : left.Tidy) (hs : s.Tidy) : ∀ e ∈ joinSelect? affinity kind left s, e.Tidy := by
  have clauses := hs.clauses
  have always : always.Tidy := by simp [Applies.always, Expr.equals, Expr.int]
  have shown : ∀ {columns : List (ColumnDecl Expr)} {on : Option Expr}, TidyColumns columns →
      (∀ c ∈ on, c.Tidy) → ∀ kind, (Expr.join kind left
        (.select { s with filter := none, columns }) on).Tidy := fun columns on kind =>
    Expr.tidy_join.mpr ⟨hl, Expr.tidy_select.mpr
      (Select.TidyClauses.tidy { clauses with columns, filter := by simp }), on⟩
  unfold joinSelect?
  simp only
  split
  · simp
  · rintro _ ⟨⟩
    cases hf : s.filter with
    | none =>
      simp only
      split
      · exact shown clauses.columns (by simpa using always) _
      · exact shown clauses.columns (by simp) _
      · simp_all
    | some predicate =>
      have predicate := clauses.filter predicate hf
      obtain ⟨on, columns⟩ := predicate.split affinity clauses.columns s.rel s.sourceAliases
      simp only
      split
      · exact shown columns (by simpa using on) _
      · simp_all
      · rename_i c heq
        obtain rfl := Option.some.inj heq
        exact shown columns (by simpa using on) _

theorem tidy_finish {affinity : Affinity} {e : Expr} (h : e.Tidy) : (finish affinity e).Tidy := by
  unfold finish
  split
  · rename_i kind left right on
    obtain ⟨hl, hr, hon⟩ := Expr.tidy_join.mp h
    split
    · have always : always.Tidy := by simp [Applies.always, Expr.equals, Expr.int]
      have downgraded : ∀ e ∈ downgrade? affinity kind left right, e.Tidy := by
        unfold downgrade?
        split
        · rintro _ ⟨⟩
          split <;> simp [hl, always]
        · exact tidy_joinSelect? hl (Expr.tidy_select.mp hr)
        · simp
      cases found : downgrade? affinity kind left right with
      | none => exact h
      | some e => exact downgraded e found
    · exact h
  · exact h

end Applies

theorem Expr.Tidy.downgradeApplies {e : Expr} (h : e.Tidy) (affinity : Affinity) :
    (e.downgradeApplies affinity).Tidy :=
  Outcomes.Keeps.value (Finish.keeps_tidy (fun _ he => .pure (Applies.tidy_finish he))
    (fun _ hs => .pure hs) h)

namespace RepeatedJoins

theorem keeps_finish {e : Expr} (h : e.Tidy) :
    (ofState Replaced).Keeps (fun _ => True) Expr.Tidy (finish e) := by
  unfold finish
  split
  · refine Outcomes.Keeps.anything.bind fun _ _ => ?_
    split <;> exact .pure (Expr.tidy_column _)
  · split
    · exact (Outcomes.keeps_modify fun _ _ => trivial).bind fun _ _ => .pure (Expr.tidy_join.mp h).1
    · exact .pure h
  · exact .pure h

end RepeatedJoins

theorem Expr.Tidy.dropRepeatedJoins {e : Expr} (h : e.Tidy) : e.dropRepeatedJoins.Tidy :=
  Outcomes.Keeps.result (Finish.keeps_tidy (fun _ he => RepeatedJoins.keeps_finish he)
    (fun _ hs => .pure hs) h) trivial

namespace RepeatedColumns

theorem keeps_settle {s : Select Expr} (h : s.Tidy) :
    (ofState Replaced).Keeps (fun _ => True) Select.Tidy (settle s) := by
  rintro replaced _ _ - ⟨⟩
  have clauses := h.clauses
  have kept : TidyColumns (fold s.rel [] s.columns replaced).1 := clauses.columns.sublist fold_sublist
  exact ⟨Select.TidyClauses.tidy { clauses with columns := kept }, trivial⟩

def walker : Walker (StateM Replaced) := ⟨Expr.foldColumns, Select.foldColumns, Projection.foldColumns⟩

theorem keeps_tidy {p : Part} (h : p.Tidy) :
    walker.Keeps (ofState Replaced) (fun _ => True) Part.NamesOnce p := by
  -- The operands of a set operation are walked without being settled.
  suffices both : walker.Keeps (ofState Replaced) (fun _ => True) Part.NamesOnce p
      ∧ ∀ s, p = .select s → (ofState Replaced).Keeps (fun _ => True) Select.Tidy
        (s.traverse fun e _ => e.foldColumns) from both.1
  induction h with
  | @node p here _ ih =>
    have parts := fun q hq => (ih q hq).1
    cases p with
    | expr e =>
      refine ⟨?_, by simp⟩
      change (ofState Replaced).Keeps (fun _ => True) Expr.Tidy e.foldColumns
      have walked := Walker.Keeps.traverse parts Part.lasting_namesOnce here
      cases e with
      | column c =>
        rw [Expr.foldColumns]
        exact Outcomes.Keeps.anything.bind fun _ _ =>
          .pure (Expr.tidy_column _)
      | setOp rel kind left right =>
        have onLeft := (ih (.select left) (by simp [Part.parts])).2 left rfl
        have onRight := (ih (.select right) (by simp [Part.parts])).2 right rfl
        rw [Expr.foldColumns]
        exact onLeft.bind fun left hl => onRight.bind fun right hr =>
          .pure (Expr.tidy_setOp.mpr ⟨hl, hr⟩)
      | _ =>
        rw [Expr.foldColumns.eq_3 _ (by simp) (by simp)]
        exact walked
    | select s =>
      have walked := Walker.Keeps.traverseSelect parts Part.lasting_namesOnce here
      refine ⟨?_, fun s' hs => Part.select.inj hs ▸ walked⟩
      change (ofState Replaced).Keeps (fun _ => True) Select.Tidy s.foldColumns
      rw [Select.foldColumns]
      exact walked.bind fun s hs => keeps_settle hs
    | projection p =>
      refine ⟨?_, by simp⟩
      change (ofState Replaced).Keeps (fun _ => True) Projection.Tidy p.foldColumns
      rw [Projection.foldColumns]
      exact Walker.Keeps.traverseProjection parts Part.lasting_namesOnce here

end RepeatedColumns

theorem Expr.Tidy.dropRepeatedColumns {e : Expr} (h : e.Tidy) : e.dropRepeatedColumns.Tidy :=
  Outcomes.Keeps.result (RepeatedColumns.keeps_tidy h) trivial

namespace UsedColumns

def walker : Walker Walk := ⟨Expr.keepUsed, Select.keepUsed, Projection.keepUsed⟩

theorem keeps_tidy {p : Part} (h : p.Tidy) :
    walker.Keeps (ofState State) (fun _ => True) Part.NamesOnce p := by
  refine .of_steps (fun p here parts => ?_) h
  cases p with
  | expr e =>
    change (ofState State).Keeps (fun _ => True) Expr.Tidy e.keepUsed
    have walked := Walker.Keeps.traverse parts Part.lasting_namesOnce here
    cases e with
    | join kind left right on =>
      have onCondition := Outcomes.Keeps.option (o := on) fun c hc =>
        parts (.expr c) (by simp [Part.parts, Option.mem_def.mp hc])
      have onRight := parts (.expr right) (by simp [Part.parts])
      have onLeft := parts (.expr left) (by simp [Part.parts])
      rw [Expr.keepUsed]
      exact onCondition.bind fun on hon => Outcomes.Keeps.bind onRight fun right hr =>
        Outcomes.Keeps.bind onLeft fun left hl => .pure (Expr.tidy_join.mpr ⟨hl, hr, hon⟩)
    | clientJoin p outer inner =>
      have onInner := Outcomes.Keeps.all (l := inner) fun k hk => parts (.expr k) (by simp [Part.parts, hk])
      have onOuter := Outcomes.Keeps.all (l := outer) fun k hk => parts (.expr k) (by simp [Part.parts, hk])
      have onProjection := parts (.projection p) (by simp [Part.parts])
      rw [Expr.keepUsed]
      exact onInner.bind fun inner hi => onOuter.bind fun outer ho =>
        Outcomes.Keeps.bind onProjection fun p hp => .pure (Expr.tidy_clientJoin.mpr ⟨ho, hp, hi⟩)
    | setOp rel kind left right =>
      have onLeft := parts (.select left) (by simp [Part.parts])
      have onRight := parts (.select right) (by simp [Part.parts])
      rw [Expr.keepUsed]
      exact Outcomes.Keeps.anything.bind fun _ _ => Outcomes.Keeps.bind onLeft fun left hl =>
        Outcomes.Keeps.bind onRight fun right hr => Outcomes.Keeps.anything.bind fun _ _ =>
          .pure (Expr.tidy_setOp.mpr ⟨hl, hr⟩)
    | _ =>
      rw [Expr.keepUsed.eq_4 _ (by simp) (by simp) (by simp)]
      exact Outcomes.Keeps.anything.bind fun _ _ => walked
  | select s =>
    change (ofState State).Keeps (fun _ => True) Select.Tidy s.keepUsed
    rintro state _ _ - run
    have known := Select.keepUsed_run s state
    have inside := Select.parts_keeping (state.kept s) s
    have walked : (ofState State).Keeps (fun _ => True)
        (fun s' => (s.keeping (state.kept s)).Shaped (fun _ c => c.Tidy) s') _ :=
      (s.keeping (state.kept s)).keepClauses_walks ((ofState State).keeping fun _ => True)
        (V := Part.expr) (U := Part.expr) (Q := fun _ _ c => c.Tidy)
        (fun e he => parts (.expr e) (inside (List.mem_map_of_mem
          ((Select.readers_perm _).subset (List.mem_append_left _ he)))))
        fun e he => parts (.expr e) (inside (List.mem_map_of_mem
          ((Select.readers_perm _).subset (List.mem_append_right _ (Option.mem_toList.mpr he)))))
    obtain ⟨shaped, -⟩ := walked _ _ _ trivial rfl
    have names : (s.keeping (state.kept s)).columnNames.Nodup := here.sublist (List.filter_sublist.map _)
    obtain ⟨rfl, -⟩ := Prod.mk.inj (run.symm.trans known)
    exact ⟨shaped.every (Part.lasting_namesOnce.select shaped names), trivial⟩
  | projection p =>
    change (ofState State).Keeps (fun _ => True) Projection.Tidy p.keepUsed
    rw [Projection.keepUsed]
    exact Outcomes.Keeps.bind (parts (.expr p.projector) Projection.projector_mem) fun projector hp =>
      Outcomes.Keeps.bind (parts (.select p.select) Projection.select_mem) fun select hs =>
        .pure (Projection.tidy_iff.mpr ⟨hs, hp⟩)

end UsedColumns

theorem Expr.Tidy.dropUnusedColumns {e : Expr} (h : e.Tidy) : e.dropUnusedColumns.Tidy :=
  Outcomes.Keeps.result (UsedColumns.keeps_tidy h) trivial

end ObjectQuery
