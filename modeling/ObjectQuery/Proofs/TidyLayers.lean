import ObjectQuery.Proofs.Tidiness
import ObjectQuery.Rewrite.Layers

/-!
Collapsing layers keeps a tree tidy. What a removed select forwards is read from its source, in place of
its columns; a select that takes over the clauses of the one below keeps its own columns.
-/

namespace ObjectQuery

open Outcomes (ofState ofId)

namespace Layers

variable {removed : List (Select Expr)}

theorem tidy_removedColumn? (tidy : ∀ s ∈ removed, s.Tidy) {c : Column} :
    ∀ e ∈ removedColumn? removed c, e.Tidy := by
  intro e he
  simp only [removedColumn?, Option.mem_def, Option.bind_eq_bind, Option.bind_eq_some_iff,
    Option.pure_def, Option.some.injEq] at he
  obtain ⟨s, hs, d, hd, rfl⟩ := he
  have clauses := (tidy s (by simpa using List.mem_of_find?_eq_some hs)).clauses
  exact clauses.columns.exprs d (by simpa using List.mem_of_find?_eq_some hd)

theorem tidy_resolve (tidy : ∀ s ∈ removed, s.Tidy) (steps : Nat) (c : Column) :
    (resolve removed steps c).Tidy := by
  induction steps generalizing c with
  | zero => exact Expr.tidy_column c
  | succ steps ih =>
    rw [resolve]
    split
    · exact ih _
    · rename_i e _ found
      exact tidy_removedColumn? tidy e found
    · exact Expr.tidy_column c

def splicing (removed : List (Select Expr)) : Walker Id :=
  ⟨fun e => pure (e.splice removed), fun s => pure (s.splice removed), fun p => pure (p.splice removed)⟩

def SplicesTidy (removed : List (Select Expr)) : Part → Prop
  | .expr e => (e.splice removed).Tidy
  | .select s => (s.splice removed).Tidy ∧ ∀ e ∈ s.source, (e.splice removed).Tidy
  | .projection p => (p.splice removed).Tidy

theorem SplicesTidy.keeps {p : Part} (h : SplicesTidy removed p) :
    (splicing removed).Keeps ofId (fun _ => True) Part.NamesOnce p := by
  cases p with
  | expr e => exact .pure h
  | select s => exact .pure h.1
  | projection p => exact .pure h

theorem splicesTidy (tidy : ∀ s ∈ removed, s.Tidy) {p : Part} (h : p.Tidy) : SplicesTidy removed p := by
  induction h with
  | @node p here parts ih =>
    have walks := fun q hq => (ih q hq).keeps
    cases p with
    | expr e =>
      have walked := Walker.Keeps.traverse walks Part.lasting_namesOnce here
      rw [SplicesTidy]
      cases e with
      | column c =>
        rw [Expr.splice]
        exact tidy_resolve tidy _ c
      | select s =>
        have under := ih (.select s) (by simp [Part.parts])
        rw [Expr.splice]
        split
        · split
          · rename_i source found
            exact under.2 source found
          · exact Expr.tidy_select.mpr (parts (.select s) (by simp [Part.parts]))
        · exact Expr.tidy_select.mpr under.1
      | _ =>
        rw [Expr.splice.eq_3 _ _ (by simp) (by simp)]
        exact walked.value
    | select s =>
      have walked := Walker.Keeps.traverseSelect walks Part.lasting_namesOnce here
      refine ⟨?_, fun e he => ih (.expr e) (Select.source_mem he)⟩
      rw [Select.splice]
      exact walked.value
    | projection p =>
      have walked := Walker.Keeps.traverseProjection walks Part.lasting_namesOnce here
      rw [SplicesTidy, Projection.splice]
      exact walked.value

theorem tidy_redundant {e : Expr} (h : e.Tidy) : ∀ s ∈ redundant e, s.Tidy := by
  fun_induction redundant e with
  | case1 s _ => simpa using h
  | case2 => simp
  | case3 kind left right on ihLeft ihRight =>
    obtain ⟨hl, hr, -⟩ := Expr.tidy_join.mp h
    intro s hs
    rcases List.mem_append.mp hs with hs | hs
    exacts [ihLeft hl s hs, ihRight hr s hs]
  | case4 => simp

theorem tidy_removeBelow {s : Select Expr} (h : s.Tidy) : (removeBelow s).Tidy := by
  have below : ∀ t ∈ (s.source.map redundant).getD [], t.Tidy := by
    cases hs : s.source with
    | none => simp
    | some source => exact tidy_redundant (h.clauses.source source hs)
  unfold removeBelow
  split
  · exact h
  · rename_i found
    exact (splicesTidy below h).1

theorem tidy_removeTop {p : Projection Expr} (h : p.Tidy) : (removeTop p).Tidy := by
  obtain ⟨select, projector⟩ := Projection.tidy_iff.mp h
  unfold removeTop
  split
  · rename_i below source
    split
    · have removed : ∀ s ∈ [p.select], s.Tidy := by simpa using select
      have tidyBelow := Expr.tidy_select.mp (select.clauses.source _ source)
      exact Projection.tidy_iff.mpr ⟨(splicesTidy removed tidyBelow).1, splicesTidy removed projector⟩
    · exact h
  · exact h

def removing : Walker Id :=
  ⟨fun e => pure e.removeLayers, fun s => pure s.removeLayers, fun p => pure p.removeLayers⟩

def RemovesTidy : Part → Prop
  | .expr e => e.removeLayers.Tidy
  | .select s => s.removeLayers.Tidy
  | .projection p => p.removeLayers.Tidy ∧ p.select.removeLayers.Tidy ∧ p.projector.removeLayers.Tidy

theorem RemovesTidy.keeps {p : Part} (h : RemovesTidy p) :
    removing.Keeps ofId (fun _ => True) Part.NamesOnce p := by
  cases p with
  | expr e => exact .pure h
  | select s => exact .pure h
  | projection p => exact .pure h.1

theorem removesTidy {p : Part} (h : p.Tidy) : RemovesTidy p := by
  induction h with
  | @node p here parts ih =>
    have walks := fun q hq => (ih q hq).keeps
    cases p with
    | expr e =>
      have walked := Walker.Keeps.traverse walks Part.lasting_namesOnce here
      rw [RemovesTidy]
      by_cases joined : ∃ p outer inner, e = .clientJoin p outer inner
      · obtain ⟨p, outer, inner, rfl⟩ := joined
        obtain ⟨-, select, projector⟩ := ih (.projection p) (by simp [Part.parts])
        rw [Expr.removeLayers]
        refine Expr.tidy_clientJoin.mpr ⟨fun k hk => ?_, Projection.tidy_iff.mpr ⟨select, projector⟩,
          fun k hk => parts (.expr k) (by simp [Part.parts, hk])⟩
        obtain ⟨⟨k, given⟩, -, rfl⟩ := List.mem_map.mp hk
        exact ih (.expr k) (by simp [Part.parts, given])
      · rw [Expr.removeLayers.eq_2 e fun p outer inner he => joined ⟨p, outer, inner, he⟩]
        exact walked.value
    | select s =>
      have walked := Walker.Keeps.traverseSelect walks Part.lasting_namesOnce here
      rw [RemovesTidy, Select.removeLayers]
      exact tidy_removeBelow walked.value
    | projection p =>
      have walked := Walker.Keeps.traverseProjection walks Part.lasting_namesOnce here
      refine ⟨?_, ih (.select p.select) Projection.select_mem, ih (.expr p.projector) Projection.projector_mem⟩
      rw [Projection.removeLayers]
      exact tidy_removeTop walked.value

theorem tidy_leftmost? {e : Expr} (h : e.Tidy) : ∀ s ∈ leftmost? e, s.Tidy := by
  fun_induction leftmost? e with
  | case1 s => simpa using h
  | case2 kind left right on ih => exact ih (Expr.tidy_join.mp h).1
  | case3 => simp

theorem tidy_merge {s below : Select Expr} (hs : s.Tidy) (hb : below.Tidy) : (merge s below).Tidy := by
  have removed : ∀ s ∈ [below], Select.Tidy s := by simpa using hb
  have merged := (splicesTidy removed hs).1.clauses
  have clauses := hb.clauses
  refine Select.TidyClauses.tidy { merged with filter := ?_, orderBy := ?_, groupBy := ?_, skip := ?_, take := ?_ }
  · refine Expr.tidy_conjoin? fun e he => ?_
    rcases List.mem_append.mp he with he | he
    exacts [clauses.filter e (Option.mem_toList.mp he), merged.filter e (Option.mem_toList.mp he)]
  · simp only [merge]
    split
    exacts [clauses.orderBy, merged.orderBy]
  · simp only [merge]
    split
    exacts [clauses.groupBy, merged.groupBy]
  · intro e he
    rcases Option.or_eq_some_iff.mp he with he | ⟨-, he⟩
    exacts [merged.skip e he, clauses.skip e he]
  · intro e he
    rcases Option.or_eq_some_iff.mp he with he | ⟨-, he⟩
    exacts [merged.take e he, clauses.take e he]

theorem tidy_mergeAll (outermost : Bool) (n : Nat) {s : Select Expr} (h : s.Tidy) :
    (mergeAll outermost n s).Tidy := by
  induction n generalizing s with
  | zero => exact h
  | succ n ih =>
    rw [mergeAll]
    split
    · exact h
    · rename_i below found
      obtain ⟨source, hs, left⟩ := Option.bind_eq_some_iff.mp found
      have merged := tidy_merge h (tidy_leftmost? (h.clauses.source source hs) below left)
      split
      · simp only
        split
        exacts [h, ih merged]
      · exact h

def merging : Walker (StateM Bool) := ⟨Expr.mergeLayers, Select.mergeLayers, Projection.mergeLayers⟩

theorem merging_keeps {p : Part} (h : p.Tidy) :
    merging.Keeps (ofState Bool) (fun _ => True) Part.NamesOnce p := by
  refine .of_steps (fun p here parts => ?_) h
  cases p with
  | expr e =>
    change (ofState Bool).Keeps (fun _ => True) Expr.Tidy e.mergeLayers
    rw [Expr.mergeLayers]
    exact Walker.Keeps.traverse parts Part.lasting_namesOnce here
  | select s =>
    change (ofState Bool).Keeps (fun _ => True) Select.Tidy s.mergeLayers
    rw [Select.mergeLayers]
    exact Outcomes.Keeps.anything.bind fun outermost _ =>
      (Walker.Keeps.traverseSelect parts Part.lasting_namesOnce here).bind fun s hs =>
        .pure (tidy_mergeAll outermost _ hs)
  | projection p =>
    change (ofState Bool).Keeps (fun _ => True) Projection.Tidy p.mergeLayers
    rw [Projection.mergeLayers]
    exact Walker.Keeps.traverseProjection parts Part.lasting_namesOnce here

end Layers

theorem Expr.Tidy.collapseLayers {e : Expr} (h : e.Tidy) : e.collapseLayers.Tidy :=
  Outcomes.Keeps.result (Layers.merging_keeps (p := .expr e.removeLayers) (Layers.removesTidy h)) trivial

end ObjectQuery
