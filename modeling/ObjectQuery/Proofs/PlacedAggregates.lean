import ObjectQuery.Proofs.GroupColumns
import ObjectQuery.Proofs.JoinFamilies

/-!
What is left of the aggregates of groups. Every one of them is read from the column that computes it, or
is computed by a subquery; the columns themselves are placed as they were asked for. So where no
aggregate of a group is computed from another one, none is left.
-/

namespace ObjectQuery

def Part.nodes (p : Part) : List Part := p.gather (fun q => [q]) fun _ => true

theorem Part.every_iff_nodes {P : Part → Prop} {p : Part} : p.Every P ↔ ∀ q ∈ p.nodes, P q := by
  constructor
  · intro h
    exact Every.of_mem_gather (h.mono fun q hq a ha => List.mem_singleton.mp ha ▸ hq)
  · intro h
    exact (every_of_gather p h).mono fun q hq => hq q (List.mem_singleton_self q)

namespace GroupColumns

open Outcomes

def Placed (cs : List Candidate) (p : Part) : Prop :=
  p.Groupless ∨ ∃ c ∈ cs, p ∈ (Part.expr c.aggregate).nodes

variable {cs : List Candidate}

theorem placed_candidate {c : Candidate} (hc : c ∈ cs) : (Part.expr c.aggregate).Every (Placed cs) :=
  Part.every_iff_nodes.mpr fun _ hq => .inr ⟨c, hc, hq⟩

/-- A select keeps its clauses and gets columns for aggregates that waited for it. -/
theorem keeps_settled {s : Select Expr} (h : (Part.select s).Every (Placed cs)) :
    (ofState State).Keeps (fun state => state.waiting ⊆ cs)
      (fun s' => (Part.select s').Every (Placed cs)) (settle s) := by
  rw [settle]
  refine (keeps_get fun _ => id).bind fun state waiting => ?_
  simp only [List.partition_eq_filter_filter, foldl_place]
  have others : state.waiting.filter (not ∘ fun c => c.owner == s.rel) ⊆ cs := fun c hc =>
    waiting (List.mem_of_mem_filter hc)
  refine Keeps.bind (keeps_set (I := fun state : State => state.waiting ⊆ cs) others) fun _ _ =>
    .pure (.node (.inl trivial) fun q hq => ?_)
  obtain ⟨e, he, rfl⟩ := List.mem_map.mp hq
  simp only [Select.exprs, List.map_append, List.mem_append] at he
  rcases he with he | he | he
  · exact h.part (List.mem_map_of_mem (by simp only [Select.exprs, List.mem_append]; exact .inl he))
  · exact h.part (List.mem_map_of_mem (by simp only [Select.exprs, List.mem_append]; exact .inr he))
  · obtain ⟨d, hd, rfl⟩ := List.mem_map.mp he
    obtain ⟨⟨c, d⟩, placed, rfl⟩ := List.mem_map.mp hd
    rw [expr_of_mem_placements placed]
    exact placed_candidate (waiting (List.mem_of_mem_filter (of_mem_placements placed)))

variable (cs) in
/-- A walk leaves an aggregate of a group only in the aggregates that it places. -/
theorem keeps_placed (p : Part) :
    walker.Keeps (ofState State) (fun state => state.waiting ⊆ cs) (Placed cs) p := by
  refine .of_steps (fun p _ parts => ?_) p.every_trivial
  cases p with
  | expr e =>
    change (ofState State).Keeps _ (fun e' => (Part.expr e').Every (Placed cs)) e.groupColumns
    cases e with
    | groupAggregate n owner inGroup fallback =>
      have fallen := parts (.select fallback) (by simp [Part.parts])
      rw [Expr.groupColumns]
      refine (keeps_get (R := fun _ => True) fun _ _ => trivial).bind fun state _ => ?_
      split
      · exact .pure (Part.every_column (.inl trivial))
      · refine Keeps.bind fallen fun s hs => .pure (.node (.inl trivial) fun q hq => ?_)
        obtain rfl := List.mem_singleton.mp hq
        exact hs
    | _ =>
      rw [Expr.groupColumns.eq_2 _ (by simp)]
      refine (Walker.Keeps.shaped parts).mono fun e' shaped => shaped.every (.inl ?_)
      cases shaped
      exact trivial
  | select s =>
    change (ofState State).Keeps _ (fun s' => (Part.select s').Every (Placed cs)) s.groupColumns
    rw [Select.groupColumns]
    exact (Walker.Keeps.shapedSelect parts).bind fun s' shaped => keeps_settled (shaped.every (.inl trivial))
  | projection p =>
    change (ofState State).Keeps _ (fun p' => (Part.projection p').Every (Placed cs)) p.groupColumns
    rw [Projection.groupColumns]
    exact (Walker.Keeps.shapedProjection parts).mono fun _ shaped => shaped.every (.inl trivial)

end GroupColumns

open GroupColumns

theorem GroupColumns.candidates_eq_nil {e : Expr} : candidates e = [] ↔ (Part.expr e).Every Part.Groupless := by
  have grows : ∀ (found cs : List Candidate), found ≠ [] → cs.foldl addCandidate found ≠ [] := by
    intro found cs
    induction cs generalizing found with
    | nil => exact id
    | cons c rest ih =>
      refine fun some => ih _ ?_
      rw [addCandidate]
      split
      exacts [some, by simp]
  have empty : candidates e = [] ↔ (Part.expr e).gather requests (fun _ => true) = [] := by
    rw [candidates_eq]
    cases (Part.expr e).gather requests fun _ => true with
    | nil => simp
    | cons c rest => simpa using grows _ rest (by simp [addCandidate])
  rw [empty, List.eq_nil_iff_forall_not_mem]
  constructor
  · intro none
    refine (Part.every_of_gather (D := fun _ => False) (.expr e) none).mono fun q asks => ?_
    unfold Part.Groupless
    split
    · exact asks _ (List.mem_singleton_self _)
    · trivial
  · intro groupless
    refine Part.Every.of_mem_gather (D := fun _ => False) (groupless.mono fun q here a ha => ?_)
    rw [requests_of_groupless here] at ha
    cases ha

/-- An aggregate of a group is left only where it stands in an aggregate that became a column. -/
theorem Expr.placed_withGroupColumns (e : Expr) :
    (Part.expr e.withGroupColumns).Every (Placed (candidates e)) :=
  (keeps_placed (candidates e) (.expr e)).result (List.Subset.refl _)

/-- Where no aggregate of a group is computed from another one, none is left. -/
theorem Expr.groupless_withGroupColumns {e : Expr}
    (h : ∀ c ∈ candidates e, (Part.expr c.aggregate).Every Part.Groupless) :
    (Part.expr e.withGroupColumns).Every Part.Groupless := by
  refine e.placed_withGroupColumns.mono fun q hq => ?_
  rcases hq with groupless | ⟨c, hc, hq⟩
  · exact groupless
  · exact Part.every_iff_nodes.mp (h c hc) q hq

namespace Sample

def countIn (n : Nat) (owner rel : Alias) : Expr :=
  .groupAggregate n owner (.aggregate .count none false)
    (.plain rel [.of "value" (.aggregate .count none false)] none none)

def totalOfCounts : Expr :=
  .groupAggregate 2 ⟨2⟩ (.aggregate .sum (some (countIn 1 ⟨3⟩ ⟨4⟩)) false)
    (.plain ⟨5⟩ [.of "value" (.aggregate .sum (some (countIn 1 ⟨3⟩ ⟨4⟩)) false)] none none)

def groupsOfGroups : Expr :=
  .projection ⟨.plain ⟨1⟩ [.of "c0" totalOfCounts]
    (some (.select (.plain ⟨2⟩ [] (some (.select (.plain ⟨3⟩ [] none none))) none))) none,
    .column ⟨⟨1⟩, "c0", .int⟩, none⟩

/-- The sum becomes a column as it was asked for, with the count in it. -/
theorem count_left : ¬ (Part.expr groupsOfGroups.withGroupColumns).Every Part.Groupless := by
  rw [← candidates_eq_nil, ← List.isEmpty_iff]
  decide +kernel

end Sample

end ObjectQuery
