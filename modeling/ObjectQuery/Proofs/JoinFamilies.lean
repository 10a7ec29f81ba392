import ObjectQuery.Proofs.RecordCopies
import ObjectQuery.Proofs.TidyRewrites

/-!
Cross joins apart from the other joins. A join directly under a join of the other family is put into a
select of its own, so that no join stands there in the tree that comes out.
-/

namespace ObjectQuery

def Expr.Mixes (parent : JoinKind) : Expr → Prop
  | .join kind .. => (kind == .cross) ≠ (parent == .cross)
  | _ => False

def Part.Unmixed : Part → Prop
  | .expr (.join kind left right _) => ¬ left.Mixes kind ∧ ¬ right.Mixes kind
  | _ => True

namespace CrossJoins

open Outcomes

variable {read : List Column} {parent : Option JoinKind}

def Under (parent : Option JoinKind) (e : Expr) : Prop :=
  (Part.expr e).Every Part.Unmixed ∧ ∀ k ∈ parent, ¬ e.Mixes k

theorem column_of_mem_exports (rel : Alias) (read : List Column) (columns : List (ColumnDecl Expr)) :
    ∀ d ∈ (exports rel read columns).1, d ∈ columns ∨ ∃ c, d.expr = .column c := by
  induction read generalizing columns with
  | nil => exact fun d hd => .inl hd
  | cons c rest ih =>
    intro d hd
    rcases ih _ d hd with hd | column
    · rcases List.mem_append.mp hd with hd | hd
      · exact .inl hd
      · rw [List.mem_singleton.mp hd]
        exact .inr ⟨c, rfl⟩
    · exact .inr column

/-- A select stands between the joins. -/
theorem keeps_isolated {source : Expr} (h : (Part.expr source).Every Part.Unmixed) :
    (ofState State).Keeps (fun _ => True) (Under parent) (isolate read source) := by
  rintro state _ _ - ⟨⟩
  refine ⟨⟨.node trivial fun q hq => ?_, fun _ _ => id⟩, trivial⟩
  obtain rfl := List.mem_singleton.mp hq
  refine Part.every_plain trivial h (by simp) fun d hd => ?_
  rcases column_of_mem_exports _ _ _ d hd with hd | ⟨c, eq⟩
  · cases hd
  · rw [eq]
    exact Part.every_column trivial

theorem keeps_joined {kind : JoinKind} {left right : Expr} {on : Option Expr} (hl : Under (some kind) left)
    (hr : Under (some kind) right) (hon : ∀ c ∈ on, (Part.expr c).Every Part.Unmixed) :
    (ofState State).Keeps (fun _ => True) (Under parent)
      (if parent.any fun p => (kind == .cross) != (p == .cross) then isolate read (.join kind left right on)
        else return .join kind left right on) := by
  have join : (Part.expr (.join kind left right on)).Every Part.Unmixed := by
    refine .node ⟨hl.2 kind rfl, hr.2 kind rfl⟩ fun q hq => ?_
    simp only [Part.parts, List.mem_cons, List.mem_map, Option.mem_toList] at hq
    rcases hq with rfl | rfl | ⟨c, hc, rfl⟩
    · exact hl.1
    · exact hr.1
    · exact hon c hc
  split
  · exact keeps_isolated join
  · rename_i alike
    refine .pure ⟨join, fun k hk mixes => alike ?_⟩
    simpa [Option.mem_def.mp hk, Expr.Mixes] using mixes

variable (read) in
/-- A walk leaves no join directly under a join of the other family. -/
theorem keeps_apart (p : Part) (parent : Option JoinKind) :
    (walker read parent).Keeps (ofState State) (fun _ => True) Part.Unmixed p
      ∧ ∀ e, p = .expr e →
        (ofState State).Keeps (fun _ => True) (Under parent) (e.isolateJoins read parent) := by
  induction p.every_trivial generalizing parent with
  | @node p _ _ ih =>
    have parts : ∀ q ∈ p.parts, ∀ parent, (walker read parent).Keeps (ofState State) (fun _ => True)
      Part.Unmixed q := fun q hq parent => (ih q hq parent).1
    cases p with
    | expr e =>
      -- what an operand must not be depends on the join around it, so the walk is followed for every `parent`
      suffices under : (ofState State).Keeps (fun _ => True) (Under parent) (e.isolateJoins read parent) from
        ⟨under.mono fun _ h => h.1, by rintro _ ⟨⟩; exact under⟩
      have walked := Walker.Keeps.shaped fun q hq => parts q hq parent
      cases e with
      | column c =>
        rw [Expr.isolateJoins]
        exact Keeps.anything.bind fun _ _ => .pure ⟨Part.every_column trivial, fun _ _ => id⟩
      | join kind left right on =>
        have onCondition := Keeps.option (o := on) fun c hc =>
          parts (.expr c) (by simp [Part.parts, Option.mem_def.mp hc]) (some kind)
        rw [Expr.isolateJoins]
        refine ((ih (.expr left) (by simp [Part.parts]) (some kind)).2 left rfl).bind fun left hl => ?_
        refine ((ih (.expr right) (by simp [Part.parts]) (some kind)).2 right rfl).bind fun right hr => ?_
        exact onCondition.bind fun on hon => keeps_joined hl hr hon
      | _ =>
        rw [Expr.isolateJoins.eq_3 _ _ _ (by simp) (by simp)]
        refine walked.mono fun e' shaped => ?_
        have single : Part.Unmixed (.expr e') ∧ ∀ k, ¬ e'.Mixes k := by
          cases shaped
          exact ⟨trivial, fun _ => id⟩
        exact ⟨shaped.every single.1, fun k _ => single.2 k⟩
    | select s =>
      refine ⟨?_, by simp⟩
      change (ofState State).Keeps (fun _ => True) (fun s' => (Part.select s').Every Part.Unmixed)
        (s.isolateJoins read)
      rw [Select.isolateJoins]
      exact (Walker.Keeps.shapedSelect fun q hq => parts q hq none).mono fun _ shaped => shaped.every trivial
    | projection p =>
      refine ⟨?_, by simp⟩
      change (ofState State).Keeps (fun _ => True) (fun p' => (Part.projection p').Every Part.Unmixed)
        (p.isolateJoins read parent)
      rw [Projection.isolateJoins]
      exact (Walker.Keeps.shapedProjection fun q hq => parts q hq parent).mono fun _ shaped =>
        shaped.every trivial

end CrossJoins

/-- Where the cross joins of a tree are isolated, no join stands directly under one of the other family. -/
theorem Expr.unmixed_withCrossJoinsIsolated (e : Expr) (supply : Supply) :
    (Part.expr (e.withCrossJoinsIsolated.run supply).1).Every Part.Unmixed :=
  (CrossJoins.keeps_apart e.columns (.expr e) none).1.result trivial

end ObjectQuery
