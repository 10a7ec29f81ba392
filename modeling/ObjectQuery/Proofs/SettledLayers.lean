import Mathlib.Algebra.GroupWithZero.Nat
import Mathlib.Logic.Function.Iterate
import Mathlib.Order.Basic
import Mathlib.Order.Nat
import ObjectQuery.Proofs.TidyLayers

/-!
Collapsing layers comes to an end. A run that changes a tree leaves fewer selects in it: what is spliced
out stood for one select, and what is read in place of its columns holds none. So a tree is settled after
at most as many runs as it has selects.
-/

namespace ObjectQuery

open Outcomes

namespace Part

def selectCount (p : Part) : Nat := p.selects.length

def countsHere : Part → Nat
  | .select _ => 1
  | _ => 0

theorem selectCount_eq (p : Part) : p.selectCount = p.countsHere + (p.parts.map selectCount).sum := by
  unfold selectCount selects
  rw [gather_eq, List.length_append, List.length_flatMap]
  cases p <;> rfl

def selectsIn (es : List Expr) : Nat := (es.map fun e => (expr e).selectCount).sum

@[simp] theorem selectsIn_nil : selectsIn [] = 0 := rfl

@[simp] theorem selectsIn_cons (e : Expr) (es : List Expr) :
    selectsIn (e :: es) = (expr e).selectCount + selectsIn es := by
  simp [selectsIn]

@[simp] theorem selectsIn_append (es es' : List Expr) :
    selectsIn (es ++ es') = selectsIn es + selectsIn es' := by
  simp [selectsIn]

theorem selectCount_expr (e : Expr) : (expr e).selectCount = ((expr e).parts.map selectCount).sum := by
  rw [selectCount_eq]
  exact Nat.zero_add _

theorem selectCount_select (s : Select Expr) : (select s).selectCount = 1 + selectsIn s.exprs := by
  rw [selectCount_eq, countsHere, parts, List.map_map]
  rfl

theorem selectCount_projection (p : Projection Expr) :
    (projection p).selectCount = (select p.select).selectCount + (expr p.projector).selectCount := by
  rw [selectCount_eq]
  simp [parts, countsHere]

@[simp] theorem selectCount_exprSelect (s : Select Expr) :
    (expr (.select s)).selectCount = (select s).selectCount := by
  rw [selectCount_expr]
  simp [parts]

theorem selectCount_source {s : Select Expr} {e : Expr} (h : e ∈ s.source) :
    (expr e).selectCount < (select s).selectCount := by
  rw [selectCount_select, Select.exprs, Option.mem_def.mp h]
  simp only [Option.toList_some, selectsIn_append, selectsIn_cons, selectsIn_nil]
  omega

theorem selectCount_join (kind : JoinKind) (left right : Expr) (on : Option Expr) :
    (expr (.join kind left right on)).selectCount
      = (expr left).selectCount + ((expr right).selectCount + selectsIn on.toList) := by
  rw [selectCount_expr]
  simp [parts, selectsIn, Function.comp_def]

def Shrinks (p p' : Part) : Prop := p'.selectCount < p.selectCount ∨ p' = p

theorem Shrinks.trans {p p' p'' : Part} (h : p.Shrinks p') (h' : p'.Shrinks p'') : p.Shrinks p'' := by
  rcases h with h | rfl
  · rcases h' with h' | rfl
    · exact .inl (h'.trans h)
    · exact .inl h
  · exact h'

theorem Shrinks.count_le {p p' : Part} (h : p.Shrinks p') : p'.selectCount ≤ p.selectCount := by
  rcases h with h | rfl
  · exact h.le
  · exact le_rfl

theorem shrinks_list {ps ps' : List Part} (h : List.Forall₂ Shrinks ps ps') :
    (ps'.map selectCount).sum < (ps.map selectCount).sum ∨ ps' = ps := by
  induction h with
  | nil => exact .inr rfl
  | cons head rest ih =>
    have least := head.count_le
    simp only [List.map_cons, List.sum_cons]
    rcases ih with ih | rfl
    · exact .inl (by omega)
    · rcases head with head | rfl
      · exact .inl (by omega)
      · exact .inr rfl

end Part

abbrev Expr.Shrinks (e e' : Expr) : Prop := (Part.expr e).Shrinks (.expr e')

abbrev Select.Shrinks (s s' : Select Expr) : Prop := (Part.select s).Shrinks (.select s')

abbrev Projection.Shrinks (p p' : Projection Expr) : Prop := (Part.projection p).Shrinks (.projection p')

/-- Lists of the same names over the same expressions are the same. -/
theorem eq_of_map_eq {α β γ : Type} {f : α → β} {g : α → γ}
    (inj : ∀ a a', f a = f a' → g a' = g a → a' = a) {l l' : List α}
    (names : List.Forall₂ (fun a a' => f a = f a') l l') (same : l'.map g = l.map g) : l' = l := by
  induction names with
  | nil => rfl
  | cons head _ ih =>
    simp only [List.map_cons, List.cons.injEq] at same
    rw [inj _ _ head same.1, ih same.2]

theorem Expr.Shaped.eq_of_parts {Q : Expr → Expr → Prop} {QS : Select Expr → Select Expr → Prop}
    {QP : Projection Expr → Projection Expr → Prop} {e e' : Expr} (h : e.Shaped Q QS QP e')
    (noCommand : ∀ c, e ≠ .command c) (same : (Part.expr e').parts = (Part.expr e).parts) : e' = e := by
  have inj : Function.Injective Part.expr := fun _ _ h => Part.expr.inj h
  cases h with
  | command _ => exact absurd rfl (noCommand _)
  | call _ _ => rw [inj.list_map same]
  | construct _ h =>
    simp only [Part.parts] at same
    refine congrArg _ (eq_of_map_eq ?_ (h.imp fun _ _ h => h.1) same)
    rintro ⟨_, _⟩ ⟨_, _⟩ ⟨⟩ ⟨⟩
    rfl
  | rowNumber h =>
    simp only [Part.parts] at same
    refine congrArg _ (eq_of_map_eq ?_ (h.imp fun _ _ h => h.1) same)
    rintro ⟨_, _⟩ ⟨_, _⟩ ⟨⟩ ⟨⟩
    rfl
  | join _ _ _ on => cases on <;> simp_all [Part.parts]
  | aggregate _ _ h => cases h <;> simp_all [Part.parts]
  | inValues _ h =>
    simp only [Part.parts, List.cons.injEq, Part.expr.injEq] at same
    rw [same.1, inj.list_map same.2]
  | clientJoin _ outer _ =>
    simp only [Part.parts] at same
    obtain ⟨keys, rest⟩ := List.append_inj same (by simp [outer.length_eq])
    simp only [List.cons.injEq, Part.projection.injEq] at rest
    rw [inj.list_map keys, rest.1, inj.list_map rest.2]
  | _ => simp_all [Part.parts]

theorem eq_of_toList {α : Type} {a b : Option α} (h : a.toList = b.toList) : a = b := by
  cases a <;> cases b <;> simp_all

theorem Select.Shaped.eq_of_exprs {Q : Expr → Expr → Prop} {s s' : Select Expr} (h : s.Shaped Q s')
    (same : s'.exprs = s.exprs) : s' = s := by
  obtain ⟨same, columns⟩ := List.append_inj' same (by simp [h.columns.length_eq])
  obtain ⟨same, take⟩ := List.append_inj' same (forall₂_toList h.take).length_eq.symm
  obtain ⟨same, skip⟩ := List.append_inj' same (forall₂_toList h.skip).length_eq.symm
  obtain ⟨same, groupBy⟩ := List.append_inj' same h.groupBy.length_eq.symm
  obtain ⟨same, orderBy⟩ := List.append_inj' same (by simp [h.orderBy.length_eq])
  obtain ⟨source, filter⟩ := List.append_inj' same (forall₂_toList h.filter).length_eq.symm
  have orders : s'.orderBy = s.orderBy := by
    refine eq_of_map_eq ?_ (h.orderBy.imp fun _ _ h => h.1) orderBy
    rintro ⟨_, _⟩ ⟨_, _⟩ ⟨⟩ ⟨⟩
    rfl
  have declared : s'.columns = s.columns := by
    refine eq_of_map_eq (f := fun d => (d.name, d.type)) ?_
      (h.columns.imp fun _ _ h => Prod.ext h.1 h.2.1) columns
    rintro ⟨_, _, _⟩ ⟨_, _, _⟩ ⟨⟩ ⟨⟩
    rfl
  cases s
  cases s'
  simp only [Select.mk.injEq]
  exact ⟨h.rel.symm, declared, eq_of_toList source, eq_of_toList filter, orders, groupBy, h.distinct.symm,
    eq_of_toList skip, eq_of_toList take, h.reversed.symm⟩

section Rebuilding

variable {m : Type → Type} [Monad m] [LawfulMonad m] {σ : Type} {O : Outcomes m σ}

/-- Assignments to the same columns. -/
theorem keeps_assignments (assignments : List (Assignment Expr))
    (f : (a : Assignment Expr) → a ∈ assignments → m Expr) :
    O.Keeps (fun _ => True)
      (fun l => l.length = assignments.length ∧ (l.map (·.expr) = assignments.map (·.expr) → l = assignments))
      (assignments.attach.mapM fun ⟨a, h⟩ => do return { a with expr := ← f a h }) := by
  have step : ∀ a (h : a ∈ assignments), O.Keeps (fun _ => True) (fun a' : Assignment Expr => a.column = a'.column)
      (do return { a with expr := ← f a h }) := fun _ _ => Keeps.anything.bind fun _ _ => .pure rfl
  have listed := Keeps.list step
  refine listed.mono fun l columns => ⟨columns.length_eq.symm, eq_of_map_eq ?_ columns⟩
  rintro ⟨_, _⟩ ⟨_, _⟩ ⟨⟩ ⟨⟩
  rfl

/-- Rebuilding a command changes nothing but its expressions. -/
theorem Command.traverse_rebuilds : (c : Command Expr) → (f : (e : Expr) → e ∈ c.exprs → m Expr) →
    O.Keeps (fun _ => True) (fun c' => c'.exprs.length = c.exprs.length ∧ (c'.exprs = c.exprs → c' = c))
      (c.traverse f)
  | .insert table assignments, f => by
    refine (keeps_assignments assignments fun a h => f a.expr (List.mem_map_of_mem h)).bind
      fun as has => .pure ⟨by simpa [exprs] using has.1, fun same => ?_⟩
    rw [has.2 same]
  | .update table filter assignments, f => by
    refine Keeps.anything.bind fun e _ =>
      (keeps_assignments assignments fun a h =>
        f a.expr (List.mem_cons_of_mem _ (List.mem_map_of_mem h))).bind fun as has =>
      .pure ⟨by simpa [exprs] using has.1, fun same => ?_⟩
    simp only [exprs, List.cons.injEq] at same
    rw [same.1, has.2 same.2]
  | .delete table filter, f => by
    have step : ∀ e (h : e ∈ filter), O.Keeps (fun _ => True) (fun _ => True) (f e (by simp_all [exprs])) :=
      fun _ _ => Keeps.anything
    have walked := (O.keeping fun _ => True).attachOption (V := id) (R := fun _ _ _ => True) step
    refine Keeps.bind walked fun o related => .pure ?_
    cases related with
    | none => simp [exprs]
    | some _ => simp +contextual [exprs]
  | .conditional check onTrue none, f => by
    rw [Command.traverse]
    refine Keeps.anything.bind fun e _ => (traverse_rebuilds onTrue _).bind fun c hc =>
      .pure ⟨by simpa [exprs] using hc.1, fun same => ?_⟩
    simp only [exprs, List.append_nil, List.cons.injEq] at same
    rw [same.1, hc.2 same.2]
  | .conditional check onTrue (some onFalse), f => by
    rw [Command.traverse]
    refine Keeps.anything.bind fun e _ => (traverse_rebuilds onTrue _).bind fun c hc =>
      (traverse_rebuilds onFalse _).bind fun d hd => .pure ⟨by simp [exprs, hc.1, hd.1], fun same => ?_⟩
    simp only [exprs, List.cons.injEq] at same
    obtain ⟨first, second⟩ := List.append_inj same.2 hc.1
    rw [same.1, hc.2 first, hd.2 second]
  | .batch item items operation, f => by
    have step : ∀ e (h : e ∈ items), O.Keeps (fun _ => True) (fun _ => True) (f e (List.mem_append_left _ h)) :=
      fun _ _ => Keeps.anything
    have walked := Keeps.list (R := fun _ _ => True) step
    refine walked.bind fun es hes => (traverse_rebuilds operation _).bind fun c hc =>
      .pure ⟨by simp [exprs, hc.1, hes.length_eq], fun same => ?_⟩
    obtain ⟨first, second⟩ := List.append_inj same hes.length_eq.symm
    rw [first, hc.2 second]

/-- Rebuilding a node changes nothing but its parts. -/
theorem Expr.traverse_rebuilds (e : Expr)
    (f : (c : Expr) → Part.expr c ∈ (Part.expr e).parts → m Expr)
    (g : (s : Select Expr) → Part.select s ∈ (Part.expr e).parts → m (Select Expr))
    (k : (p : Projection Expr) → Part.projection p ∈ (Part.expr e).parts → m (Projection Expr)) :
    O.Keeps (fun _ => True) (fun e' => (Part.expr e').parts = (Part.expr e).parts → e' = e)
      (e.traverse f g k) := by
  by_cases command : ∃ c, e = .command c
  · obtain ⟨c, rfl⟩ := command
    refine (Command.traverse_rebuilds c _).bind fun c' hc => ?_
    refine .pure fun same => congrArg _ (hc.2 ?_)
    exact (Function.Injective.list_map (fun _ _ h => Part.expr.inj h)) same
  · have shaped : O.Keeps (fun _ => True) (fun e' => e.Shaped (fun _ _ => True) (fun _ _ => True)
        (fun _ _ => True) e') (e.traverse f g k) :=
      @Sequence.expr _ _ _ _ (O.keeping fun _ => True) _ (fun _ _ _ => True) (fun _ _ _ => True)
        (fun _ _ _ => True) id e _ _ _ (fun _ _ => Keeps.anything) (fun _ _ => Keeps.anything)
        fun _ _ => Keeps.anything
    exact shaped.mono fun e' shaped => shaped.eq_of_parts fun c hc => command ⟨c, hc⟩

end Rebuilding

namespace Walker

def Shrinks {m : Type → Type} [Monad m] {σ : Type} (W : Walker m) (O : Outcomes m σ) : Part → Prop
  | .expr e => O.Keeps (fun _ => True) e.Shrinks (W.expr e)
  | .select s => O.Keeps (fun _ => True) s.Shrinks (W.select s)
  | .projection p =>
    O.Keeps (fun _ => True) p.Shrinks (W.projection p)

variable {m : Type → Type} [Monad m] [LawfulMonad m] {σ : Type} {W : Walker m} {O : Outcomes m σ}

theorem shrinks_of_parts {p p' : Part} (here : p'.countsHere = p.countsHere)
    (parts : List.Forall₂ Part.Shrinks p.parts p'.parts) (same : p'.parts = p.parts → p' = p) :
    p.Shrinks p' := by
  have counted := p.selectCount_eq
  have counted' := p'.selectCount_eq
  rcases Part.shrinks_list parts with fewer | stays
  · exact .inl (by omega)
  · exact .inr (same stays)

theorem shrinks_of_matches {ps ps' : List Part}
    (h : List.Forall₂ (Part.Matches Expr.Shrinks Select.Shrinks Projection.Shrinks) ps ps') : List.Forall₂ Part.Shrinks ps ps' :=
  h.imp fun p p' related => by
    cases related <;> assumption

theorem Shrinks.traverse {e : Expr} (parts : ∀ q ∈ (Part.expr e).parts, W.Shrinks O q) :
    O.Keeps (fun _ => True) e.Shrinks
      (e.traverse (fun c _ => W.expr c) (fun s _ => W.select s) fun p _ => W.projection p) := by
  have shaped := Walker.Keeps.related (W := W) (O := O) (I := fun _ => True) (e := e)
    (fun c hc => parts (.expr c) hc) (fun s hs => parts (.select s) hs) fun p hp => parts (.projection p) hp
  refine (shaped.and (Expr.traverse_rebuilds e _ _ _)).mono fun e' ⟨shaped, same⟩ => ?_
  exact shrinks_of_parts rfl (shrinks_of_matches shaped.parts) fun parts => congrArg _ (same parts)

theorem Shrinks.traverseSelect {s : Select Expr} (parts : ∀ q ∈ (Part.select s).parts, W.Shrinks O q) :
    O.Keeps (fun _ => True) s.Shrinks (s.traverse fun e _ => W.expr e) := by
  have shaped : O.Keeps _ (fun s' => s.Shaped Expr.Shrinks s') _ :=
    (O.keeping fun _ => True).select (V := id) (Q := fun _ => Expr.Shrinks) s
      fun e he => parts (.expr e) he
  refine shaped.mono fun s' shaped => ?_
  have related := shaped.parts.imp fun q q' related => by
    cases related with
    | expr h => exact h
    | select h => exact h.elim
    | projection h => exact h.elim
  refine shrinks_of_parts rfl related fun same => congrArg _ (shaped.eq_of_exprs ?_)
  exact (Function.Injective.list_map (fun _ _ h => Part.expr.inj h)) same

omit [LawfulMonad m] in
theorem Shrinks.traverseProjection {p : Projection Expr}
    (parts : ∀ q ∈ (Part.projection p).parts, W.Shrinks O q) :
    O.Keeps (fun _ => True) p.Shrinks
      (p.traverse (fun e _ => W.expr e) fun s _ => W.select s) := by
  have shaped : O.Keeps _ (fun p' => p.Shaped Expr.Shrinks Select.Shrinks p') _ :=
    @Sequence.projection _ _ _ _ (O.keeping fun _ => True) (fun _ => Expr.Shrinks)
      (fun _ => Select.Shrinks) id p _ _ (fun e he => parts (.expr e) he) fun s hs => parts (.select s) hs
  refine shaped.mono fun p' shaped => ?_
  refine shrinks_of_parts rfl (shrinks_of_matches (shaped.parts.imp ?_)) fun same => ?_
  · intro q q' related
    cases related with
    | expr h => exact .expr h
    | select h => exact .select h
    | projection h => exact h.elim
  · have pick := shaped.pick
    cases p
    cases p'
    simp_all [Part.parts]

end Walker

/-- The expressions of a select over a source. -/
theorem Select.exprs_source {s : Select Expr} {source : Expr} (h : s.source = some source) :
    s.exprs = source :: { s with source := none }.exprs := by
  simp [Select.exprs, h]

namespace Layers

variable {removed : List (Select Expr)}

def Bare (removed : List (Select Expr)) : Prop :=
  ∀ s ∈ removed, ∀ d ∈ s.columns, (Part.expr d.expr).selectCount = 0

theorem selectCount_column (c : Column) : (Part.expr (.column c)).selectCount = 0 := by
  rw [Part.selectCount_expr]
  rfl

theorem selectCount_resolve (bare : Bare removed) (steps : Nat) (c : Column) :
    (Part.expr (resolve removed steps c)).selectCount = 0 := by
  induction steps generalizing c with
  | zero => exact selectCount_column c
  | succ steps ih =>
    rw [resolve]
    split
    · exact ih _
    · rename_i e _ found
      simp only [removedColumn?, Option.bind_eq_bind, Option.bind_eq_some_iff, Option.pure_def,
        Option.some.injEq] at found
      obtain ⟨s, hs, d, hd, rfl⟩ := found
      exact bare s (by simpa using List.mem_of_find?_eq_some hs) d (by simpa using List.mem_of_find?_eq_some hd)
    · exact selectCount_column c

theorem splice_select (s : Select Expr) : s.splice removed =
    { s with
      source := s.source.map (·.splice removed)
      filter := s.filter.map (·.splice removed)
      orderBy := s.orderBy.map fun o => { o with expr := o.expr.splice removed }
      groupBy := s.groupBy.map (·.splice removed)
      skip := s.skip.map (·.splice removed)
      take := s.take.map (·.splice removed)
      columns := s.columns.map fun d => { d with expr := d.expr.splice removed } } := by
  rw [Select.splice]
  simp [Select.traverse, optionMapM_attach_map]

theorem splice_join (kind : JoinKind) (left right : Expr) (on : Option Expr) :
    (Expr.join kind left right on).splice removed
      = .join kind (left.splice removed) (right.splice removed) (on.map (·.splice removed)) := by
  rw [Expr.splice.eq_3 _ _ (by simp) (by simp)]
  simp [Expr.traverse, optionMapM_attach_map]

theorem exprs_splice (s : Select Expr) : (s.splice removed).exprs = s.exprs.map (·.splice removed) := by
  rw [splice_select]
  cases s with
  | mk rel columns source filter orderBy groupBy distinct skip take reversed =>
    simp only [Select.exprs, List.map_append, List.map_map, Function.comp_def]
    cases source <;> cases filter <;> cases skip <;> cases take <;> rfl

theorem counts_of_matches {ps ps' : List Part}
    (h : List.Forall₂ (Part.Matches (fun c c' => (Part.expr c').selectCount ≤ (Part.expr c).selectCount)
      (fun s s' => (Part.select s').selectCount ≤ (Part.select s).selectCount)
      fun p p' => (Part.projection p').selectCount ≤ (Part.projection p).selectCount) ps ps') :
    (ps'.map Part.selectCount).sum ≤ (ps.map Part.selectCount).sum := by
  induction h with
  | nil => exact le_rfl
  | cons related _ ih =>
    simp only [List.map_cons, List.sum_cons]
    refine Nat.add_le_add ?_ ih
    cases related <;> assumption

def SplicesDown (removed : List (Select Expr)) : Part → Prop
  | .expr e => (Part.expr (e.splice removed)).selectCount ≤ (Part.expr e).selectCount
  | .select s => (Part.select (s.splice removed)).selectCount ≤ (Part.select s).selectCount
    ∧ ∀ e ∈ s.source, (Part.expr (e.splice removed)).selectCount ≤ (Part.expr e).selectCount
  | .projection p => (Part.projection (p.splice removed)).selectCount ≤ (Part.projection p).selectCount

theorem selectsIn_map_le (es : List Expr) {f : Expr → Expr}
    (h : ∀ e ∈ es, (Part.expr (f e)).selectCount ≤ (Part.expr e).selectCount) :
    Part.selectsIn (es.map f) ≤ Part.selectsIn es := by
  induction es with
  | nil => exact le_rfl
  | cons e rest ih =>
    rw [List.map_cons, Part.selectsIn_cons, Part.selectsIn_cons]
    exact Nat.add_le_add (h e (by simp)) (ih fun e he => h e (by simp [he]))

theorem splicesDown (bare : Bare removed) (p : Part) : SplicesDown removed p := by
  induction p.every_trivial with
  | @node p _ _ ih =>
    cases p with
    | expr e =>
      have selects : ∀ s, Part.select s ∈ (Part.expr e).parts → ofId.Keeps (fun _ => True)
          (fun s' : Select Expr => (Part.select s').selectCount ≤ (Part.select s).selectCount)
          ((splicing removed).select s) := fun s hs => .pure (ih (.select s) hs).1
      have projections : ∀ p, Part.projection p ∈ (Part.expr e).parts → ofId.Keeps (fun _ => True)
          (fun p' : Projection Expr => (Part.projection p').selectCount ≤ (Part.projection p).selectCount)
          ((splicing removed).projection p) := fun p hp => .pure (ih (.projection p) hp)
      have shaped := (Walker.Keeps.related (W := splicing removed) (O := ofId) (I := fun _ => True) (e := e)
        (Q := fun c c' => (Part.expr c').selectCount ≤ (Part.expr c).selectCount)
        (fun c hc => .pure (ih (.expr c) hc)) selects projections).value
      rw [SplicesDown]
      cases e with
      | column c =>
        rw [Expr.splice, selectCount_resolve bare]
        exact Nat.zero_le _
      | select s =>
        obtain ⟨kept, source⟩ := ih (.select s) (by simp [Part.parts])
        rw [Expr.splice, Part.selectCount_exprSelect]
        split
        · split
          · rename_i found
            exact (source _ found).trans ((Part.selectCount_source found).le)
          · exact (Part.selectCount_exprSelect s).le
        · exact (Part.selectCount_exprSelect _).trans_le kept
      | _ =>
        rw [Expr.splice.eq_3 _ _ (by simp) (by simp), Part.selectCount_expr, Part.selectCount_expr]
        exact counts_of_matches shaped.parts
    | select s =>
      have clauses : ∀ e ∈ s.exprs, SplicesDown removed (.expr e) := fun e he => ih _ (List.mem_map_of_mem he)
      refine ⟨?_, fun e he => ih (.expr e) (Select.source_mem he)⟩
      rw [Part.selectCount_select, Part.selectCount_select, exprs_splice]
      exact Nat.add_le_add_left (selectsIn_map_le _ clauses) 1
    | projection p =>
      have select := (ih (.select p.select) Projection.select_mem).1
      have projector := ih (.expr p.projector) Projection.projector_mem
      rw [SplicesDown, Projection.splice, Part.selectCount_projection, Part.selectCount_projection]
      exact Nat.add_le_add select projector

theorem splice_expr_le (bare : Bare removed) (e : Expr) :
    (Part.expr (e.splice removed)).selectCount ≤ (Part.expr e).selectCount :=
  splicesDown bare (.expr e)

/-- A select that is spliced out leaves its source. -/
theorem splice_removed {s : Select Expr} {source : Expr} (gone : s ∈ removed) (has_source : s.source = some source) :
    (Expr.select s).splice removed = source.splice removed := by
  have named : removed.any (·.rel == s.rel) = true := List.any_eq_true.mpr ⟨s, gone, beq_self_eq_true _⟩
  rw [Expr.splice, if_pos named]
  split
  · rename_i found
    rw [Option.some.inj (found.symm.trans has_source)]
  · rename_i none
    cases none.symm.trans has_source

theorem selectsIn_option_le (bare : Bare removed) (o : Option Expr) :
    Part.selectsIn (o.map (·.splice removed)).toList ≤ Part.selectsIn o.toList := by
  cases o with
  | none => exact le_rfl
  | some e => simpa using splice_expr_le bare e

theorem isColumn_of_redundant {s : Select Expr} (h : isRedundant s = true) :
    ∀ d ∈ s.columns, ∃ c, d.expr = .column c := by
  have column : ∀ name e, forwards name e = true → ∃ c, e = .column c := fun name e h => by
    cases e <;> simp_all [forwards]
  simp only [isRedundant, Bool.and_eq_true, Bool.or_eq_true] at h
  intro d hd
  rcases h.1.2 with simple | mapped
  · exact column _ _ (List.all_eq_true.mp simple d hd)
  · unfold isNameMap at mapped
    split at mapped
    · rename_i below _
      simp only [Bool.and_eq_true, beq_iff_eq, List.all_eq_true] at mapped
      rw [← List.map_fst_zip mapped.1.le] at hd
      obtain ⟨pair, zipped, rfl⟩ := List.mem_map.mp hd
      exact column _ _ (mapped.2 pair zipped)
    · cases mapped

theorem bare_of_redundant (h : ∀ s ∈ removed, isRedundant s = true) : Bare removed := by
  intro s hs d hd
  obtain ⟨c, hc⟩ := isColumn_of_redundant (h s hs) d hd
  rw [hc, selectCount_column]

theorem isRedundant_of_mem {e : Expr} : ∀ s ∈ redundant e, isRedundant s = true := by
  fun_induction redundant e with
  | case1 s h => simpa using h
  | case3 kind left right on ihLeft ihRight =>
    intro s hs
    exact (List.mem_append.mp hs).elim (ihLeft s) (ihRight s)
  | _ => simp

/-- Where the joined relations have redundant selects, splicing them out leaves fewer selects. -/
theorem splice_redundant_lt (bare : Bare removed) {e : Expr} (gone : redundant e ⊆ removed)
    (some : redundant e ≠ []) : (Part.expr (e.splice removed)).selectCount < (Part.expr e).selectCount := by
  fun_induction redundant e with
  | case1 s h =>
    have has_source : s.source.isSome = true := by
      simp only [isRedundant, Bool.and_eq_true] at h
      exact h.1.1
    obtain ⟨source, has_source⟩ := Option.isSome_iff_exists.mp has_source
    rw [splice_removed (gone (by simp)) has_source, Part.selectCount_exprSelect]
    exact (splice_expr_le bare source).trans_lt (Part.selectCount_source has_source)
  | case2 => exact absurd rfl some
  | case3 kind left right on ihLeft ihRight =>
    have leftLess := splice_expr_le bare left
    have rightLess := splice_expr_le bare right
    have onLess := selectsIn_option_le bare on
    rw [splice_join, Part.selectCount_join, Part.selectCount_join]
    by_cases left : redundant left = []
    · have fewer := ihRight (fun s hs => gone (List.mem_append_right _ hs)) fun none => some (by simp [left, none])
      omega
    · have fewer := ihLeft (fun s hs => gone (List.mem_append_left _ hs)) left
      omega
  | case4 => exact absurd rfl some

theorem shrinks_removeBelow (s : Select Expr) : (Part.select s).Shrinks (.select (removeBelow s)) := by
  unfold removeBelow
  cases has_source : s.source with
  | none => exact .inr rfl
  | some source =>
    simp only [Option.map_some, Option.getD_some]
    split
    · exact .inr rfl
    · rename_i some
      have bare : Bare (redundant source) := bare_of_redundant isRedundant_of_mem
      have fewer := splice_redundant_lt bare (List.Subset.refl _) some
      have clauses := selectsIn_map_le { s with source := none }.exprs
        (f := (·.splice (redundant source))) fun e _ => splice_expr_le bare e
      refine .inl ?_
      rw [Part.selectCount_select, Part.selectCount_select, exprs_splice, Select.exprs_source has_source]
      simp only [List.map_cons, Part.selectsIn_cons]
      omega

theorem shrinks_removeTop (p : Projection Expr) : (Part.projection p).Shrinks (.projection (removeTop p)) := by
  unfold removeTop
  split
  · rename_i below has_source
    split
    · rename_i redundant
      have bare : Bare [p.select] := bare_of_redundant fun s hs => List.mem_singleton.mp hs ▸ redundant
      have select := (splicesDown bare (.select below)).1
      have projector := splice_expr_le bare p.projector
      have fewer := Part.selectCount_source has_source
      rw [Part.selectCount_exprSelect] at fewer
      refine .inl ?_
      rw [Part.selectCount_projection, Part.selectCount_projection]
      exact Nat.add_lt_add_of_lt_of_le (select.trans_lt fewer) projector
    · exact .inr rfl
  · exact .inr rfl

def RemovesShrinking : Part → Prop
  | .expr e => (Part.expr e).Shrinks (.expr e.removeLayers)
  | .select s => (Part.select s).Shrinks (.select s.removeLayers)
  | .projection p => (Part.projection p).Shrinks (.projection p.removeLayers)
    ∧ (Part.projection p).Shrinks (.projection ⟨p.select.removeLayers, p.projector.removeLayers, p.pick⟩)

theorem RemovesShrinking.shrinks {p : Part} (h : RemovesShrinking p) : removing.Shrinks ofId p := by
  cases p with
  | expr e => exact .pure h
  | select s => exact .pure h
  | projection p => exact .pure h.1

theorem removesShrinking (p : Part) : RemovesShrinking p := by
  induction p.every_trivial with
  | @node p _ _ ih =>
    have walks := fun q hq => (ih q hq).shrinks
    cases p with
    | expr e =>
      rw [RemovesShrinking]
      by_cases joined : ∃ p outer inner, e = .clientJoin p outer inner
      · obtain ⟨p, outer, inner, rfl⟩ := joined
        rw [Expr.removeLayers]
        have keys : List.Forall₂ Expr.Shrinks outer
            (outer.attach.map fun k => k.1.removeLayers) := by
          rw [List.attach_map_val, List.forall₂_map_right_iff]
          exact List.forall₂_same.mpr fun k hk => ih (.expr k) (by simp [Part.parts, hk])
        have shaped : (Expr.clientJoin p outer inner).Shaped Expr.Shrinks Select.Shrinks Projection.Shrinks _ :=
          .clientJoin (ih (.projection p) (by simp [Part.parts])).2 keys
            (List.forall₂_same.mpr fun k (_ : k ∈ inner) => .inr rfl)
        exact Walker.shrinks_of_parts rfl (Walker.shrinks_of_matches shaped.parts) fun same =>
          congrArg _ (shaped.eq_of_parts (by simp) same)
      · rw [Expr.removeLayers.eq_2 e fun p outer inner he => joined ⟨p, outer, inner, he⟩]
        exact (Walker.Shrinks.traverse walks).value
    | select s =>
      rw [RemovesShrinking, Select.removeLayers]
      exact (Walker.Shrinks.traverseSelect walks).value.trans (shrinks_removeBelow _)
    | projection p =>
      have walked := (Walker.Shrinks.traverseProjection walks).value
      refine ⟨?_, walked⟩
      rw [Projection.removeLayers]
      exact walked.trans (shrinks_removeTop _)

theorem bare_of_plain {below : Select Expr} (h : hasPlainColumns below = true) : Bare [below] := by
  intro s hs d hd
  obtain rfl := List.mem_singleton.mp hs
  have plain := List.all_eq_true.mp h d hd
  rw [Part.selectCount_expr]
  split at plain
  · rename_i column
    rw [column]
    rfl
  · rename_i const
    rw [const]
    rfl
  · cases plain

/-- What is merged away stood in the source, with its clauses. -/
theorem splice_leftmost_le {below : Select Expr} {under : Expr} (bare : Bare [below])
    (has_source : below.source = some under) {e : Expr} (h : leftmost? e = some below) :
    (Part.expr (e.splice [below])).selectCount + 1 + Part.selectsIn { below with source := none }.exprs
      ≤ (Part.expr e).selectCount := by
  fun_induction leftmost? e with
  | case1 s =>
    obtain rfl := Option.some.inj h
    have source := splice_expr_le bare under
    rw [splice_removed (by simp) has_source, Part.selectCount_exprSelect, Part.selectCount_select,
      Select.exprs_source has_source, Part.selectsIn_cons]
    omega
  | case2 kind left right on ih =>
    have left := ih h
    have right := splice_expr_le bare right
    have on := selectsIn_option_le bare on
    rw [splice_join, Part.selectCount_join, Part.selectCount_join]
    omega
  | case3 => cases h

theorem selectsIn_conjoin? (es : List Expr) : Part.selectsIn (Expr.conjoin? es).toList = Part.selectsIn es := by
  have both : ∀ (e : Expr) (rest : List Expr), (Part.expr (rest.foldl .both e)).selectCount
      = (Part.expr e).selectCount + Part.selectsIn rest := by
    intro e rest
    induction rest generalizing e with
    | nil => rfl
    | cons first rest ih =>
      have pair : (Part.expr (.both e first)).selectCount
          = (Part.expr e).selectCount + (Part.expr first).selectCount := by
        rw [Part.selectCount_expr]
        simp [Expr.both, Part.parts]
      rw [List.foldl_cons, ih, pair, Part.selectsIn_cons, Nat.add_assoc]
  cases es with
  | nil => rfl
  | cons e rest => simp [Expr.conjoin?, both]

/-- A merged select holds its clauses and those of the select below. -/
theorem selectsIn_merge_le (s below : Select Expr) : Part.selectsIn (merge s below).exprs
    ≤ Part.selectsIn (s.splice [below]).exprs + Part.selectsIn { below with source := none }.exprs := by
  have option : ∀ o o' : Option Expr, Part.selectsIn (o.or o').toList
      ≤ Part.selectsIn o.toList + Part.selectsIn o'.toList := fun o o' => by
    cases o <;> simp
  have filter := selectsIn_conjoin? (below.filter.toList ++ (s.splice [below]).filter.toList)
  have skip := option (s.splice [below]).skip below.skip
  have take := option (s.splice [below]).take below.take
  simp only [merge, Select.exprs, Part.selectsIn_append, Option.toList_none, Part.selectsIn_nil] at filter ⊢
  split <;> split <;> omega

theorem merge_lt {s below : Select Expr} {outermost : Bool} (found : s.source.bind leftmost? = some below)
    (can : canMerge s below outermost = true) :
    (Part.select (merge s below)).selectCount < (Part.select s).selectCount := by
  obtain ⟨source, has_source, left⟩ := Option.bind_eq_some_iff.mp found
  have plain : below.source.isSome = true ∧ hasPlainColumns below = true := by
    simp only [canMerge, Bool.and_eq_true] at can
    tauto
  obtain ⟨under, source_under⟩ := Option.isSome_iff_exists.mp plain.1
  have bare := bare_of_plain plain.2
  have source := splice_leftmost_le bare source_under left
  have clauses := selectsIn_map_le { s with source := none }.exprs (f := (·.splice [below]))
    fun e _ => splice_expr_le bare e
  have merged := selectsIn_merge_le s below
  rw [exprs_splice, Select.exprs_source has_source, List.map_cons, Part.selectsIn_cons] at merged
  rw [Part.selectCount_select, Part.selectCount_select, Select.exprs_source has_source, Part.selectsIn_cons]
  omega

theorem shrinks_mergeAll (outermost : Bool) (n : Nat) (s : Select Expr) : s.Shrinks (mergeAll outermost n s) := by
  induction n generalizing s with
  | zero => exact .inr rfl
  | succ n ih =>
    rw [mergeAll]
    split
    · exact .inr rfl
    · rename_i below found
      split
      · rename_i can
        simp only
        split
        · exact .inr rfl
        · exact Part.Shrinks.trans (.inl (merge_lt found can)) (ih _)
      · exact .inr rfl

theorem mergesShrinking (p : Part) : merging.Shrinks (ofState Bool) p := by
  induction p.every_trivial with
  | @node p _ _ parts =>
    cases p with
    | expr e =>
      change (ofState Bool).Keeps (fun _ => True) e.Shrinks e.mergeLayers
      rw [Expr.mergeLayers]
      exact Walker.Shrinks.traverse parts
    | select s =>
      change (ofState Bool).Keeps (fun _ => True) s.Shrinks s.mergeLayers
      rw [Select.mergeLayers]
      exact Outcomes.Keeps.anything.bind fun outermost _ =>
        (Walker.Shrinks.traverseSelect parts).bind fun s hs => .pure (hs.trans (shrinks_mergeAll outermost _ s))
    | projection p =>
      change (ofState Bool).Keeps (fun _ => True) p.Shrinks p.mergeLayers
      rw [Projection.mergeLayers]
      exact Walker.Shrinks.traverseProjection parts

end Layers

namespace Expr

/-- A run that changes the tree leaves fewer selects in it. -/
theorem collapseLayers_shrinks (e : Expr) : e.Shrinks e.collapseLayers :=
  Part.Shrinks.trans (Layers.removesShrinking (.expr e))
    (Outcomes.Keeps.result (Layers.mergesShrinking (.expr e.removeLayers)) trivial)

/-- After at most as many runs as the tree has selects, collapsing its layers changes nothing. -/
theorem collapseLayers_settles (e : Expr) :
    ∃ n ≤ (Part.expr e).selects.length, (collapseLayers^[n] e).collapseLayers = collapseLayers^[n] e := by
  induction h : (Part.expr e).selects.length using Nat.strong_induction_on generalizing e with
  | _ count ih =>
    subst h
    rcases e.collapseLayers_shrinks with fewer | same
    · obtain ⟨n, least, settled⟩ := ih _ fewer e.collapseLayers rfl
      exact ⟨n + 1, least.trans_lt fewer, settled⟩
    · exact ⟨0, Nat.zero_le _, Part.expr.inj same⟩

end Expr

end ObjectQuery
