import ObjectQuery.Proofs.Nodes
import Mathlib.Data.List.Induction

/-!
The walk that reads a tree and the walk that rebuilds it go through the same parts. A walk that changes no
node gives the tree back. What becomes of a tree when columns are replaced hangs on the columns that the
tree reads and on nothing else, and the tree that comes out reads, column by column, what the replacements
read.
-/

namespace ObjectQuery

section Rebuild

variable {m : Type → Type} [Monad m]

mutual

def Expr.rebuild (e : Expr) : m Expr :=
  e.traverse (fun c _ => c.rebuild) (fun s _ => s.rebuild) fun p _ => p.rebuild
termination_by (Part.expr e).weight
decreasing_by all_goals exact Part.weight_lt ‹_›

def Select.rebuild (s : Select Expr) : m (Select Expr) :=
  s.traverse fun e _ => e.rebuild
termination_by (Part.select s).weight
decreasing_by all_goals exact Part.weight_lt ‹_›

def Projection.rebuild (p : Projection Expr) : m (Projection Expr) :=
  p.traverse (fun e _ => e.rebuild) fun s _ => s.rebuild
termination_by (Part.projection p).weight
decreasing_by all_goals exact Part.weight_lt ‹_›

end

variable [LawfulMonad m]

def Yields.ofPure (m : Type → Type) [Monad m] [LawfulMonad m] : Yields m Unit where
  gives _ x a _ := x = Pure.pure a
  pure _ _ := rfl
  bind hx hf := by
    rw [hx, pure_bind]
    exact hf

/-- A node whose parts stay as they are stays as it is. -/
theorem Expr.traverse_same (e : Expr)
    {onExpr : (c : Expr) → Part.expr c ∈ (Part.expr e).parts → m Expr}
    {onSelect : (s : Select Expr) → Part.select s ∈ (Part.expr e).parts → m (Select Expr)}
    {onProjection :
      (p : Projection Expr) → Part.projection p ∈ (Part.expr e).parts → m (Projection Expr)}
    (hf : ∀ c hc, onExpr c hc = pure c) (hg : ∀ s hs, onSelect s hs = pure s)
    (hk : ∀ p hp, onProjection p hp = pure p) : e.traverse onExpr onSelect onProjection = pure e := by
  have walked := e.traverse_gives (Yields.ofPure m) (s := ()) (f := fun c _ => pure c)
    (g := fun s _ => pure s) (k := fun p _ => pure p) hf hg hk
  exact walked.trans (congrArg pure e.traverse_pure)

theorem Select.traverse_same (s : Select Expr)
    {onExpr : (e : Expr) → Part.expr e ∈ (Part.select s).parts → m Expr}
    (hf : ∀ e he, onExpr e he = pure e) : s.traverse onExpr = pure s := by
  have walked := s.traverse_gives (Yields.ofPure m) (s := ()) (f := fun e _ => pure e) hf
  exact walked.trans (congrArg pure s.traverse_pure)

theorem Projection.traverse_same (p : Projection Expr)
    {onExpr : (e : Expr) → Part.expr e ∈ (Part.projection p).parts → m Expr}
    {onSelect : (s : Select Expr) → Part.select s ∈ (Part.projection p).parts → m (Select Expr)}
    (hf : ∀ e he, onExpr e he = pure e) (hg : ∀ s hs, onSelect s hs = pure s) :
    p.traverse onExpr onSelect = pure p := by
  rw [Projection.traverse, hg, pure_bind, hf, pure_bind]

mutual

theorem Expr.rebuild_eq (e : Expr) : (e.rebuild : m Expr) = pure e := by
  rw [Expr.rebuild]
  exact e.traverse_same (fun c _ => c.rebuild_eq) (fun s _ => s.rebuild_eq) fun p _ => p.rebuild_eq
termination_by (Part.expr e).weight
decreasing_by all_goals exact Part.weight_lt ‹_›

theorem Select.rebuild_eq (s : Select Expr) : (s.rebuild : m (Select Expr)) = pure s := by
  rw [Select.rebuild]
  exact s.traverse_same fun e _ => e.rebuild_eq
termination_by (Part.select s).weight
decreasing_by all_goals exact Part.weight_lt ‹_›

theorem Projection.rebuild_eq (p : Projection Expr) : (p.rebuild : m (Projection Expr)) = pure p := by
  rw [Projection.rebuild]
  exact p.traverse_same (fun e _ => e.rebuild_eq) fun s _ => s.rebuild_eq
termination_by (Part.projection p).weight
decreasing_by all_goals exact Part.weight_lt ‹_›

end

end Rebuild

namespace Part

variable {f g : Column → Option Expr}

@[simp] theorem columnRefs_column (c : Column) : (expr (.column c)).columnRefs = [c] := by
  rw [columnRefs, gather_eq]
  rfl

/-- Only the columns that a tree reads matter. -/
theorem substitute_congr (p : Part) (same : ∀ c ∈ p.columnRefs, f c = g c) :
    p.substitute f = p.substitute g := by
  have under : ∀ q ∈ p.parts, q.substitute f = q.substitute g := fun q hq =>
    substitute_congr q fun c hc => same c (columnRefs_subset hq hc)
  have exprs : ∀ c, .expr c ∈ p.parts → c.substitute f = c.substitute g := fun c hc =>
    expr.inj (under (.expr c) hc)
  have selects : ∀ s, .select s ∈ p.parts → s.substitute f = s.substitute g := fun s hs =>
    select.inj (under (.select s) hs)
  have projections : ∀ p', .projection p' ∈ p.parts → p'.substitute f = p'.substitute g := fun p' hp =>
    projection.inj (under (.projection p') hp)
  cases p with
  | expr e =>
    refine congrArg Part.expr ?_
    by_cases isColumn : ∃ c, e = .column c
    · obtain ⟨c, rfl⟩ := isColumn
      rw [Expr.substitute.eq_1, Expr.substitute.eq_1, same c (by simp)]
    · have notColumn : ∀ c, e ≠ .column c := fun c hc => isColumn ⟨c, hc⟩
      rw [Expr.substitute.eq_2 f e notColumn, Expr.substitute.eq_2 g e notColumn]
      -- A traversal asks its actions about parts of the node only, so they need not be the same elsewhere.
      congr 2
      · exact funext₂ fun c hc => congrArg pure (exprs c hc)
      · exact funext₂ fun s hs => congrArg pure (selects s hs)
      · exact funext₂ fun p hp => congrArg pure (projections p hp)
  | select s =>
    refine congrArg Part.select ?_
    rw [Select.substitute, Select.substitute]
    congr 2
    exact funext₂ fun e he => congrArg pure (exprs e he)
  | projection p =>
    refine congrArg Part.projection ?_
    rw [Projection.substitute, Projection.substitute]
    congr 2
    · exact funext₂ fun e he => congrArg pure (exprs e he)
    · exact funext₂ fun s hs => congrArg pure (selects s hs)
termination_by p.weight
decreasing_by exact weight_lt ‹_›

end Part

mutual

theorem Expr.substitute_none (e : Expr) : e.substitute (fun _ => none) = e := by
  by_cases isColumn : ∃ c, e = .column c
  · obtain ⟨c, rfl⟩ := isColumn
    rw [Expr.substitute.eq_1, Option.getD_none]
  · rw [Expr.substitute.eq_2 _ e fun c hc => isColumn ⟨c, hc⟩]
    exact e.traverse_same (m := Id) (fun c _ => c.substitute_none) (fun s _ => s.substitute_none)
      fun p _ => p.substitute_none
termination_by (Part.expr e).weight
decreasing_by all_goals exact Part.weight_lt ‹_›

theorem Select.substitute_none (s : Select Expr) : s.substitute (fun _ => none) = s := by
  rw [Select.substitute]
  exact s.traverse_same (m := Id) fun e _ => e.substitute_none
termination_by (Part.select s).weight
decreasing_by all_goals exact Part.weight_lt ‹_›

theorem Projection.substitute_none (p : Projection Expr) : p.substitute (fun _ => none) = p := by
  rw [Projection.substitute]
  exact p.traverse_same (m := Id) (fun e _ => e.substitute_none) fun s _ => s.substitute_none
termination_by (Part.projection p).weight
decreasing_by all_goals exact Part.weight_lt ‹_›

end

namespace Part

variable {f : Column → Option Expr} {p : Part}

theorem substitute_none (p : Part) : p.substitute (fun _ => none) = p := by
  cases p with
  | expr e => exact congrArg expr e.substitute_none
  | select s => exact congrArg select s.substitute_none
  | projection p => exact congrArg projection p.substitute_none

/-- A tree none of whose columns is replaced stays as it is. -/
theorem substitute_eq_self (unreplaced : ∀ c ∈ p.columnRefs, f c = none) : p.substitute f = p :=
  (substitute_congr p unreplaced).trans p.substitute_none

theorem substitute_of_matches {QS : Select Expr → Select Expr → Prop}
    {QP : Projection Expr → Projection Expr → Prop} (selects : ∀ s s', QS s s' → s.substitute f = s')
    (projections : ∀ p p', QP p p' → p.substitute f = p') {q q' : Part}
    (h : q.Matches (fun c c' => c.substitute f = c') QS QP q') : q.substitute f = q' := by
  cases h with
  | expr h => exact congrArg expr h
  | select h => exact congrArg select (selects _ _ h)
  | projection h => exact congrArg projection (projections _ _ h)

/-- The parts of a node are replaced one by one, unless the node is a column itself. -/
theorem parts_substitute (notColumn : ∀ c, p ≠ .expr (.column c)) :
    (p.substitute f).parts = p.parts.map (substitute f) := by
  have replaced : List.Forall₂ (fun q q' => q.substitute f = q') p.parts (p.substitute f).parts := by
    cases p with
    | expr e =>
      exact (e.substitute_shaped f fun c hc => notColumn c (hc ▸ rfl)).parts.imp fun _ _ =>
        substitute_of_matches (fun _ _ => id) fun _ _ => id
    | select s =>
      exact (s.substitute_shaped f).parts.imp fun _ _ =>
        substitute_of_matches (fun _ _ => False.elim) fun _ _ => False.elim
    | projection p =>
      exact (p.substitute_shaped f).parts.imp fun _ _ =>
        substitute_of_matches (fun _ _ => id) fun _ _ => False.elim
  exact (List.forall₂_eq_eq_eq ▸ List.forall₂_map_left_iff.mpr replaced).symm

theorem columnRefs_eq_flatMap (notColumn : ∀ c, p ≠ .expr (.column c)) :
    p.columnRefs = p.parts.flatMap columnRefs := by
  rw [columnRefs, gather_eq]
  cases p with
  | select _ | projection _ => rfl
  | expr e =>
    cases e with
    | column c => exact absurd rfl (notColumn c)
    | _ => rfl

theorem substitute_ne_column (notColumn : ∀ c, p ≠ .expr (.column c)) (c : Column) :
    p.substitute f ≠ .expr (.column c) := by
  cases p with
  | select _ | projection _ => simp [substitute]
  | expr e =>
    intro h
    have shaped := e.substitute_shaped f fun c hc => notColumn c (hc ▸ rfl)
    rw [expr.inj h] at shaped
    cases shaped with
    | column c => exact notColumn c rfl

/-- The columns read after a replacement are those of the replacements, in the order of the columns that
they stand for. -/
theorem columnRefs_substitute (f : Column → Option Expr) (p : Part) :
    (p.substitute f).columnRefs
      = p.columnRefs.flatMap fun c => (expr ((f c).getD (.column c))).columnRefs := by
  by_cases isColumn : ∃ c, p = .expr (.column c)
  · obtain ⟨c, rfl⟩ := isColumn
    rw [substitute, Expr.substitute.eq_1, columnRefs_column, List.flatMap_singleton]
  · have notColumn : ∀ c, p ≠ .expr (.column c) := fun c hc => isColumn ⟨c, hc⟩
    have under : ∀ q ∈ p.parts, (q.substitute f).columnRefs
        = q.columnRefs.flatMap fun c => (expr ((f c).getD (.column c))).columnRefs :=
      fun q _ => columnRefs_substitute f q
    rw [columnRefs_eq_flatMap (substitute_ne_column notColumn), parts_substitute notColumn, List.flatMap_map,
      List.flatMap_congr under, columnRefs_eq_flatMap notColumn, List.flatMap_assoc]
termination_by p.weight
decreasing_by exact weight_lt ‹_›

end Part

def Column.remap (c : Column) (renames : List (Alias × Alias)) : Column :=
  { c with rel := (renames.reverse.lookup c.rel).getD c.rel }

theorem Expr.columnRefs_remap (e : Expr) (renames : List (Alias × Alias)) :
    (Part.expr (e.remap renames)).columnRefs = (Part.expr e).columnRefs.map (·.remap renames) := by
  have replaced := Part.columnRefs_substitute
    (fun c => (renames.reverse.lookup c.rel).map fun rel => .column { c with rel }) (.expr e)
  have renamed : ∀ c : Column, ((renames.reverse.lookup c.rel).map fun rel => Expr.column { c with rel }).getD
      (.column c) = .column (c.remap renames) := by
    intro c
    rw [Column.remap]
    cases renames.reverse.lookup c.rel <;> rfl
  simp only [renamed, Part.columnRefs_column] at replaced
  rw [← List.map_eq_flatMap] at replaced
  exact replaced

section Repeats

variable {α β : Type} [BEq α] [LawfulBEq α] [BEq β] [LawfulBEq β]

theorem eraseDups_concat (l : List α) (a : α) :
    (l ++ [a]).eraseDups = l.eraseDups ++ if l.contains a then [] else [a] := by
  rw [List.eraseDups_append]
  by_cases h : a ∈ l <;> simp [List.removeAll, List.eraseDups_cons, h]

/-- Repeats may be dropped on the way. -/
theorem eraseDups_map_eraseDups (f : α → β) (l : List α) :
    (l.eraseDups.map f).eraseDups = (l.map f).eraseDups := by
  induction l using List.reverseRecOn with
  | nil => rfl
  | append_singleton l a ih =>
    rw [List.map_append, List.map_singleton, eraseDups_concat, eraseDups_concat]
    by_cases seen : a ∈ l
    · have mapped : f a ∈ l.map f := List.mem_map_of_mem seen
      rw [if_pos (by simpa using seen), if_pos (by simpa using mapped), List.append_nil, List.append_nil, ih]
    · have same : (l.eraseDups.map f).contains (f a) = (l.map f).contains (f a) := by
        rw [Bool.eq_iff_iff]
        simp
      rw [if_neg (by simpa using seen), List.map_append, List.map_singleton, eraseDups_concat, ih, same]

end Repeats

/-- The walks agree: the one that changes nothing gives the tree back, replacing columns depends on the columns
that a tree reads and leaves a tree alone where none is replaced, and columns that are pointed elsewhere are
read elsewhere. -/
theorem Expr.walks_agree {m : Type → Type} [Monad m] [LawfulMonad m] (e : Expr) :
    (e.rebuild : m Expr) = pure e
      ∧ (∀ f g : Column → Option Expr, (∀ c ∈ e.columns, f c = g c) → e.substitute f = e.substitute g)
      ∧ (∀ f : Column → Option Expr, (∀ c ∈ e.columns, f c = none) → e.substitute f = e)
      ∧ ∀ renames, (e.remap renames).columns = (e.columns.map (·.remap renames)).eraseDups := by
  have read : ∀ c, c ∈ (Part.expr e).columnRefs → c ∈ e.columns := fun c hc => List.mem_eraseDups.mpr hc
  refine ⟨e.rebuild_eq, fun f g same => ?_, fun f unreplaced => ?_, fun renames => ?_⟩
  · exact Part.expr.inj (Part.substitute_congr (.expr e) fun c hc => same c (read c hc))
  · exact Part.expr.inj (Part.substitute_eq_self (p := .expr e) fun c hc => unreplaced c (read c hc))
  · rw [Expr.columns, Part.columns, e.columnRefs_remap, Expr.columns, Part.columns, eraseDups_map_eraseDups]

namespace Sample

def siblings : Expr :=
  .both (.equals (.column ⟨⟨1⟩, "CustomerID", .text⟩) (.column ⟨⟨2⟩, "CustomerID", .text⟩))
    (.existsIn (.plain ⟨4⟩ [] (some (.table ⟨⟨3⟩, "Order", "Orders"⟩))
      (some (.equals (.column ⟨⟨3⟩, "CustomerID", .text⟩) (.column ⟨⟨1⟩, "CustomerID", .text⟩)))))

def fixed (rel : Alias) (c : Column) : Option Expr :=
  if c.rel = rel then some (.const (.text "C1")) else none

/-- Two relations become one, and the column that is read of both is read once. -/
theorem walks_agree_siblings :
    (siblings.rebuild : Except String Expr) = .ok siblings
      ∧ (∀ c ∈ siblings.columns, ((fixed ⟨5⟩ c).or (fixed ⟨2⟩ c)) = fixed ⟨2⟩ c)
      ∧ siblings.substitute (fun c => (fixed ⟨5⟩ c).or (fixed ⟨2⟩ c)) = siblings.substitute (fixed ⟨2⟩)
      ∧ (∀ c ∈ siblings.columns, fixed ⟨5⟩ c = none) ∧ siblings.substitute (fixed ⟨5⟩) = siblings
      ∧ (siblings.remap [(⟨1⟩, ⟨5⟩), (⟨2⟩, ⟨5⟩)]).columns
        = [⟨⟨5⟩, "CustomerID", .text⟩, ⟨⟨3⟩, "CustomerID", .text⟩] := by
  have columns : siblings.columns = [⟨⟨1⟩, "CustomerID", .text⟩, ⟨⟨2⟩, "CustomerID", .text⟩,
      ⟨⟨3⟩, "CustomerID", .text⟩] := by cbv
  obtain ⟨rebuilt, agree, alone, renamed⟩ := Expr.walks_agree (m := Except String) siblings
  have absent : ∀ c ∈ siblings.columns, fixed ⟨5⟩ c = none := by
    rw [columns]
    simp [fixed]
  have same : ∀ c ∈ siblings.columns, ((fixed ⟨5⟩ c).or (fixed ⟨2⟩ c)) = fixed ⟨2⟩ c := by
    intro c hc
    rw [absent c hc, Option.none_or]
  refine ⟨rebuilt, same, agree _ _ same, absent, alone _ absent, ?_⟩
  rw [renamed, columns]
  decide

end Sample

end ObjectQuery
