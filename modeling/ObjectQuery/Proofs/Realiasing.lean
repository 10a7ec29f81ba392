import ObjectQuery.Proofs.Agreement
import ObjectQuery.Proofs.UnusedColumns
import ObjectQuery.Tree.Operands

/-!
The answer of a tree does not depend on how its relations are called. A tree whose aliases are replaced
one to one has the nodes of the tree it was made from, under exchanged names; both are evaluated in
lockstep, and the rows of client joins are kept under exchanged names as well.
-/

namespace ObjectQuery

open Eval

def Command.relabel (f : Alias → Alias) : Command Expr → Command Expr
  | .insert t assignments => .insert { t with rel := f t.rel }
    (assignments.map fun a => { a with column := { a.column with rel := f a.column.rel } })
  | .update t filter assignments => .update { t with rel := f t.rel } filter
    (assignments.map fun a => { a with column := { a.column with rel := f a.column.rel } })
  | .delete t filter => .delete { t with rel := f t.rel } filter
  | .conditional check onTrue none => .conditional check (onTrue.relabel f) none
  | .conditional check onTrue (some onFalse) =>
    .conditional check (onTrue.relabel f) (some (onFalse.relabel f))
  | .batch item items operation => .batch item items (operation.relabel f)

def Expr.relabel (f : Alias → Alias) : Expr → Expr
  | .table t => .table { t with rel := f t.rel }
  | .column c => .column { c with rel := f c.rel }
  | .setOp rel kind s t => .setOp (f rel) kind s t
  | .groupAggregate correlation owner e s => .groupAggregate correlation (f owner) e s
  | .command c => .command (c.relabel f)
  | e => e

mutual

def Expr.realias (f : Alias → Alias) : Expr → Expr
  | .operator op => .operator (op.mapMem fun e _ => e.realias f)
  | e => (Id.run (e.traverse (fun c _ => c.realias f) (fun s _ => s.realias f)
      fun p _ => p.realias f)).relabel f
termination_by e => (Part.expr e).weight
decreasing_by
  · exact Operator.weight_lt ‹_›
  all_goals exact Part.weight_lt ‹_›

def Select.realias (f : Alias → Alias) (s : Select Expr) : Select Expr :=
  { Id.run (s.traverse fun e _ => e.realias f) with rel := f s.rel }
termination_by (Part.select s).weight
decreasing_by exact Part.weight_lt ‹_›

def Projection.realias (f : Alias → Alias) (p : Projection Expr) : Projection Expr :=
  Id.run (p.traverse (fun e _ => e.realias f) fun s _ => s.realias f)
termination_by (Part.projection p).weight
decreasing_by all_goals exact Part.weight_lt ‹_›

end

def Part.realias (f : Alias → Alias) : Part → Part
  | .expr e => .expr (e.realias f)
  | .select s => .select (s.realias f)
  | .projection p => .projection (p.realias f)

section Relabelling

variable (f : Alias → Alias)

theorem Command.exprs_relabel : (c : Command Expr) → (c.relabel f).exprs = c.exprs
  | .insert _ _ => by simp [relabel, exprs, Function.comp_def]
  | .update _ _ _ => by simp [relabel, exprs, Function.comp_def]
  | .delete _ _ => rfl
  | .conditional _ onTrue none => by simp [relabel, exprs, exprs_relabel onTrue]
  | .conditional _ onTrue (some onFalse) => by
    simp [relabel, exprs, exprs_relabel onTrue, exprs_relabel onFalse]
  | .batch _ _ operation => by simp [relabel, exprs, exprs_relabel operation]

abbrev Replaced (a b : Alias) : Prop := b = f a

theorem Expr.relabel_kin (e : Expr) :
    (Part.expr e).Kin (Replaced f) (Replaced f) (.expr (e.relabel f)) := by
  cases e with
  | table t =>
    have renamed : (Expr.table t).Renamed (Replaced f) (Replaced f) (.table { t with rel := f t.rel }) :=
      .table rfl rfl
    exact .expr renamed (.table _)
  | column c =>
    have renamed : (Expr.column c).Renamed (Replaced f) (Replaced f) (.column { c with rel := f c.rel }) :=
      .column rfl rfl
    exact .expr renamed (.column _)
  | setOp rel kind s t => exact .expr (.setOp kind s t rfl) (.setOp _ _ trivial trivial)
  | groupAggregate n owner e s =>
    exact .expr (.groupAggregate n n e s rfl) (.groupAggregate _ _ trivial trivial)
  | command c =>
    refine .expr (.nameless trivial) (.command ?_)
    rw [Command.exprs_relabel]
    exact forall₂_refl_mem fun _ _ => trivial
  | _ =>
    exact .expr (.nameless trivial) ((Expr.Shaped.refl _).imp (fun _ _ _ _ => trivial)
      (fun _ _ _ _ => trivial) fun _ _ _ _ => trivial)

theorem Expr.parts_relabel (e : Expr) : (Part.expr (e.relabel f)).parts = (Part.expr e).parts := by
  cases e with
  | command c => simp [relabel, Part.parts, Command.exprs_relabel]
  | _ => rfl

/-- A node over other parts is renamed as the node itself is. -/
theorem Part.Kin.after_like {D R : Alias → Alias → Prop} {e e₁ e' : Expr} (like : e.Like e₁)
    (kin : (Part.expr e₁).Kin D R (.expr e')) : (Part.expr e).Kin D R (.expr e') := by
  cases kin with
  | expr renamed like' =>
    obtain ⟨e₂, shaped, renamed⟩ := renamed.flip.comm like.flip
    exact .expr renamed.flip ((shaped.flip.comp like').imp (fun _ _ _ _ => trivial)
      (fun _ _ _ _ => trivial) fun _ _ _ _ => trivial)

/-- Outside of operators, the parts of a tree are replaced one by one. -/
theorem Expr.realias_shaped {e : Expr} (noOperator : ∀ op, e ≠ .operator op) :
    ∃ e₁, e.Shaped (fun c c' => c' = c.realias f) (fun s s' => s' = s.realias f)
      (fun p p' => p' = p.realias f) e₁ ∧ e.realias f = e₁.relabel f := by
  refine ⟨_, ?_, Expr.realias.eq_2 f e noOperator⟩
  exact Yields.makes_ofId.mp (Expr.traverse_makes (Y := Yields.ofId) (G := Growth.still) e
    (fun _ _ => Yields.makes_ofId.mpr rfl) (fun _ _ => Yields.makes_ofId.mpr rfl)
    fun _ _ => Yields.makes_ofId.mpr rfl)

theorem Select.realias_akin (s : Select Expr) :
    s.Akin (fun c c' => c' = c.realias f) (s.realias f) := by
  have shaped : s.Shaped (fun c c' => c' = c.realias f) (s.traverse (m := Id) fun e _ => e.realias f) :=
    Yields.makes_ofId.mp (Select.traverse_makes (Y := Yields.ofId) (G := Growth.still) s
      fun _ _ => Yields.makes_ofId.mpr rfl)
  rw [Select.realias]
  exact { shaped.akin with }

theorem Select.Akin.like {Q : Expr → Expr → Prop} {s s' : Select Expr} (h : s.Akin Q s') : s.Like s' where
  columns := h.columns.imp fun _ _ h => ⟨h.1, trivial⟩
  source := optionRel_imp_mem h.source fun _ _ _ _ => trivial
  filter := optionRel_imp_mem h.filter fun _ _ _ _ => trivial
  orderBy := h.orderBy.imp fun _ _ h => ⟨h.1, trivial⟩
  groupBy := h.groupBy.imp fun _ _ _ => trivial
  distinct := h.distinct
  skip := optionRel_imp_mem h.skip fun _ _ _ _ => trivial
  take := optionRel_imp_mem h.take fun _ _ _ _ => trivial
  reversed := h.reversed

theorem Projection.realias_shaped (p : Projection Expr) :
    p.Shaped (fun c c' => c' = c.realias f) (fun s s' => s' = s.realias f) (p.realias f) := by
  rw [Projection.realias]
  exact Yields.makes_ofId.mp (Projection.traverse_makes (Y := Yields.ofId) (G := Growth.still) p
    (fun _ _ => Yields.makes_ofId.mpr rfl) fun _ _ => Yields.makes_ofId.mpr rfl)

theorem Part.Matches.realias {QP : Projection Expr → Projection Expr → Prop} {p p' : Part}
    (h : p.Matches (fun c c' => c' = c.realias f) (fun s s' => s' = s.realias f) QP p')
    (onProjection : ∀ q q', QP q q' → q' = q.realias f) : p' = p.realias f := by
  cases h with
  | expr h => exact congrArg Part.expr h
  | select h => exact congrArg Part.select h
  | projection h => exact congrArg Part.projection (onProjection _ _ h)

/-- The tree under new aliases has the same nodes as the tree. -/
theorem Part.paired_realias (p : Part) :
    p.Paired (Replaced f) (Replaced f) Expr.ValuelessBoth (p.realias f) := by
  have node : ∀ {p' : Part}, p.Kin (Replaced f) (Replaced f) p' →
      List.Forall₂ (fun q q' => q' = q.realias f) p.parts p'.parts →
      p.Paired (Replaced f) (Replaced f) Expr.ValuelessBoth p' := by
    intro p' kin parts
    refine .node kin parts.length_eq fun q q' hq => ?_
    have under : q ∈ p.parts := (List.of_mem_zip hq).1
    rw [(List.forall₂_iff_zip.mp parts).2 hq]
    exact paired_realias q
  cases p with
  | select s =>
    have akin := s.realias_akin f
    have rel : (s.realias f).rel = f s.rel := by rw [Select.realias]
    exact node (.select rel akin.like) (List.forall₂_map_left_iff.mpr (List.forall₂_map_right_iff.mpr
      (akin.exprs.imp fun _ _ h => congrArg Part.expr h)))
  | projection p =>
    have shaped := p.realias_shaped f
    exact node (.projection shaped.pick) (shaped.parts.imp fun _ _ h => h.realias f fun _ _ => False.elim)
  | expr e =>
    by_cases operator : ∃ op, e = .operator op
    · obtain ⟨op, rfl⟩ := operator
      refine .given ⟨trivial, by rw [Expr.realias]; trivial, ?_⟩
      rw [Expr.realias, aggregates_eq, aggregates_eq]
      rfl
    · obtain ⟨e₁, shaped, same⟩ := e.realias_shaped f fun op he => operator ⟨op, he⟩
      have like : e.Like e₁ := shaped.imp (fun _ _ _ _ => trivial) (fun _ _ _ _ => trivial)
        fun _ _ _ _ => trivial
      have parts := shaped.parts
      rw [← e₁.parts_relabel f, ← same] at parts
      refine node ?_ (parts.imp fun _ _ h => h.realias f fun _ _ => id)
      rw [realias, same]
      exact (e₁.relabel_kin f).after_like like
termination_by p.weight
decreasing_by exact weight_lt ‹_›

end Relabelling

section Execution

variable {tables : Tables} {e e' : Expr} {v : ClientValue}

/-- What a tree answers, the tree under exchanged names answers as well. -/
theorem Expr.execute_of_paired {A : Alias → Alias → Prop} (unique : Relator.BiUnique A)
    (paired : (Part.expr e).Paired A A Expr.ValuelessBoth (.expr e')) (h : e'.execute tables = .ok v) :
    e.execute tables = .ok v := by
  obtain ⟨-, joined, run⟩ := Expr.execute_eq_ok.mp h
  obtain ⟨joined', found⟩ := client_of_paired unique paired (by simp [Scope.Binds, Scope.root]) run
  refine Expr.execute_eq_ok.mpr ⟨?_, joined', found⟩
  rintro c rfl
  simp [Eval.client, Eval.scalar] at found

/-- Two trees under exchanged names give the same answer, or both fail. -/
theorem Expr.execute_eq_of_paired {A : Alias → Alias → Prop} (unique : Relator.BiUnique A)
    (paired : (Part.expr e).Paired A A Expr.ValuelessBoth (.expr e')) :
    (e'.execute tables).toOption = (e.execute tables).toOption := by
  have swapped : Relator.BiUnique (flip A) :=
    ⟨fun _ _ _ h h' => unique.2 h h', fun _ _ _ h h' => unique.1 h h'⟩
  have forth : ∀ {v}, e'.execute tables = .ok v → e.execute tables = .ok v :=
    Expr.execute_of_paired unique paired
  have back : ∀ {v}, e.execute tables = .ok v → e'.execute tables = .ok v :=
    Expr.execute_of_paired swapped (paired.flip fun _ _ h => h.symm)
  cases h : e.execute tables with
  | ok v => rw [back h]
  | error _ =>
    cases h' : e'.execute tables with
    | ok v => cases (forth h').symm.trans h
    | error _ => rfl

/-- A tree whose aliases are replaced one to one gives the same answer, or fails as the tree does. -/
theorem Expr.execute_realias {f : Alias → Alias}
    (injective : Set.InjOn f {a | a ∈ (Part.expr e).declared ∨ a ∈ (Part.expr e).references}) :
    ((e.realias f).execute tables).toOption = (e.execute tables).toOption := by
  let A : Alias → Alias → Prop := fun a b =>
    (a ∈ (Part.expr e).declared ∨ a ∈ (Part.expr e).references) ∧ b = f a
  have unique : Relator.BiUnique A := by
    refine ⟨?_, ?_⟩
    · rintro a c b ⟨ha, rfl⟩ ⟨hc, same⟩
      exact injective ha hc same
    · rintro a b c ⟨-, rfl⟩ ⟨-, rfl⟩
      rfl
  have paired : (Part.expr e).Paired A A Expr.ValuelessBoth (.expr (e.realias f)) :=
    (Part.paired_realias f (.expr e)).mono (fun a ha _ _ h => ⟨.inl ha, h⟩) fun a ha _ _ h => ⟨.inr ha, h⟩
  exact Expr.execute_eq_of_paired unique paired

end Execution

namespace Sample

def teamLists : Expr :=
  .projection ⟨employees, .construct none [⟨"Name", .column ⟨⟨2⟩, "Name", .text⟩⟩,
    ⟨"Team", .clientJoin ⟨{ superior with filter := none }, .column ⟨⟨4⟩, "Name", .text⟩, none⟩
      [.column ⟨⟨2⟩, "ID", .int⟩] [.column ⟨⟨4⟩, "Boss", .int⟩]⟩], none⟩

/-- The lists are the same when the numbers of their aliases are turned around. -/
theorem execute_teamLists : (teamLists.execute tables).toOption.isSome = true
    ∧ ((teamLists.realias fun a => ⟨20 - a.id⟩).execute tables).toOption
      = (teamLists.execute tables).toOption := by
  have bounded : ∀ a ∈ (Part.expr teamLists).declared ++ (Part.expr teamLists).references, a.id ≤ 20 := by
    decide +kernel
  refine ⟨by decide +kernel, Expr.execute_realias fun a ha b hb same => ?_⟩
  have left := bounded a (List.mem_append.mpr ha)
  have right := bounded b (List.mem_append.mpr hb)
  obtain ⟨m⟩ := a
  obtain ⟨n⟩ := b
  simp only [Alias.mk.injEq] at *
  omega

end Sample

end ObjectQuery
