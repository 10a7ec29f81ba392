import ObjectQuery.Proofs.Plain
import ObjectQuery.Proofs.Shape
import ObjectQuery.Tree.Aliases

/-!
What holds at every node of a tree: properties that are handed down to the parts, and that a node
over other parts keeps where the parts do.
-/

namespace ObjectQuery

inductive Part.Every (P : Part → Prop) : Part → Prop
  | node {p : Part} : P p → (∀ q ∈ p.parts, Every P q) → Every P p

namespace Part.Every

variable {P P' : Part → Prop} {p q : Part}

theorem here : Every P p → P p
  | node h _ => h

theorem part (h : Every P p) (hq : q ∈ p.parts) : Every P q := by
  cases h with
  | node _ parts => exact parts q hq

theorem mono (h : Every P p) (sub : ∀ q, P q → P' q) : Every P' p := by
  induction h with
  | node h _ ih => exact .node (sub _ h) ih

theorem and (h : Every P p) (h' : Every P' p) : Every (fun q => P q ∧ P' q) p := by
  induction h with
  | node here _ ih => exact .node ⟨here, h'.here⟩ fun q hq => ih q hq (h'.part hq)

end Part.Every

theorem Part.every_iff {P : Part → Prop} {p : Part} :
    p.Every P ↔ P p ∧ ∀ q ∈ p.parts, q.Every P :=
  ⟨fun h => ⟨h.here, fun _ => h.part⟩, fun h => .node h.1 h.2⟩

theorem Part.gather_eq {α : Type} (visit : Part → List α) (p : Part) :
    p.gather visit (fun _ => true)
      = visit p ++ p.parts.flatMap fun q => q.gather visit fun _ => true := by
  rw [gather]
  simp

theorem Part.mem_gather {α : Type} {visit : Part → List α} {p : Part} {a : α} :
    a ∈ p.gather visit (fun _ => true)
      ↔ a ∈ visit p ∨ ∃ q ∈ p.parts, a ∈ q.gather visit fun _ => true := by
  rw [gather_eq, List.mem_append, List.mem_flatMap]

/-- What a walk collects has the property where every node only shows such things. -/
theorem Part.Every.of_mem_gather {α : Type} {visit : Part → List α} {D : α → Prop} {p : Part}
    (h : Every (fun q => ∀ a ∈ visit q, D a) p) : ∀ a ∈ p.gather visit (fun _ => true), D a := by
  induction h with
  | node h _ ih =>
    intro a ha
    rcases mem_gather.mp ha with ha | ⟨q, hq, ha⟩
    · exact h a ha
    · exact ih q hq a ha

theorem Part.every_of_gather {α : Type} {visit : Part → List α} {D : α → Prop} (p : Part)
    (h : ∀ a ∈ p.gather visit (fun _ => true), D a) : Every (fun q => ∀ a ∈ visit q, D a) p :=
  .node (fun a ha => h a (mem_gather.mpr (.inl ha))) fun q hq =>
    every_of_gather q fun a ha => h a (mem_gather.mpr (.inr ⟨q, hq, ha⟩))
termination_by p.weight
decreasing_by exact weight_lt ‹_›

theorem Part.every_trivial (p : Part) : p.Every fun _ => True := by
  have none : p.Every fun _ => ∀ a ∈ ([] : List Unit), True := every_of_gather p fun _ _ => trivial
  exact none.mono fun _ _ => trivial

def Part.binds : Part → List Alias
  | .expr (.table t) => [t.rel]
  | .expr (.setOp rel _ _ _) => [rel]
  | .select s => [s.rel]
  | _ => []

theorem Part.declared_eq (p : Part) : p.declared = p.binds ++ p.parts.flatMap declared :=
  gather_eq _ p

theorem Part.binds_subset (p : Part) : p.binds ⊆ p.declared := by
  rw [declared_eq]
  exact List.subset_append_left _ _

theorem Part.mem_free {p : Part} {a : Alias} :
    a ∈ p.free ↔ (∃ c ∈ p.columnRefs, c.rel = a) ∧ a ∉ p.declared := by
  simp [free, referenced]

def Part.selects (p : Part) : List (Select Expr) :=
  p.gather (fun
    | .select s => [s]
    | _ => []) fun _ => true

theorem Part.selects_subset {p q : Part} (h : q ∈ p.parts) : q.selects ⊆ p.selects :=
  fun _ hs => mem_gather.mpr (.inr ⟨q, h, hs⟩)

theorem Select.mem_selects (s : Select Expr) : s ∈ (Part.select s).selects :=
  Part.mem_gather.mpr (.inl (by simp))

inductive Part.Matches (Q : Expr → Expr → Prop) (QS : Select Expr → Select Expr → Prop)
    (QP : Projection Expr → Projection Expr → Prop) : Part → Part → Prop
  | expr {e e' : Expr} : Q e e' → Matches Q QS QP (.expr e) (.expr e')
  | select {s s' : Select Expr} : QS s s' → Matches Q QS QP (.select s) (.select s')
  | projection {p p' : Projection Expr} : QP p p' → Matches Q QS QP (.projection p) (.projection p')

section Parts

variable {Q : Expr → Expr → Prop} {QS : Select Expr → Select Expr → Prop}
  {QP : Projection Expr → Projection Expr → Prop}

theorem matches_exprs {es es' : List Expr} (h : List.Forall₂ Q es es') :
    List.Forall₂ (Part.Matches Q QS QP) (es.map .expr) (es'.map .expr) :=
  List.forall₂_map_left_iff.mpr (List.forall₂_map_right_iff.mpr (h.imp fun _ _ h => .expr h))

theorem forall₂_toList {α β : Type} {R : α → β → Prop} {a : Option α} {b : Option β}
    (h : Option.Rel R a b) : List.Forall₂ R a.toList b.toList := by
  cases h with
  | none => exact .nil
  | some h => exact .cons h .nil

theorem Expr.Shaped.parts {e e' : Expr} (h : e.Shaped Q QS QP e') :
    List.Forall₂ (Part.Matches Q QS QP) (Part.expr e).parts (Part.expr e').parts := by
  cases h with
  | const _ | param _ | operator _ | table _ | column _ => exact .nil
  | member _ ha | unary _ ha | lambda _ ha | isNull ha | entity _ ha => exact .cons (.expr ha) .nil
  | binary _ ha hb | outerJoined ha hb | grouping ha hb =>
    exact .cons (.expr ha) (.cons (.expr hb) .nil)
  | cond ha hb hc | between ha hb hc =>
    exact .cons (.expr ha) (.cons (.expr hb) (.cons (.expr hc) .nil))
  | call _ hargs => exact matches_exprs hargs
  | construct _ hfields =>
    exact List.forall₂_map_left_iff.mpr (List.forall₂_map_right_iff.mpr
      (hfields.imp fun _ _ h => .expr h.2))
  | select hs | scalar hs | existsIn hs => exact .cons (.select hs) .nil
  | join _ ha hb hon => exact .cons (.expr ha) (.cons (.expr hb) (matches_exprs (forall₂_toList hon)))
  | setOp _ _ hs ht => exact .cons (.select hs) (.cons (.select ht) .nil)
  | aggregate _ _ h => exact matches_exprs (forall₂_toList h)
  | groupAggregate _ _ ha hs | inSelect ha hs => exact .cons (.expr ha) (.cons (.select hs) .nil)
  | inValues ha hv => exact .cons (.expr ha) (matches_exprs hv)
  | rowNumber horders =>
    exact List.forall₂_map_left_iff.mpr (List.forall₂_map_right_iff.mpr
      (horders.imp fun _ _ h => .expr h.2))
  | projection hp => exact .cons (.projection hp) .nil
  | clientJoin hp ho hi =>
    exact List.rel_append (matches_exprs ho) (.cons (.projection hp) (matches_exprs hi))
  | command h => exact matches_exprs h

theorem Select.Akin.exprs {s s' : Select Expr} (h : s.Akin Q s') :
    List.Forall₂ Q s.exprs s'.exprs := by
  have orders := List.forall₂_map_left_iff.mpr (List.forall₂_map_right_iff.mpr
    (h.orderBy.imp fun _ _ h => h.2))
  have columns := List.forall₂_map_left_iff.mpr (List.forall₂_map_right_iff.mpr
    (h.columns.imp fun _ _ h => h.2))
  exact List.rel_append (List.rel_append (List.rel_append (List.rel_append (List.rel_append
    (List.rel_append (forall₂_toList h.source) (forall₂_toList h.filter)) orders) h.groupBy)
    (forall₂_toList h.skip)) (forall₂_toList h.take)) columns

theorem Select.Shaped.exprs {s s' : Select Expr} (h : s.Shaped Q s') :
    List.Forall₂ Q s.exprs s'.exprs := h.akin.exprs

theorem Select.Shaped.parts {s s' : Select Expr} (h : s.Shaped Q s') :
    List.Forall₂ (Part.Matches Q (fun _ _ => False) fun _ _ => False) (Part.select s).parts
      (Part.select s').parts :=
  matches_exprs h.exprs

theorem Projection.Shaped.parts {p p' : Projection Expr} (h : p.Shaped Q QS p') :
    List.Forall₂ (Part.Matches Q QS fun _ _ => False) (Part.projection p).parts
      (Part.projection p').parts :=
  .cons (.select h.select) (.cons (.expr h.projector) .nil)

end Parts

theorem any_congr {α β : Type} {R : α → β → Prop} {as : List α} {bs : List β} {p : α → Bool}
    {q : β → Bool} (h : List.Forall₂ R as bs) (same : ∀ a b, R a b → p a = q b) :
    as.any p = bs.any q := by
  induction h with
  | nil => rfl
  | cons hab _ ih => rw [List.any_cons, List.any_cons, same _ _ hab, ih]

theorem any_mono {α β : Type} {R : α → β → Prop} {as : List α} {bs : List β} {p : α → Bool}
    {q : β → Bool} (h : List.Forall₂ R as bs) (sub : ∀ a b, R a b → p a = true → q b = true) :
    as.any p = true → bs.any q = true := by
  simp only [List.any_eq_true]
  rintro ⟨a, ha, hp⟩
  obtain ⟨b, hb, hab⟩ := exists_of_forall₂_right h.flip a ha
  exact ⟨b, hb, sub a b hab hp⟩

namespace Part

def isAggregate : Part → Bool
  | .expr (.aggregate ..) => true
  | _ => false

def aggregatesApart : Part → Bool
  | .expr (.aggregate ..) | .expr (.scalar _) | .expr (.existsIn _) | .expr (.inSelect ..)
  | .expr (.groupAggregate ..) | .expr (.select _) | .expr (.projection _) => true
  | _ => false

theorem gather_isEmpty {α : Type} (visit : Part → List α) (enters : Part → Bool) (p : Part) :
    (p.gather visit enters).isEmpty = ((visit p).isEmpty
      && (!enters p || p.parts.all fun q => (q.gather visit enters).isEmpty)) := by
  rw [gather, Bool.eq_iff_iff]
  cases enters p <;> simp

theorem aggregates_eq (p : Part) :
    p.aggregates = (p.isAggregate || (!p.aggregatesApart && p.parts.any aggregates)) := by
  have under : p.parts.any aggregates = !p.parts.all fun q => !q.aggregates := by
    simp [List.any_eq_not_all_not]
  rw [aggregates, gather_isEmpty, under]
  cases p with
  | select s => simp [isAggregate, aggregatesApart, aggregates]
  | projection p => simp [isAggregate, aggregatesApart, aggregates]
  | expr e => cases e <;> simp [isAggregate, aggregatesApart, aggregates]

theorem aggregates_mono {p p' : Part} (head : p.isAggregate = p'.isAggregate)
    (apart : p.aggregatesApart = p'.aggregatesApart)
    (parts : ∀ q ∈ p.parts, q.aggregates = true → ∃ q' ∈ p'.parts, q'.aggregates = true)
    (h : p.aggregates = true) : p'.aggregates = true := by
  rw [aggregates_eq, ← head, ← apart]
  rw [aggregates_eq] at h
  simp only [Bool.or_eq_true, Bool.and_eq_true, List.any_eq_true] at h ⊢
  refine h.imp id fun ⟨within, q, hq, under⟩ => ⟨within, parts q hq under⟩

theorem aggregates_congr {p p' : Part} (head : p.isAggregate = p'.isAggregate)
    (apart : p.aggregatesApart = p'.aggregatesApart)
    (parts : List.Forall₂ (fun q q' => q.aggregates = q'.aggregates) p.parts p'.parts) :
    p.aggregates = p'.aggregates := by
  rw [aggregates_eq, aggregates_eq, head, apart, any_congr parts fun _ _ h => h]

end Part

section Aggregates

variable {Q : Expr → Expr → Prop} {QS : Select Expr → Select Expr → Prop}
  {QP : Projection Expr → Projection Expr → Prop}

theorem Expr.Shaped.isAggregate {e e' : Expr} (h : e.Shaped Q QS QP e') :
    (Part.expr e).isAggregate = (Part.expr e').isAggregate := by
  cases h <;> rfl

theorem Expr.Shaped.aggregatesApart {e e' : Expr} (h : e.Shaped Q QS QP e') :
    (Part.expr e).aggregatesApart = (Part.expr e').aggregatesApart := by
  cases h <;> rfl

theorem Expr.Shaped.aggregates {e e' : Expr} (h : e.Shaped Q QS QP e')
    (parts : ∀ p p', Part.Matches Q QS QP p p' → p.aggregates = p'.aggregates) :
    (Part.expr e).aggregates = (Part.expr e').aggregates :=
  Part.aggregates_congr h.isAggregate h.aggregatesApart (h.parts.imp parts)

theorem Expr.Shaped.aggregates_mono {e e' : Expr} (h : e.Shaped Q QS QP e')
    (parts : ∀ p p', Part.Matches Q QS QP p p' → p.aggregates = true → p'.aggregates = true) :
    (Part.expr e).aggregates = true → (Part.expr e').aggregates = true :=
  Part.aggregates_mono h.isAggregate h.aggregatesApart fun q hq under => by
    obtain ⟨q', hq', hm⟩ := exists_of_forall₂_right h.parts.flip q hq
    exact ⟨q', hq', parts q q' hm under⟩

theorem Select.Shaped.aggregates {s s' : Select Expr} (h : s.Shaped Q s')
    (parts : ∀ c c', Q c c' → (Part.expr c).aggregates = (Part.expr c').aggregates) :
    (Part.select s).aggregates = (Part.select s').aggregates := by
  refine Part.aggregates_congr rfl rfl ?_
  exact List.forall₂_map_left_iff.mpr (List.forall₂_map_right_iff.mpr (h.exprs.imp parts))

theorem Select.Shaped.aggregates_mono {s s' : Select Expr} (h : s.Shaped Q s')
    (parts : ∀ c c', Q c c' → (Part.expr c).aggregates = true → (Part.expr c').aggregates = true) :
    (Part.select s).aggregates = true → (Part.select s').aggregates = true :=
  Part.aggregates_mono rfl rfl fun q hq under => by
    obtain ⟨c, hc, rfl⟩ := List.mem_map.mp hq
    obtain ⟨c', hc', hQ⟩ := exists_of_forall₂_right h.exprs.flip c hc
    exact ⟨_, List.mem_map_of_mem hc', parts c c' hQ under⟩

theorem Projection.Shaped.aggregates {p p' : Projection Expr} (h : p.Shaped Q QS p')
    (parts : ∀ q q', Part.Matches Q QS (fun _ _ => False) q q' → q.aggregates = q'.aggregates) :
    (Part.projection p).aggregates = (Part.projection p').aggregates :=
  Part.aggregates_congr rfl rfl (h.parts.imp parts)

def Select.computing (s : Select Expr) : List Expr :=
  s.filter.toList ++ s.orderBy.map (·.expr) ++ s.columns.map (·.expr)

theorem Select.hasAggregates_eq (s : Select Expr) :
    s.hasAggregates = s.computing.any fun e => (Part.expr e).aggregates := by
  rw [hasAggregates, computing, List.any_append, List.any_append, List.any_map, List.any_map]
  cases s.filter <;> simp [Function.comp_def]

theorem Select.AkinClauses.computing {s s' : Select Expr} (h : s.AkinClauses Q s') :
    List.Forall₂ Q s.computing s'.computing := by
  have orders := List.forall₂_map_left_iff.mpr (List.forall₂_map_right_iff.mpr
    (h.orderBy.imp fun _ _ h => h.2))
  have columns := List.forall₂_map_left_iff.mpr (List.forall₂_map_right_iff.mpr
    (h.columns.imp fun _ _ h => h.2))
  exact List.rel_append (List.rel_append (forall₂_toList h.filter) orders) columns

theorem Select.AkinClauses.hasAggregates {s s' : Select Expr} (h : s.AkinClauses Q s')
    (parts : ∀ c ∈ s.computing, ∀ c', Q c c' → (Part.expr c).aggregates = (Part.expr c').aggregates) :
    s.hasAggregates = s'.hasAggregates := by
  rw [hasAggregates_eq, hasAggregates_eq]
  exact any_congr (forall₂_imp_mem h.computing parts) fun _ _ h => h

theorem Select.Shaped.hasAggregates {s s' : Select Expr} (h : s.Shaped Q s')
    (parts : ∀ c c', Q c c' → (Part.expr c).aggregates = (Part.expr c').aggregates) :
    s.hasAggregates = s'.hasAggregates := h.akin.hasAggregates fun c _ => parts c

theorem Select.Shaped.hasAggregates_mono {s s' : Select Expr} (h : s.Shaped Q s')
    (parts : ∀ c c', Q c c' → (Part.expr c).aggregates = true → (Part.expr c').aggregates = true) :
    s.hasAggregates = true → s'.hasAggregates = true := by
  rw [hasAggregates_eq, hasAggregates_eq]
  exact any_mono h.akin.computing parts

end Aggregates

def Part.Groupless : Part → Prop
  | .expr (.groupAggregate _ _ _ _) => False
  | _ => True

def Part.Unjoined : Part → Prop
  | .expr (.clientJoin _ _ _) => False
  | _ => True

/-- A node that declares only aliases in `D` and reads only those in `R`, and is no float, query
operator, command, row number or aggregate of a group. Aggregates stand only where a select sees them
as its own: no subquery is asked for one, and no page is counted by one. -/
def Part.Tame (D R : Alias → Prop) : Part → Prop
  | .expr (.const v) => v.Exact
  | .expr (.column c) => R c.rel
  | .expr (.table t) => D t.rel
  | .expr (.setOp rel _ _ _) => D rel
  | .expr (.inSelect item _) => (Part.expr item).aggregates = false
  | .expr (.operator _) | .expr (.command _) | .expr (.rowNumber _)
  | .expr (.groupAggregate _ _ _ _) => False
  | .select s => D s.rel
    ∧ ∀ e ∈ s.skip.toList ++ s.take.toList, (Part.expr e).aggregates = false
  | _ => True

section Tame

variable {D R : Alias → Prop}

/-- An aggregate that a node's part computes is one of the node. -/
theorem Part.Tame.aggregates_of_part {e c : Expr} (tame : Part.Tame D R (.expr e))
    (hc : Part.expr c ∈ (Part.expr e).parts) (h : (Part.expr c).aggregates = true) :
    (Part.expr e).aggregates = true := by
  have under : (Part.expr e).parts.any aggregates = true := List.any_eq_true.mpr ⟨_, hc, h⟩
  rw [aggregates_eq, under]
  cases e with
  | groupAggregate _ _ _ _ => exact tame.elim
  | inSelect item s =>
    simp only [Part.parts, List.mem_cons, Part.expr.injEq, reduceCtorEq, List.not_mem_nil,
      or_false] at hc
    rw [hc, show (Part.expr item).aggregates = false from tame] at h
    cases h
  | select _ | scalar _ | existsIn _ | projection _ => simp [Part.parts] at hc
  | _ => simp [isAggregate, aggregatesApart]

/-- A tame tree declares what it may declare. -/
theorem Part.Every.declared {p : Part} (h : p.Every (Tame D R)) : ∀ a ∈ p.declared, D a := by
  refine of_mem_gather (h.mono fun q hq a ha => ?_)
  split at ha
  · rw [List.mem_singleton.mp ha]
    exact hq
  · rw [List.mem_singleton.mp ha]
    exact hq
  · rw [List.mem_singleton.mp ha]
    exact hq.1
  · cases ha

/-- A tame tree reads what it may read. -/
theorem Part.Every.reads {p : Part} (h : p.Every (Tame D R)) : ∀ c ∈ p.columnRefs, R c.rel := by
  refine of_mem_gather (h.mono fun q hq a ha => ?_)
  split at ha
  · rw [List.mem_singleton.mp ha]
    exact hq
  · cases ha

theorem Part.declared_subset {p q : Part} (h : q ∈ p.parts) : q.declared ⊆ p.declared :=
  fun _ ha => mem_gather.mpr (.inr ⟨q, h, ha⟩)

theorem Part.columnRefs_subset {p q : Part} (h : q ∈ p.parts) : q.columnRefs ⊆ p.columnRefs :=
  fun _ ha => mem_gather.mpr (.inr ⟨q, h, ha⟩)

theorem Part.declared_sublist {p q : Part} (h : q ∈ p.parts) : q.declared.Sublist p.declared := by
  rw [declared, declared, gather_eq _ p]
  exact (List.sublist_flatten_of_mem (List.mem_map.mpr ⟨q, h, rfl⟩)).trans
    (List.sublist_append_right _ _)

/-- What a source makes visible is declared in it. -/
theorem Part.declares_subset_declared : (e : Expr) → e.declares ⊆ (Part.expr e).declared
  | .select s => fun a ha => by
    rw [List.mem_singleton.mp ha]
    exact declared_subset (q := .select s) (by simp [parts]) (mem_gather.mpr (.inl (by simp)))
  | .table t => fun a ha => mem_gather.mpr (.inl ha)
  | .setOp _ _ _ _ => fun a ha => mem_gather.mpr (.inl ha)
  | .join _ left right _ => fun a ha => by
    rcases List.mem_append.mp ha with ha | ha
    · exact declared_subset (by simp [parts]) (declares_subset_declared left ha)
    · exact declared_subset (by simp [parts]) (declares_subset_declared right ha)
  | .const _ | .param _ | .member _ _ | .binary _ _ _ | .unary _ _ | .cond _ _ _ | .call _ _
  | .construct _ _ | .lambda _ | .operator _ | .column _ | .aggregate _ _ _
  | .groupAggregate _ _ _ _ | .scalar _ | .existsIn _ | .inSelect _ _ | .inValues _ _ | .isNull _
  | .between _ _ _ | .rowNumber _ | .projection _ | .clientJoin _ _ _ | .entity _ _
  | .outerJoined _ _ | .grouping _ _ | .command _ => fun _ ha => by simp [Expr.declares] at ha

theorem Part.sourceAliases_subset_declared (s : Select Expr) :
    s.sourceAliases ⊆ (Part.select s).declared := by
  intro a ha
  rw [Select.sourceAliases] at ha
  cases hs : s.source with
  | none => simp [hs] at ha
  | some e =>
    rw [hs] at ha
    exact declared_subset (Select.source_mem hs) (declares_subset_declared e ha)

theorem Part.Tame.names {D' R' : Alias → Prop} {p : Part} (h : Tame D R p)
    (declared : ∀ a ∈ p.declared, D' a) (reads : ∀ c ∈ p.columnRefs, R' c.rel) : Tame D' R' p := by
  have own : ∀ a ∈ p.binds, D' a := fun a ha => declared a (p.binds_subset ha)
  cases p with
  | select s => exact ⟨own s.rel (by simp [binds]), h.2⟩
  | projection p => trivial
  | expr e =>
    cases e with
    | column c => exact reads c (mem_gather.mpr (.inl (by simp)))
    | table t => exact own t.rel (by simp [binds])
    | setOp rel kind s t => exact own rel (by simp [binds])
    | _ => exact h

/-- It matters only which aliases a tree does declare and read. -/
theorem Part.Every.names {D' R' : Alias → Prop} {p : Part} (h : p.Every (Tame D R))
    (declared : ∀ a ∈ p.declared, D' a) (reads : ∀ c ∈ p.columnRefs, R' c.rel) :
    p.Every (Tame D' R') := by
  induction h with
  | node here _ ih =>
    exact .node (here.names declared reads) fun q hq => ih q hq
      (fun a ha => declared a (declared_subset hq ha)) fun c hc => reads c (columnRefs_subset hq hc)

section Shaped

variable {Q : Expr → Expr → Prop} {QS : Select Expr → Select Expr → Prop}
  {QP : Projection Expr → Projection Expr → Prop}

theorem Expr.Shaped.tame {e e' : Expr} (h : e.Shaped Q QS QP e') (tame : Part.Tame D R (.expr e))
    (aggregates : ∀ c c', Q c c' → (Part.expr c).aggregates = (Part.expr c').aggregates) :
    Part.Tame D R (.expr e') := by
  cases h with
  | inSelect ha _ => exact (aggregates _ _ ha).symm.trans tame
  | command _ => exact tame.elim
  | rowNumber _ => exact tame.elim
  | _ => exact tame

theorem Select.Shaped.tame {s s' : Select Expr} (h : s.Shaped Q s') (tame : Part.Tame D R (.select s))
    (aggregates : ∀ c c', Q c c' → (Part.expr c).aggregates = (Part.expr c').aggregates) :
    Part.Tame D R (.select s') := by
  refine ⟨h.rel ▸ tame.1, fun e' he' => ?_⟩
  obtain ⟨e, he, hQ⟩ := exists_of_forall₂_right
    (List.rel_append (forall₂_toList h.skip) (forall₂_toList h.take)) e' he'
  rw [← aggregates e e' hQ]
  exact tame.2 e he

theorem Expr.Shaped.unjoined {e e' : Expr} (h : e.Shaped Q QS QP e') (unjoined : Part.Unjoined (.expr e)) :
    Part.Unjoined (.expr e') := by
  cases h <;> exact unjoined

/-- What holds at a node and everywhere under related parts holds everywhere. -/
theorem Part.Every.of_matches {P : Part → Prop} {p p' : Part} (here : P p')
    (parts : List.Forall₂ (Part.Matches Q QS QP) p.parts p'.parts)
    (hQ : ∀ c c', Q c c' → Every P (.expr c')) (hQS : ∀ s s', QS s s' → Every P (.select s'))
    (hQP : ∀ p p', QP p p' → Every P (.projection p')) : Every P p' := by
  refine .node here fun q' hq' => ?_
  obtain ⟨q, -, h⟩ := exists_of_forall₂_right parts q' hq'
  cases h with
  | expr h => exact hQ _ _ h
  | select h => exact hQS _ _ h
  | projection h => exact hQP _ _ h

end Shaped

end Tame

/-- A node without floats that is no query operator and no command: what compares equal to it is the
same. -/
def Part.Exact : Part → Prop
  | .expr (.const v) => v.Exact
  | .expr (.operator _) | .expr (.command _) => False
  | _ => True

theorem Part.Tame.exact {D R : Alias → Prop} {p : Part} (h : p.Tame D R) : p.Exact := by
  cases p with
  | select _ | projection _ => trivial
  | expr e =>
    cases e with
    | const _ => exact h
    | operator _ | command _ => exact h.elim
    | _ => trivial

section Same

theorem forall₂_of_sameExprs {as bs : List Expr} (h : sameExprs as bs = true) :
    List.Forall₂ (fun a b => a.same b = true) as bs := by
  induction as generalizing bs with
  | nil =>
    cases bs with
    | nil => exact .nil
    | cons b bs => simp [sameExprs] at h
  | cons a as ih =>
    cases bs with
    | nil => simp [sameExprs] at h
    | cons b bs =>
      simp only [sameExprs, Bool.and_eq_true] at h
      exact .cons h.1 (ih h.2)

theorem forall₂_of_sameFields {as bs : List (Field Expr)} (h : sameFields as bs = true) :
    List.Forall₂ (fun a b => a.name = b.name ∧ a.expr.same b.expr = true) as bs := by
  induction as generalizing bs with
  | nil =>
    cases bs with
    | nil => exact .nil
    | cons b bs => simp [sameFields] at h
  | cons a as ih =>
    cases bs with
    | nil => simp [sameFields] at h
    | cons b bs =>
      simp only [sameFields, Bool.and_eq_true, beq_iff_eq] at h
      exact .cons h.1 (ih h.2)

theorem forall₂_of_sameOrders {as bs : List (Order Expr)} (h : sameOrders as bs = true) :
    List.Forall₂ (fun a b => a.direction = b.direction ∧ a.expr.same b.expr = true) as bs := by
  induction as generalizing bs with
  | nil =>
    cases bs with
    | nil => exact .nil
    | cons b bs => simp [sameOrders] at h
  | cons a as ih =>
    cases bs with
    | nil => simp [sameOrders] at h
    | cons b bs =>
      simp only [sameOrders, Bool.and_eq_true, beq_iff_eq] at h
      exact .cons h.1 (ih h.2)

theorem forall₂_of_sameColumns {as bs : List (ColumnDecl Expr)} (h : sameColumns as bs = true) :
    List.Forall₂ (fun a b => a.name = b.name ∧ a.type = b.type ∧ a.expr.same b.expr = true) as bs := by
  induction as generalizing bs with
  | nil =>
    cases bs with
    | nil => exact .nil
    | cons b bs => simp [sameColumns] at h
  | cons a as ih =>
    cases bs with
    | nil => simp [sameColumns] at h
    | cons b bs =>
      simp only [sameColumns, Bool.and_eq_true, beq_iff_eq] at h
      exact .cons ⟨h.1.1.1, h.1.2, h.1.1.2⟩ (ih h.2)

theorem optionRel_of_sameOption {a b : Option Expr} (h : sameOption a b = true) :
    Option.Rel (fun a b => a.same b = true) a b := by
  cases a with
  | none =>
    cases b with
    | none => exact .none
    | some b => simp [sameOption] at h
  | some a =>
    cases b with
    | none => simp [sameOption] at h
    | some b => exact .some h

/-- Trees that compare equal have the same shape. -/
theorem Expr.shaped_of_same {e e' : Expr} (exact : Part.Exact (.expr e')) (same : e.same e' = true) :
    e.Shaped (fun a b => a.same b = true) (fun s t => sameSelect s t = true)
      (fun p q => sameProjection p q = true) e' := by
  unfold Expr.same at same
  split at same
  -- One case for each kind of node, in the order of the comparison.
  · rw [(show Value.Exact _ from exact).eq_of_same_right same]
    exact .const _
  · rw [beq_iff_eq.mp same]
    exact .param _
  · simp only [Bool.and_eq_true, beq_iff_eq] at same
    rw [same.2]
    exact .member _ same.1
  · simp only [Bool.and_eq_true, beq_iff_eq] at same
    rw [same.1.1]
    exact .binary _ same.1.2 same.2
  · simp only [Bool.and_eq_true, beq_iff_eq] at same
    rw [same.1]
    exact .unary _ same.2
  · simp only [Bool.and_eq_true] at same
    exact .cond same.1.1 same.1.2 same.2
  · simp only [Bool.and_eq_true, beq_iff_eq] at same
    rw [same.1]
    exact .call _ (forall₂_of_sameExprs same.2)
  · simp only [Bool.and_eq_true, beq_iff_eq] at same
    rw [same.1]
    exact .construct _ (forall₂_of_sameFields same.2)
  · rename_i l l'
    obtain ⟨ps, a⟩ := l
    obtain ⟨ps', a'⟩ := l'
    simp only [sameLambda, Bool.and_eq_true, beq_iff_eq] at same
    rw [same.1]
    exact .lambda _ same.2
  · exact exact.elim
  · rw [beq_iff_eq.mp same]
    exact .table _
  · rw [beq_iff_eq.mp same]
    exact .column _
  · exact .select same
  · simp only [Bool.and_eq_true, beq_iff_eq] at same
    rw [same.1.1.1]
    exact .join _ same.1.1.2 same.1.2 (optionRel_of_sameOption same.2)
  · simp only [Bool.and_eq_true, beq_iff_eq] at same
    rw [same.1.1.1, same.1.1.2]
    exact .setOp _ _ same.1.2 same.2
  · simp only [Bool.and_eq_true, beq_iff_eq] at same
    rw [same.1.1, same.2]
    exact .aggregate _ _ (optionRel_of_sameOption same.1.2)
  · simp only [Bool.and_eq_true, beq_iff_eq] at same
    rw [same.1.1.1, same.1.1.2]
    exact .groupAggregate _ _ same.1.2 same.2
  · exact .scalar same
  · exact .existsIn same
  · simp only [Bool.and_eq_true] at same
    exact .inSelect same.1 same.2
  · simp only [Bool.and_eq_true] at same
    exact .inValues same.1 (forall₂_of_sameExprs same.2)
  · exact .isNull same
  · simp only [Bool.and_eq_true] at same
    exact .between same.1.1 same.1.2 same.2
  · exact .rowNumber (forall₂_of_sameOrders same)
  · exact .projection same
  · simp only [Bool.and_eq_true] at same
    exact .clientJoin same.1.1 (forall₂_of_sameExprs same.1.2) (forall₂_of_sameExprs same.2)
  · simp only [Bool.and_eq_true, beq_iff_eq] at same
    rw [same.1]
    exact .entity _ same.2
  · simp only [Bool.and_eq_true] at same
    exact .outerJoined same.1 same.2
  · simp only [Bool.and_eq_true] at same
    exact .grouping same.1 same.2
  · exact exact.elim
  · cases same

theorem Select.shaped_of_same {s s' : Select Expr} (same : sameSelect s s' = true) :
    s.Shaped (fun a b => a.same b = true) s' := by
  cases s
  cases s'
  simp only [sameSelect, Bool.and_eq_true, beq_iff_eq] at same
  obtain ⟨⟨⟨⟨⟨⟨⟨⟨⟨rel, columns⟩, source⟩, filter⟩, orders⟩, groups⟩, distinct⟩, skip⟩, take⟩, reversed⟩ :=
    same
  exact ⟨rel, forall₂_of_sameColumns columns, optionRel_of_sameOption source,
    optionRel_of_sameOption filter, forall₂_of_sameOrders orders, forall₂_of_sameExprs groups,
    distinct, optionRel_of_sameOption skip, optionRel_of_sameOption take, reversed⟩

def Part.same : Part → Part → Bool
  | .expr e, .expr e' => e.same e'
  | .select s, .select s' => sameSelect s s'
  | .projection p, .projection p' => sameProjection p p'
  | _, _ => false

/-- What compares equal to an exact node is that node, if this holds of its parts. -/
theorem Part.eq_of_same_parts {p' : Part} (exact : p'.Exact)
    (parts : ∀ q' ∈ p'.parts, ∀ q, q.same q' = true → q = q') (p : Part) (same : p.same p' = true) :
    p = p' := by
  cases p' with
  | expr e' =>
    cases p <;> simp only [Part.same, Bool.false_eq_true] at same
    have shaped : e'.Shaped Eq Eq Eq _ := (Expr.shaped_of_same exact same).flip.imp
      (fun c c' hc h => (Part.expr.inj (parts (.expr c) hc (.expr c') h)).symm)
      (fun s s' hs h => (Part.select.inj (parts (.select s) hs (.select s') h)).symm)
      fun p p' hp h => (Part.projection.inj (parts (.projection p) hp (.projection p') h)).symm
    rw [shaped.eq]
    rintro c rfl
    exact exact
  | select s' =>
    cases p <;> simp only [Part.same, Bool.false_eq_true] at same
    have shaped : s'.Shaped Eq _ := (Select.shaped_of_same same).flip.imp fun c c' hc h =>
      (Part.expr.inj (parts (.expr c) hc (.expr c') h)).symm
    rw [shaped.eq]
  | projection p' =>
    cases p with
    | projection p =>
      obtain ⟨s, e, pick⟩ := p
      obtain ⟨s', e', pick'⟩ := p'
      simp only [Part.same, sameProjection, Bool.and_eq_true, beq_iff_eq] at same
      have hs := Part.select.inj (parts (.select s') (by simp [Part.parts]) (.select s) same.1.1)
      have he := Part.expr.inj (parts (.expr e') (by simp [Part.parts]) (.expr e) same.1.2)
      rw [hs, he, same.2]
    | _ => cases same

/-- What compares equal to an exact tree is that tree. -/
theorem Part.Every.eq_of_same {p' : Part} (exact : p'.Every Part.Exact) :
    ∀ p, p.same p' = true → p = p' := by
  induction exact with
  | node here _ ih => exact eq_of_same_parts here ih

theorem Expr.eq_of_same {e e' : Expr} (exact : (Part.expr e').Every Part.Exact)
    (same : e.same e' = true) : e = e' :=
  Part.expr.inj (exact.eq_of_same (.expr e) same)

theorem forall₂_of_sameAssignments {as bs : List (Assignment Expr)}
    (h : sameAssignments as bs = true) :
    List.Forall₂ (fun a b => a.same b = true) (as.map (·.expr)) (bs.map (·.expr)) := by
  induction as generalizing bs with
  | nil =>
    cases bs with
    | nil => exact .nil
    | cons b bs => simp [sameAssignments] at h
  | cons a as ih =>
    cases bs with
    | nil => simp [sameAssignments] at h
    | cons b bs =>
      simp only [sameAssignments, Bool.and_eq_true] at h
      exact .cons h.1.2 (ih h.2)

/-- Commands that compare equal hold expressions that do. -/
theorem Command.forall₂_of_same : (c : Command Expr) → {c' : Command Expr} → sameCommand c c' = true →
    List.Forall₂ (fun a b => a.same b = true) c.exprs c'.exprs
  | .insert _ _, c', h => by
    cases c' <;> simp only [sameCommand, Bool.and_eq_true, Bool.false_eq_true] at h
    exact forall₂_of_sameAssignments h.2
  | .update _ _ _, c', h => by
    cases c' <;> simp only [sameCommand, Bool.and_eq_true, Bool.false_eq_true] at h
    exact .cons h.1.2 (forall₂_of_sameAssignments h.2)
  | .delete _ _, c', h => by
    cases c' <;> simp only [sameCommand, Bool.and_eq_true, Bool.false_eq_true] at h
    exact forall₂_toList (optionRel_of_sameOption h.2)
  | .conditional _ onTrue none, c', h => by
    cases c' <;> simp only [sameCommand, Bool.and_eq_true, Bool.false_eq_true] at h
    rename_i onFalse
    cases onFalse <;> simp only [sameCommandOption, Bool.false_eq_true, and_false, and_true] at h
    exact .cons h.1 (List.rel_append (forall₂_of_same onTrue h.2) .nil)
  | .conditional _ onTrue (some onFalse), c', h => by
    cases c' <;> simp only [sameCommand, Bool.and_eq_true, Bool.false_eq_true] at h
    rename_i onFalse'
    cases onFalse' <;> simp only [sameCommandOption, Bool.false_eq_true, and_false] at h
    exact .cons h.1.1 (List.rel_append (forall₂_of_same onTrue h.1.2) (forall₂_of_same onFalse h.2))
  | .batch _ _ operation, c', h => by
    cases c' <;> simp only [sameCommand, Bool.and_eq_true, Bool.false_eq_true] at h
    exact List.rel_append (forall₂_of_sameExprs h.1.2) (forall₂_of_same operation h.2)

/-- Nodes that compare equal have parts that do, floats or not. -/
theorem Part.parts_of_same {p p' : Part} (same : p.same p' = true) :
    p.isAggregate = p'.isAggregate ∧ p.aggregatesApart = p'.aggregatesApart
      ∧ List.Forall₂ (fun q q' => q.same q' = true) p.parts p'.parts := by
  have exprs : ∀ {es es' : List Expr}, List.Forall₂ (fun a b => a.same b = true) es es' →
      List.Forall₂ (fun q q' => q.same q' = true) (es.map Part.expr) (es'.map Part.expr) :=
    fun h => List.forall₂_map_left_iff.mpr (List.forall₂_map_right_iff.mpr h)
  cases p with
  | select s =>
    cases p' <;> simp only [Part.same, Bool.false_eq_true] at same
    exact ⟨rfl, rfl, exprs (Select.shaped_of_same same).exprs⟩
  | projection p =>
    cases p' <;> simp only [Part.same, Bool.false_eq_true] at same
    rename_i p'
    cases p
    cases p'
    simp only [sameProjection, Bool.and_eq_true] at same
    exact ⟨rfl, rfl, .cons same.1.1 (.cons same.1.2 .nil)⟩
  | expr e =>
    cases p' <;> simp only [Part.same, Bool.false_eq_true] at same
    rename_i e'
    by_cases exact : Part.Exact (.expr e')
    · have shaped := Expr.shaped_of_same exact same
      refine ⟨shaped.isAggregate, shaped.aggregatesApart, shaped.parts.imp fun q q' h => ?_⟩
      cases h with
      | expr h => exact h
      | select h => exact h
      | projection h => exact h
    · cases e' with
      | const _ | operator _ =>
        cases e <;> simp only [Expr.same, Bool.false_eq_true] at same
        exact ⟨rfl, rfl, .nil⟩
      | command c' =>
        cases e <;> simp only [Expr.same, Bool.false_eq_true] at same
        exact ⟨rfl, rfl, exprs (Command.forall₂_of_same _ same)⟩
      | _ => exact absurd trivial exact

/-- Trees that compare equal compute aggregates alike. -/
theorem Part.aggregates_of_same {p p' : Part} (same : p.same p' = true) :
    p.aggregates = p'.aggregates := by
  obtain ⟨head, apart, parts⟩ := parts_of_same same
  refine aggregates_congr head apart (forall₂_imp_mem parts fun q hq q' h => ?_)
  exact aggregates_of_same h
termination_by p.weight
decreasing_by exact weight_lt hq

end Same

namespace Plain

variable {members : Prop} {P : Column → Prop} {e : Expr}

/-- What holds of every plain expression holds everywhere in one. -/
theorem every {X : Part → Prop} (here : ∀ e, Plain members P e → X (.expr e)) {e : Expr}
    (h : Plain members P e) : (Part.expr e).Every X := by
  refine .node (here e h) fun q hq => ?_
  obtain ⟨c, rfl, plain⟩ := h.exprs_of_mem hq
  exact every here plain
termination_by (Part.expr e).weight
decreasing_by exact Part.weight_lt hq

theorem exact (h : Plain members P e) : (Part.expr e).Every Part.Exact := by
  refine every (fun e plain => ?_) h
  cases plain with
  | const exact => exact exact
  | _ => trivial

theorem unjoined (h : Plain members P e) : (Part.expr e).Every Part.Unjoined := by
  refine every (fun e plain => ?_) h
  cases plain <;> trivial

/-- A plain expression declares nothing, and reads what its columns read. -/
theorem tame {D R : Alias → Prop} (h : Plain members P e) (reads : ∀ c, P c → R c.rel) :
    (Part.expr e).Every (Part.Tame D R) := by
  refine every (fun e plain => ?_) h
  cases plain with
  | const exact => exact exact
  | column hc => exact reads _ hc
  | _ => trivial

end Plain

end ObjectQuery
