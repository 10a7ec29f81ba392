import ObjectQuery.Proofs.Groupings

/-!
Totals of the groups of a table. Every use of a group is a copy of it, with elements of its own. An
aggregate over the elements is bound twice: as an expression over the rows of the select that groups,
and as a select over the copy of the elements.
-/

namespace ObjectQuery

open Eval

namespace Part

def Tabular (D R : Alias → Prop) : Part → Prop
  | .select s => D s.rel
  | .expr (.table t) => D t.rel
  | .expr (.column c) => R c.rel
  | .projection _ | .expr (.select _) | .expr (.projection _) | .expr (.binary ..) | .expr (.isNull _)
  | .expr (.entity ..) | .expr (.construct ..) | .expr (.grouping ..) | .expr (.aggregate ..) => True
  | _ => False

theorem Copied.of_tabular {D R : Alias → Prop} {p : Part} (h : p.Tabular D R) : p.Copied := by
  cases p with
  | expr e => cases e <;> first | exact h.elim | exact ⟨trivial, trivial⟩
  | _ => exact ⟨trivial, trivial⟩

theorem Every.refs {D R : Alias → Prop} {p : Part} (h : p.Every (Tabular D R)) :
    ∀ c ∈ p.columnRefs, R c.rel := by
  refine of_mem_gather (h.mono fun q hq c hc => ?_)
  split at hc
  · rw [List.mem_singleton.mp hc]
    exact hq
  · cases hc

variable {P : Part → Prop} {a b : Expr}

theorem every_binary {op : BinaryOp} (here : P (.expr (.binary op a b))) (left : (Part.expr a).Every P)
    (right : (Part.expr b).Every P) : (Part.expr (.binary op a b)).Every P :=
  .node here (by simp [parts, left, right])

theorem every_isNull (here : P (.expr (.isNull a))) (operand : (Part.expr a).Every P) :
    (Part.expr (.isNull a)).Every P :=
  .node here (by simp [parts, operand])

theorem declared_binary (op : BinaryOp) (a b : Expr) : (Part.expr (.binary op a b)).declared
    = (Part.expr a).declared ++ (Part.expr b).declared := by
  rw [declared_eq]
  simp [binds, parts]

theorem declared_isNull (a : Expr) : (Part.expr (.isNull a)).declared = (Part.expr a).declared := by
  rw [declared_eq]
  simp [binds, parts]

end Part

namespace NullTest

variable {k : Slot} {rel g : Alias} {marks : List (ColumnDecl Expr)} {test : Expr}

theorem every_test (h : NullTest k rel g marks test) {D R : Alias → Prop} (reads : R g) :
    (Part.expr test).Every (Part.Tabular D R) := by
  cases h
  · exact Part.every_isNull trivial (Part.every_column reads)
  · exact Part.every_column reads

theorem every_marks (h : NullTest k rel g marks test) {D R : Alias → Prop} (reads : R rel) :
    ∀ d ∈ marks, (Part.expr d.expr).Every (Part.Tabular D R) := by
  cases h
  · simp
  · simpa using Part.every_isNull trivial (Part.every_column reads)

theorem declared_test (h : NullTest k rel g marks test) : (Part.expr test).declared = [] := by
  cases h
  · rw [Part.declared_isNull, Part.declared_column]
  · exact Part.declared_column _

/-- Whether a key is null is asked of the select that groups, and of no other one. -/
theorem realias_test (h : NullTest k rel g marks test) {f : Alias → Alias} (keeps : f g = g) :
    test.realias f = test := by
  cases h <;> simp [Slot.ref, keeps]

end NullTest

namespace Mapping.Entity

structure Grouping (e : Entity) where
  key : Slot
  stored : Alias
  rel : Alias
  owner : Alias
  elements : Alias
  source : Alias
  table : Alias
  marks : List (ColumnDecl Expr)
  test : Expr
  nullTest : NullTest key rel owner marks test
  apart : [owner, stored, rel, elements, source, table].Nodup

namespace Grouping

variable {e : Entity} (G : e.Grouping)

def keys : Select Expr := e.grouped G.key G.owner G.rel G.stored G.marks

def shape (elements source table : Alias) : Expr := e.group G.key G.owner G.test elements source table

def origin : GroupSource := ⟨G.owner, .record e.name G.rel e.seen, G.elements⟩

theorem every_elements {D R : Alias → Prop} {elements source table : Alias}
    (declares : ∀ a ∈ [elements, source, table], D a) (reads : ∀ a ∈ [G.owner, elements, source, table], R a) :
    (Part.projection (e.elements G.key G.owner G.test elements source table)).Every (Part.Tabular D R) := by
  have rows : (Part.projection (e.rows source table)).Every (Part.Tabular D R) :=
    e.every_rows trivial (declares source (by simp)) (declares _ (by simp)) trivial trivial
      fun c hc => reads c.rel (by rcases hc with hc | hc <;> simp [hc])
  have inner : (Part.expr (.column (G.key.ref source))).Every (Part.Tabular D R) :=
    Part.every_column (reads _ (by simp [Slot.ref]))
  have key : (Part.expr (.column (G.key.ref G.owner))).Every (Part.Tabular D R) :=
    Part.every_column (reads _ (by simp [Slot.ref]))
  have condition : (Part.expr (.nullSafe (.column (G.key.ref source)) (.column (G.key.ref G.owner))
      G.test)).Every (Part.Tabular D R) :=
    Part.every_binary trivial (Part.every_binary trivial inner key) (Part.every_binary trivial
      (Part.every_isNull trivial inner) (G.nullTest.every_test (reads _ (by simp))))
  refine .node trivial fun q hq => ?_
  simp only [Part.parts, List.mem_cons, List.not_mem_nil, or_false] at hq
  rcases hq with rfl | rfl
  · refine Part.every_forwarding (declares elements (by simp))
      (fun c hc => reads c.rel (by simp [hc])) (.node trivial fun q hq => ?_) ?_
    · obtain rfl := List.mem_singleton.mp hq
      exact rows.part Projection.select_mem
    · rintro _ ⟨⟩
      exact condition
  · exact Part.every_record trivial trivial fun c hc => reads c.rel (by simp [hc])

theorem declared_select (elements source table : Alias) :
    (Part.select (e.elements G.key G.owner G.test elements source table).select).declared
      = [elements, source, table] := by
  have stored : (Part.expr (.table ⟨table, e.name, e.table⟩)).declared = [table] := by
    rw [Part.declared_eq]
    rfl
  have base : (Part.expr (.select (e.rows source table).select)).declared = [source, table] := by
    rw [Part.declared_eq]
    simp [Part.binds, Part.parts, rows, Part.declared_forwarding, stored]
  simp [Entity.elements, filtered, Part.declared_forwarding, base, Expr.nullSafe, Expr.either, Expr.both,
    Expr.equals, Part.declared_binary, Part.declared_isNull, Part.declared_column, G.nullTest.declared_test]

theorem declared_elements (elements source table : Alias) :
    (Part.projection (e.elements G.key G.owner G.test elements source table)).declared
      = [elements, source, table] := by
  have select := G.declared_select elements source table
  rw [Part.declared_eq]
  simp only [Part.binds, Part.parts, List.nil_append, List.flatMap_cons, List.flatMap_nil, select]
  simp [Entity.elements, filtered, Part.declared_record]

/-- Below the select of the keys, nothing is called what it is called. -/
theorem every_keys : ∀ p ∈ (Part.select G.keys).parts, p.Every (Part.Tabular (· ≠ G.owner) fun _ => True) := by
  obtain ⟨stored, rel⟩ : G.owner ≠ G.stored ∧ G.owner ≠ G.rel := by
    have apart := G.apart
    simp only [List.nodup_cons, List.mem_cons, not_or] at apart
    exact ⟨apart.1.1, apart.1.2.1⟩
  have rows : (Part.projection (e.rows G.rel G.stored)).Every (Part.Tabular (· ≠ G.owner) fun _ => True) :=
    e.every_rows trivial rel.symm stored.symm trivial trivial fun _ _ => trivial
  intro p hp
  obtain ⟨a, ha, rfl⟩ := List.mem_map.mp hp
  simp only [keys, grouped, Select.byKey, Select.exprs, Select.plain, Option.toList_some, Option.toList_none,
    List.map_nil, List.append_nil, List.map_cons, List.singleton_append, List.mem_append, List.mem_cons,
    List.not_mem_nil, or_false, List.mem_map] at ha
  rcases ha with (rfl | rfl) | rfl | ⟨d, hd, rfl⟩
  · exact .node trivial (by simpa [Part.parts] using rows.part Projection.select_mem)
  · exact Part.every_column trivial
  · exact Part.every_column trivial
  · exact G.nullTest.every_marks trivial d hd

theorem every_shape {D R : Alias → Prop} {elements source table : Alias}
    (declares : ∀ a ∈ [elements, source, table], D a) (reads : ∀ a ∈ [G.owner, elements, source, table], R a) :
    (Part.expr (G.shape elements source table)).Every (Part.Tabular D R) := by
  have key : (Part.expr (.column (G.key.ref G.owner))).Every (Part.Tabular D R) :=
    Part.every_column (reads _ (by simp [Slot.ref]))
  have relation : (Part.expr (.projection (e.elements G.key G.owner G.test elements source table))).Every
      (Part.Tabular D R) := .node trivial (by simpa [Part.parts] using G.every_elements declares reads)
  exact .node trivial (by simpa [shape, group, Part.parts] using ⟨key, relation⟩)

theorem declared_shape (elements source table : Alias) :
    (Part.expr (G.shape elements source table)).declared = [elements, source, table] := by
  have relation : (Part.expr (.projection (e.elements G.key G.owner G.test elements source table))).declared
      = [elements, source, table] := by
    rw [Part.declared_eq]
    simp [Part.binds, Part.parts, declared_elements]
  rw [Part.declared_eq]
  simp [Part.binds, Part.parts, shape, group, Part.declared_column, relation]

/-- Every copy of a group has elements of its own; the key is that of the same select. -/
theorem copy_run (n : Nat) : (G.shape G.elements G.source G.table).copyWithAliases.run ⟨n⟩
    = ((G.shape ⟨n⟩ ⟨n + 1⟩ ⟨n + 2⟩, [(G.elements, ⟨n⟩), (G.source, ⟨n + 1⟩), (G.table, ⟨n + 2⟩)]),
      ⟨n + 3⟩) := by
  have apart := G.apart
  simp only [List.nodup_cons, List.mem_cons, not_or] at apart
  obtain ⟨⟨-, -, o₁, o₂, o₃, -⟩, -, -, ⟨e₁, e₂, -⟩, ⟨s₁, -⟩, -⟩ := apart
  have copied : (Part.expr (G.shape G.elements G.source G.table)).Every Part.Copied :=
    (G.every_shape (D := fun _ => True) (R := fun _ => True) (by simp) (by simp)).mono
      fun _ => Part.Copied.of_tabular
  have declared : (Part.expr (G.shape G.elements G.source G.table)).declared.eraseDups
      = [G.elements, G.source, G.table] := by
    rw [declared_shape]
    simp [List.eraseDups_cons, Ne.symm e₁, Ne.symm e₂, Ne.symm s₁]
  have kept : (Renaming.numbering n [G.elements, G.source, G.table]).rel G.owner = G.owner := by
    simp [Renaming.numbering, Renaming.rel, numberedFrom, List.zipIdx, List.lookup_cons, o₁, o₂, o₃,
      beq_false_of_ne]
  rw [Expr.copyWithAliases_run copied declared (by simp)]
  have renamed : (G.shape G.elements G.source G.table).realias
        (Renaming.numbering n [G.elements, G.source, G.table]).rel = G.shape ⟨n⟩ ⟨n + 1⟩ ⟨n + 2⟩ := by
    simp only [shape, group, Entity.elements, filtered, Expr.realias_grouping, Expr.realias_column,
      Expr.realias_projection, Projection.realias_mk, Select.realias_forwarding, Expr.realias_select,
      Option.map_some, Option.map_none, Expr.nullSafe, Expr.either, Expr.both, Expr.equals, Expr.realias_binary,
      Expr.realias_isNull, Expr.realias_record, G.nullTest.realias_test kept, Slot.ref, rows,
      Expr.realias_table, kept]
    simp [Renaming.numbering, Renaming.rel, numberedFrom, List.zipIdx, List.lookup_cons, Ne.symm e₁, Ne.symm e₂,
      Ne.symm s₁, beq_false_of_ne]
  rw [renamed]
  rfl

end Grouping

end Mapping.Entity

/-- An aggregate over the elements of a group, under a name: a count, or an aggregate of a member. -/
structure Total where
  name : String
  kind : AggregateKind
  argument : Option (Param × String)

namespace Total

variable (t : Total) (e : Mapping.Entity)

/-- Exactly the counts do without a member, and the member is a mapped one. The lambda that takes it has
a parameter of its own. -/
def Fits (p : Param) : Prop :=
  match t.argument with
  | none => t.kind.isCount = true
  | some (y, member) => t.kind.isCount = false ∧ y ≠ p ∧ (e.member? member).isSome = true

instance (p : Param) : Decidable (t.Fits e p) := by
  unfold Fits
  split <;> infer_instance

def asked (p : Param) : Expr :=
  .operator (.aggregate (.param p) t.kind (t.argument.map fun (y, member) =>
    ⟨[y], .member (.param y) member⟩))

def slot (slots : List Slot) : Option Slot :=
  t.argument.bind fun (_, member) => slots.find? (·.member == member)

variable {t e}

theorem slot_through (forwards : List Forward) (slots : List Slot) :
    t.slot (slots.map (Slot.through forwards)) = (t.slot slots).map (Slot.through forwards) := by
  obtain ⟨_, _, _ | a⟩ := t
  · rfl
  · exact Slot.find?_through forwards slots a.2

theorem slot_mem {slots : List Slot} {k : Slot} (hk : t.slot slots = some k) : k ∈ slots := by
  obtain ⟨_, _, _ | a⟩ := t
  · cases hk
  · exact List.mem_of_find?_eq_some hk

/-- What has no member is counted. -/
theorem Fits.counts {p : Param} (fits : t.Fits e p) (h : t.slot e.seen = none) : t.kind.isCount = true := by
  obtain ⟨_, _, _ | ⟨y, member⟩⟩ := t
  · exact fits
  · obtain ⟨m, mapped⟩ := Option.isSome_iff_exists.mp fits.2.2
    have found := e.find?_seen member
    rw [mapped] at found
    cases h.symm.trans found

end Total

namespace Mapping.Entity.Grouping

variable {e : Entity} (G : e.Grouping)

def fallback (t : Total) (n : Nat) : Select Expr :=
  .plain ⟨n + 3⟩
    [ColumnDecl.of "value" (.aggregateOf t.kind (t.slot e.reseen) ⟨n⟩)]
    (some (.select (e.elements G.key G.owner G.test ⟨n⟩ ⟨n + 1⟩ ⟨n + 2⟩).select)) none

def total (t : Total) (n : Nat) : Expr :=
  .groupAggregate (n + 4) G.owner (.aggregateOf t.kind (t.slot e.seen) G.rel) (G.fallback t n)

theorem every_aggregateOf {D R : Alias → Prop} (kind : AggregateKind) (argument : Option Slot) {src : Alias}
    (reads : R src) : (Part.expr (.aggregateOf kind argument src)).Every (Part.Tabular D R) := by
  refine .node trivial fun q hq => ?_
  obtain ⟨_, hk, rfl⟩ := List.mem_map.mp hq
  obtain ⟨k, -, rfl⟩ := Option.mem_map.mp (Option.mem_toList.mp hk)
  exact Part.every_column reads

theorem every_fallback {D R : Alias → Prop} {t : Total} {n : Nat}
    (declares : ∀ a ∈ [⟨n + 3⟩, ⟨n⟩, ⟨n + 1⟩, ⟨n + 2⟩], D a)
    (reads : ∀ a ∈ [G.owner, ⟨n⟩, ⟨n + 1⟩, ⟨n + 2⟩], R a) :
    (Part.select (G.fallback t n)).Every (Part.Tabular D R) := by
  have elements := G.every_elements (fun a ha => declares a (List.mem_cons_of_mem _ ha)) reads
  refine Part.every_over (declares _ (by simp [Select.plain])) trivial (elements.part Projection.select_mem)
    fun d hd => ?_
  rw [List.mem_singleton.mp hd]
  exact every_aggregateOf _ _ (reads _ (by simp))

/-- The subquery for an aggregate of a group reads nothing but the select that groups. -/
theorem free_fallback (t : Total) (n : Nat) : ∀ a ∈ (Part.select (G.fallback t n)).free, a = G.owner := by
  intro a ha
  obtain ⟨⟨c, hc, rfl⟩, undeclared⟩ := Part.mem_free.mp ha
  have reads : c.rel ∈ [G.owner, ⟨n⟩, ⟨n + 1⟩, ⟨n + 2⟩] :=
    (G.every_fallback (D := fun _ => True) (by simp) fun a ha => ha).refs c hc
  have declared : ∀ b ∈ [⟨n⟩, ⟨n + 1⟩, ⟨n + 2⟩], b ∈ (Part.select (G.fallback t n)).declared := by
    intro b hb
    have select : b ∈ (Part.select (e.elements G.key G.owner G.test ⟨n⟩ ⟨n + 1⟩ ⟨n + 2⟩).select).declared := by
      rwa [G.declared_select]
    exact Part.declared_subset (q := .expr (.select _)) (by simp [Part.parts, Select.exprs, fallback,
      Select.plain]) (Part.declared_subset (List.mem_singleton_self _) select)
  rcases List.mem_cons.mp reads with owner | inner
  · exact owner
  · exact absurd (declared _ inner) undeclared

/-- So it can be a column of a select over that one. -/
theorem nominate_total (affinity : Affinity) (t : Total) (n : Nat) :
    ((G.total t n).nominate affinity [G.owner] false).chosen = true := by
  have free : (Part.select (G.fallback t n)).free.all [G.owner].contains = true :=
    List.all_eq_true.mpr fun a ha => by simp [G.free_fallback t n a ha]
  rw [total, Expr.nominate, free]
  rfl

def answers (keyName : String) (totals : List Total) (n : Nat) : List (Field Expr) :=
  ⟨keyName, .column (G.key.ref G.owner)⟩
    :: totals.zipIdx.map fun (t, i) => ⟨t.name, G.total t (n + 5 * i)⟩

end Mapping.Entity.Grouping

namespace Binding

variable {ctx : Context} {fuel : Nat} {e : Mapping.Entity} {G : e.Grouping} {p : Param} {s s' : BindState}

structure Ready (G : e.Grouping) (p : Param) (s : BindState) : Prop where
  param : s.params.lookup p = some (G.shape G.elements G.source G.table)
  elements : s.groups.lookup G.elements = some G.origin
  source : s.groups.lookup G.source = none
  table : s.groups.lookup G.table = none
  closed : s.openGroup = none
  drawn : ∀ a ∈ [G.owner, G.elements, G.source, G.table], a.id < s.supply.next

/-- It goes on to do so when copies of the group are known, with new elements. -/
theorem Ready.later (h : Ready G p s) (param : s'.params.lookup p = s.params.lookup p)
    (groups : s'.groups = (⟨s.supply.next⟩, G.origin) :: s.groups) (closed : s'.openGroup = s.openGroup)
    (drawn : s.supply.next ≤ s'.supply.next) : Ready G p s' := by
  have other : ∀ a ∈ [G.owner, G.elements, G.source, G.table],
      s'.groups.lookup a = s.groups.lookup a := by
    intro a ha
    have ne : a ≠ ⟨s.supply.next⟩ := fun eq => absurd (h.drawn a ha) (by simp [eq])
    rw [groups, List.lookup_cons, beq_false_of_ne ne]
  exact {
    param := param.trans h.param
    elements := (other _ (by simp)).trans h.elements
    source := (other _ (by simp)).trans h.source
    table := (other _ (by simp)).trans h.table
    closed := closed.trans h.closed
    drawn := fun a ha => Nat.lt_of_lt_of_le (h.drawn a ha) drawn }

/-- Every use of a group is a copy of it, and known to be one. -/
theorem Ready.param_run (h : Ready G p s) {n : Nat} (supply : s.supply = ⟨n⟩) :
    ((Expr.param p).bindAt ctx fuel false).run s = .ok (G.shape ⟨n⟩ ⟨n + 1⟩ ⟨n + 2⟩,
      { s with supply := ⟨n + 3⟩, groups := (⟨n⟩, G.origin) :: s.groups }) := by
  have copy : (liftM (G.shape G.elements G.source G.table).copyWithAliases :
        Binding (Expr × List (Alias × Alias))).run s
      = .ok ((G.shape ⟨n⟩ ⟨n + 1⟩ ⟨n + 2⟩,
        [(G.elements, ⟨n⟩), (G.source, ⟨n + 1⟩), (G.table, ⟨n + 2⟩)]), { s with supply := ⟨n + 3⟩ }) := by
    rw [mint_run, supply, G.copy_run]
  rw [Expr.bindAt, Binding.param]
  simp only [StateT.run_bind, StateT.run_get, pure_bind, h.param]
  rw [copy]
  simp [h.elements, h.source, h.table]

variable (ctx fuel) in
/-- The key of a group is a column of the select that groups. -/
theorem Ready.key_run (h : Ready G p s) {n : Nat} (supply : s.supply = ⟨n⟩) :
    ∃ s', ((Expr.member (.param p) "Key").bindAt ctx fuel false).run s
        = .ok (.column (G.key.ref G.owner), s')
      ∧ Ready G p s' ∧ s'.supply = ⟨n + 3⟩ := by
  refine ⟨{ s with supply := ⟨n + 3⟩, groups := (⟨n⟩, G.origin) :: s.groups }, ?_,
    h.later rfl (by rw [supply]) rfl (by simp [supply]), rfl⟩
  rw [Expr.bindAt]
  refine yields.bind (h.param_run supply) ?_
  exact yields.pure _ _

def argumentOf (argument : Option Body) (shape : Expr) : Binding (Option Expr) :=
  match argument with
  | some body => do return some (← apply "Aggregate" body shape)
  | none => return none

/-- Counts have no argument here, and all other aggregates have one. -/
theorem aggregate_eq {kind : AggregateKind} {argument : Option Body}
    (counts : kind.isCount = argument.isNone) (source : Binding Expr) :
    aggregate ctx false source false kind argument = (do
      let p ← sequence ctx source
      let inner := Expr.aggregate kind (← argumentOf argument p.projector) false
      let rel ← Supply.freshAlias
      let select := Select.plain rel [ColumnDecl.of "value" inner] (some (.select p.select)) none
      match (← get).groups.lookup p.select.rel with
      | some group =>
        let inGroup := Expr.aggregate kind (← argumentOf argument group.element) false
        if (← get).openGroup = some group.origin then return inGroup
        return .groupAggregate (← Supply.fresh) group.owner inGroup select
      | none => return .scalar select) := by
  rw [aggregate]
  cases argument with
  | none =>
    simp only [counts, Option.isNone_none, if_true, argumentOf, Bool.false_eq_true, if_false, pure_bind]
    refine bind_congr fun p => bind_congr fun rel => bind_congr fun s => ?_
    cases s.groups.lookup p.select.rel <;> rfl
  | some body =>
    simp only [counts, Option.isNone_some, Bool.false_eq_true, if_false, argumentOf]
    refine bind_congr fun p => bind_congr fun inner => bind_congr fun rel => bind_congr fun s => ?_
    cases s.groups.lookup p.select.rel <;> rfl

variable (ctx fuel) in
/-- A lambda that takes a member of the elements. -/
theorem argumentOf_run {t : Total} (fits : t.Fits e p) (entity : String) (rel : Alias)
    {slots : List Slot} (found : ∀ member, (slots.find? (·.member == member)).isSome = (e.member? member).isSome)
    (s : BindState) : ∃ params, params.lookup p = s.params.lookup p
      ∧ (argumentOf (t.argument.map fun (y, member) =>
          ⟨[y], (Expr.member (.param y) member).bindAt ctx fuel false⟩) (.record entity rel slots)).run s
        = .ok ((t.slot slots).map fun k => .column (k.ref rel), { s with params }) := by
  obtain ⟨name, kind, _ | ⟨y, member⟩⟩ := t
  · exact ⟨s.params, rfl, rfl⟩
  · obtain ⟨-, own, mapped⟩ := fits
    obtain ⟨k, hk⟩ := Option.isSome_iff_exists.mp ((found member).trans mapped)
    refine ⟨(y, .record entity rel slots) :: s.params, ?_, ?_⟩
    · rw [List.lookup_cons, beq_false_of_ne own.symm]
    · have slot : (⟨name, kind, some (y, member)⟩ : Total).slot slots = some k := hk
      rw [slot]
      exact yields.bind (apply_member hk "Aggregate" [] s) (yields.pure _ _)

variable (ctx fuel) in
/-- An aggregate is asked of the copy of the group that its parameter stands for. -/
theorem asked_eq {t : Total} (fits : t.Fits e p) : ∃ argument : Option Body,
    argument = (t.argument.map fun (y, member) =>
      ⟨[y], (Expr.member (.param y) member).bindAt ctx fuel false⟩)
    ∧ t.kind.isCount = argument.isNone ∧ (t.asked p).bindAt ctx fuel false
      = aggregate ctx false ((Expr.param p).bindAt ctx fuel false) false t.kind argument := by
  refine ⟨_, rfl, ?_, ?_⟩
  · obtain ⟨_, _, _ | _⟩ := t
    · exact fits
    · exact fits.1
  · obtain ⟨_, bound⟩ := Expr.bindAt_operator ctx fuel false (.aggregate (.param p) t.kind
      (t.argument.map fun (y, member) => ⟨[y], .member (.param y) member⟩))
    rw [Total.asked, bound]
    obtain ⟨_, _, _ | _⟩ := t <;> rfl

variable (ctx fuel) in
/-- An aggregate of a group can be computed where the rows are grouped, or by a subquery. -/
theorem Ready.total_run (h : Ready G p s) {t : Total} (fits : t.Fits e p) {n : Nat}
    (supply : s.supply = ⟨n⟩) :
    ∃ s', ((t.asked p).bindAt ctx fuel false).run s = .ok (G.total t n, s')
      ∧ Ready G p s' ∧ s'.supply = ⟨n + 5⟩ := by
  have seen : ∀ member, (e.seen.find? (·.member == member)).isSome = (e.member? member).isSome :=
    fun member => by rw [e.find?_seen, Option.isSome_map]
  have reseen : ∀ member, (e.reseen.find? (·.member == member)).isSome = (e.member? member).isSome :=
    fun member => by rw [Mapping.Entity.reseen, Slot.find?_through, Option.isSome_map, seen]
  obtain ⟨_, rfl, counts, asked⟩ := asked_eq ctx fuel fits
  let s₁ : BindState := { s with supply := ⟨n + 3⟩, groups := (⟨n⟩, G.origin) :: s.groups }
  have elements : (sequence ctx ((Expr.param p).bindAt ctx fuel false)).run s
      = .ok (e.elements G.key G.owner G.test ⟨n⟩ ⟨n + 1⟩ ⟨n + 2⟩, s₁) :=
    yields.bind (h.param_run supply) rfl
  obtain ⟨params, kept, inner⟩ := argumentOf_run ctx fuel fits e.name ⟨n⟩ reseen s₁
  let s₂ : BindState := { s₁ with params := params, supply := ⟨n + 4⟩ }
  obtain ⟨params', kept', inGroup⟩ := argumentOf_run ctx fuel fits e.name G.rel seen s₂
  have fresh : (liftM Supply.freshAlias : Binding Alias).run { s₁ with params } = .ok (⟨n + 3⟩, s₂) := rfl
  have known : s₂.groups.lookup ⟨n⟩ = some G.origin := by simp [s₂, s₁]
  refine ⟨{ s₁ with supply := ⟨n + 5⟩, params := params' }, ?_,
    h.later (kept'.trans kept) (by rw [supply]) rfl (by simp [supply]), rfl⟩
  rw [asked, aggregate_eq counts]
  refine yields.bind elements (yields.bind inner (yields.bind fresh (yields.bind (rfl : yields.gives s₂ get s₂ s₂) ?_)))
  rw [show (e.elements G.key G.owner G.test ⟨n⟩ ⟨n + 1⟩ ⟨n + 2⟩).select.rel = ⟨n⟩ from rfl, known]
  refine yields.bind inGroup (yields.bind (rfl : yields.gives _ get _ _) ?_)
  rw [if_neg (by simp [s₂, s₁, h.closed])]
  rfl

variable (ctx fuel) in
/-- The aggregates of a group are bound one after another, each to aliases and a number of its own. -/
theorem Ready.totals_run (h : Ready G p s) {ts : List Total} (fits : ∀ t ∈ ts, t.Fits e p) {n i : Nat}
    (supply : s.supply = ⟨n + 5 * i⟩) :
    ∃ s', ((ts.map fun t => (⟨t.name, t.asked p⟩ : Field Expr)).mapM fun f : Field Expr => (do
        return { f with expr := ← f.expr.bindAt ctx fuel false } : Binding (Field Expr))).run s
      = .ok ((ts.zipIdx i).map fun (t, j) => ⟨t.name, G.total t (n + 5 * j)⟩, s') := by
  induction ts generalizing s i with
  | nil => exact ⟨s, rfl⟩
  | cons t rest ih =>
    obtain ⟨s₁, run, ready, drawn⟩ := h.total_run ctx fuel (fits t (by simp)) supply
    have next : s₁.supply = ⟨n + 5 * (i + 1)⟩ := by
      simp only [drawn, Supply.mk.injEq]
      omega
    obtain ⟨s₂, later⟩ := ih ready (fun t ht => fits t (by simp [ht])) next
    refine ⟨s₂, ?_⟩
    rw [List.map_cons, List.mapM_cons]
    exact yields.bind (yields.bind run (yields.pure _ _)) (yields.bind later (yields.pure _ _))

variable (ctx fuel) in
/-- The members of an answer, the key before the aggregates. -/
theorem Ready.answers_run (h : Ready G p s) (keyName : String) {totals : List Total}
    (fits : ∀ t ∈ totals, t.Fits e p) {n : Nat} (supply : s.supply = ⟨n⟩) :
    ∃ s', ((Expr.construct none (⟨keyName, .member (.param p) "Key"⟩
        :: totals.map fun t => ⟨t.name, t.asked p⟩)).bindAt ctx fuel false).run s
      = .ok (.construct none (G.answers keyName totals (n + 3)), s') := by
  let fields : List (Field Expr) :=
    ⟨keyName, .member (.param p) "Key"⟩ :: totals.map fun t => ⟨t.name, t.asked p⟩
  obtain ⟨s₁, key, ready, drawn⟩ := h.key_run ctx fuel supply
  obtain ⟨s₂, rest⟩ := ready.totals_run ctx fuel fits (n := n + 3) (i := 0) drawn
  have members : (fields.mapM fun f : Field Expr => (do
        return { f with expr := ← f.expr.bindAt ctx fuel false } : Binding (Field Expr))).run s
      = .ok (G.answers keyName totals (n + 3), s₂) := by
    rw [List.mapM_cons]
    exact yields.bind (yields.bind key (yields.pure _ _)) (yields.bind rest (yields.pure _ _))
  refine ⟨s₂, ?_⟩
  rw [Expr.bindAt] <;> try simp
  simp only [Expr.traverse, List.mapM_subtype, List.unattach_attach]
  exact yields.bind members (yields.pure _ _)

end Binding

def Expr.groupTotals (table : String) (x : Param) (xs : List Param) (member : String) (p : Param)
    (ps : List Param) (keyName : String) (totals : List Total) : Expr :=
  .operator (.map (groupByMember table x xs member) ⟨p :: ps, .construct none
    (⟨keyName, .member (.param p) "Key"⟩ :: totals.map fun t => ⟨t.name, t.asked p⟩)⟩)

namespace Mapping.Entity.Grouping

variable {e : Entity} (G : e.Grouping)

def report (affinity : Affinity) (rel : Alias) (fields : List (Field Expr)) : Projection Expr :=
  let parts := (Expr.construct none fields).split affinity [] rel [G.owner]
  ⟨.plain rel parts.columns (some (.select G.keys)) none, parts.projector, none⟩

end Mapping.Entity.Grouping

/-- The query is bound to a select over the one that groups, which has a column for each member. -/
theorem Expr.bind_groupTotals {ctx : Context} {name member : String} {e : Mapping.Entity}
    {m : Mapping.Member} (resolved : ctx.mapping.resolve name = .ok e)
    (mapped : e.member? member = some m) (x : Param) (xs : List Param) {p : Param} (ps : List Param)
    (keyName : String) {totals : List Total} (fits : ∀ t ∈ totals, t.Fits e p) (supply : Supply) :
    ∃ (G : e.Grouping) (n : Nat) (rel : Alias) (after : Supply), G.key = e.slot m ∧ G.owner.id < n
      ∧ ((groupTotals name x xs member p ps keyName totals).bind ctx).run supply
        = .ok (.projection (G.report ctx.affinity rel (G.answers keyName totals n)), after) := by
  obtain ⟨n⟩ := supply
  let fuel := (Part.expr (groupTotals name x xs member p ps keyName totals)).extent
  obtain ⟨marks, test, nullTest, grouped⟩ :=
    Binding.groupBy_run resolved mapped x xs fuel false (Binding.start ⟨n⟩) rfl
  let G : e.Grouping := ⟨e.slot m, ⟨n⟩, ⟨n + 1⟩, ⟨n + 5⟩, ⟨n + 4⟩, ⟨n + 2⟩, ⟨n + 3⟩, marks, test, nullTest,
    by simp⟩
  let s₀ : BindState := { Binding.start ⟨n⟩ with
    supply := ⟨n + 6⟩
    params := [(x, .record e.name ⟨n + 2⟩ e.seen), (x, .record e.name ⟨n + 1⟩ e.seen)]
    groups := [(G.elements, G.origin)] }
  let s₁ : BindState := { s₀ with params := (p, G.shape G.elements G.source G.table) :: s₀.params }
  -- in `s₁` the parameter of the selector stands for a group
  have ready : Binding.Ready G p s₁ :=
    { param := by simp [s₁], elements := by simp [s₁, s₀], source := by simp [s₁, s₀, G]
      table := by simp [s₁, s₀, G], closed := rfl, drawn := by simp [s₁, s₀, G] }
  let fields : List (Field Expr) :=
    ⟨keyName, .member (.param p) "Key"⟩ :: totals.map fun t => ⟨t.name, t.asked p⟩
  obtain ⟨s₃, body⟩ := ready.answers_run ctx fuel keyName fits rfl
  have shape : (Binding.apply "Select" ⟨p :: ps, (Expr.construct none fields).bindAt ctx fuel false⟩
        (G.shape G.elements G.source G.table)).run s₀
      = .ok (.construct none (G.answers keyName totals (n + 9)), s₃) := by
    have assigned : (Binding.assign "Select" (p :: ps) 0 (G.shape G.elements G.source G.table)).run s₀
        = .ok ((), s₁) := rfl
    exact Binding.yields.bind assigned body
  obtain ⟨_, bound⟩ := bindAt_operator ctx fuel true (.map (groupByMember name x xs member)
    ⟨p :: ps, .construct none fields⟩)
  refine ⟨G, n + 9, ⟨s₃.supply.next⟩, ⟨s₃.supply.next + 1⟩, rfl, by simp [G],
    bind_of_run (s := { s₃ with supply := ⟨s₃.supply.next + 1⟩ }) ?_⟩
  rw [show (groupTotals name x xs member p ps keyName totals).bindAt ctx fuel true = _ from bound]
  refine Binding.yields.bind (?_ : Binding.yields.gives _ (Binding.map ctx
    ((groupByMember name x xs member).bindAt ctx fuel false)
    ⟨p :: ps, (Expr.construct none fields).bindAt ctx fuel false⟩) _ _) (Binding.yields.pure _ _)
  have source : (Binding.sequence ctx ((groupByMember name x xs member).bindAt ctx fuel false)).run
      (Binding.start ⟨n⟩) = .ok (⟨G.keys, G.shape G.elements G.source G.table, none⟩, s₀) :=
    Binding.yields.bind grouped (Binding.yields.pure _ _)
  exact Binding.yields.bind source (Binding.yields.bind shape rfl)

end ObjectQuery
