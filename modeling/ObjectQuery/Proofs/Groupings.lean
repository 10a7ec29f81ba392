import ObjectQuery.Bind.Query
import ObjectQuery.Proofs.Chains
import ObjectQuery.Proofs.Conditions
import ObjectQuery.Proofs.GroupedSelects
import ObjectQuery.Proofs.RecordCopies

/-!
The rows of a table in groups. A grouping is bound to a select with one row per key, and to a second
select over the table for the elements of a group: the rows whose key is that of the group, where two
nulls are equal.
-/

namespace ObjectQuery

open Eval

namespace Split

variable {split : Split} {nested : Bool}

section Refused

variable {affinity : Affinity} {sources : List Alias} {e : Expr}

theorem refused_column {c : Column} (h : c.rel ∉ sources) :
    ((Expr.column c).nominate affinity sources nested).allowsParent = false := by
  rw [Expr.nominate, if_neg (by simpa using h)]
  rfl

def Composite (e : Expr) : Prop :=
  (∀ v, e ≠ .const v) ∧ (∀ c, e ≠ .column c) ∧ (∀ n o a s, e ≠ .groupAggregate n o a s)
    ∧ e.mustBeColumn = false

/-- The server can compute a node only if it can compute the parts. -/
theorem parts_of_allowed (composite : Composite e)
    (allowed : (e.nominate affinity sources nested).allowsParent = true) :
    e.canBeColumn = true ∧ ∀ c, Part.expr c ∈ (Part.expr e).parts →
      (c.nominate affinity sources nested).allowsParent = true := by
  obtain ⟨const, column, aggregate, must⟩ := composite
  rcases nominate_cases allowed with
    ⟨v, rfl⟩ | ⟨c, rfl, -⟩ | ⟨n, o, a, s, rfl, -⟩ | ⟨-, must', -⟩ | h
  · exact absurd rfl (const _)
  · exact absurd rfl (column _)
  · exact absurd rfl (aggregate _ _ _ _)
  · simp [must] at must'
  · exact h

theorem refused_of_part {c : Expr} (composite : Composite e) (hc : Part.expr c ∈ (Part.expr e).parts)
    (h : (c.nominate affinity sources nested).allowsParent = false) :
    (e.nominate affinity sources nested).allowsParent = false := by
  rw [Bool.eq_false_iff]
  intro allowed
  have part := (parts_of_allowed composite allowed).2 c hc
  rw [h] at part
  cases part

theorem refused_of_kind (composite : Composite e) (kind : e.canBeColumn = false) :
    (e.nominate affinity sources nested).allowsParent = false := by
  rw [Bool.eq_false_iff]
  intro allowed
  rw [(parts_of_allowed composite allowed).1] at kind
  cases kind

end Refused

theorem expr_of_refused {e : Expr}
    (h : (e.nominate split.affinity split.sources nested).allowsParent = false) :
    split.expr nested e = e.traverse (fun c _ => split.expr (nested || nests e) c)
      (fun s _ => split.select s) fun p _ => split.projection (nested || nests e) p := by
  have kept : ¬ (e.nominate split.affinity split.sources nested).chosen = true :=
    fun chosen => by simp [allowsParent_of_chosen chosen] at h
  rw [expr_eq, if_neg kept]

/-- A walk under a nested relation that finds nothing to make a column of. -/
theorem walk_refused {p : Part} (refused : p.Every fun q => ∀ e, q = .expr e →
      (e.nominate split.affinity split.sources true).allowsParent = false) (s : State) :
    (∀ e, p = .expr e → (split.expr true e).run s = (e, s))
    ∧ (∀ q, p = .select q → (split.select q).run s = (q, s))
    ∧ ∀ q, p = .projection q → (split.projection true q).run s = (q, s) := by
  let Y := Yields.ofState State
  induction refused with
  | @node p here _ ih =>
    refine ⟨?_, ?_, ?_⟩
    · rintro e rfl
      rw [expr_of_refused (here e rfl), Bool.true_or]
      have walked := Expr.traverse_gives Y e (fun c hc => (ih _ hc).1 c rfl)
        (fun q hq => (ih _ hq).2.1 q rfl) fun q hq => (ih _ hq).2.2 q rfl
      exact walked.trans (congrArg (·, s) e.traverse_pure)
    · rintro q rfl
      rw [Split.select]
      have walked := Select.traverse_gives Y q fun e he => (ih _ he).1 e rfl
      exact walked.trans (congrArg (·, s) q.traverse_pure)
    · rintro q rfl
      rw [Split.projection]
      exact Y.bind ((ih _ Projection.select_mem).2.1 _ rfl)
        (Y.bind ((ih _ Projection.projector_mem).1 _ rfl) rfl)

end Split

def Expr.nullSafe (a b isNull : Expr) : Expr := .either (.equals a b) (.both (.isNull a) isNull)

/-- What the condition says of the values of the two sides. -/
theorem Eval.scalar_nullSafe {tables : Tables} {σ : Scope} {a b test : Expr} {x y : Value} {o : Option Ordering} (ha : scalar tables a σ = .ok x)
    (hb : scalar tables b σ = .ok y) (ht : scalar tables test σ = .ok (.bool y.isNull))
    (h : Value.compare x y = .ok o) :
    scalar tables (.nullSafe a b test) σ = .ok (.ofTruth (Value.nullSafe o x y)) := by
  have equal : scalar tables (.equals a b) σ = .ok (.ofTruth (Value.meets o)) := by
    rw [Expr.equals, scalar_binary, ha, hb, ok_bind, ok_bind, Value.binary_eq, h]
    rfl
  have left : scalar tables (.isNull a) σ = .ok (.ofTruth (some x.isNull)) := scalar_isNull ha
  have right : scalar tables test σ = .ok (.ofTruth (some y.isNull)) := ht
  have nulls : scalar tables (.both (.isNull a) test) σ
      = .ok (.ofTruth (Value.and3 (some x.isNull) (some y.isNull))) := by
    rw [Expr.both, scalar_binary, left, right, ok_bind, ok_bind, Value.binary_and_ofTruth]
  rw [Expr.nullSafe, Expr.either, scalar_binary, equal, nulls, ok_bind, ok_bind, Value.binary_or_ofTruth]
  rfl

/-- How a select that groups by the column of a member tells its elements whether the key is null: they
ask the key, or one more column of the select that the server computes. -/
inductive NullTest (k : Slot) (rel g : Alias) : List (ColumnDecl Expr) → Expr → Prop
  | asked : NullTest k rel g [] (.isNull (.column (k.ref g)))
  | stored {name : String} : name ≠ k.column →
    NullTest k rel g [⟨name, .isNull (.column (k.ref rel)), .bool⟩] (.column ⟨g, name, .bool⟩)

def Slot.keyDecl (rel : Alias) (k : Slot) : ColumnDecl Expr := ⟨k.column, .column (k.ref rel), k.type⟩

namespace Split

variable (affinity : Affinity) (rel g : Alias) (k : Slot)

theorem key_new (next : Nat) :
    (column ⟨affinity, g, [rel]⟩ (.column (k.ref rel))).run ⟨[], next⟩
      = (.column (k.ref g), ⟨[k.keyDecl rel], next⟩) := by
  have added : Forward.add [] k = [⟨k.column, k.column, k.type⟩] := rfl
  have through : k.through [⟨k.column, k.column, k.type⟩] = k := by
    simp [Slot.through, Forward.holds]
  have run := column_forward affinity g rel [] k next
  rw [added, through] at run
  exact run

theorem key_again (next : Nat) :
    (column ⟨affinity, g, [rel]⟩ (.column (k.ref rel))).run ⟨[k.keyDecl rel], next⟩
      = (.column (k.ref g), ⟨[k.keyDecl rel], next⟩) := by
  have added : Forward.add [⟨k.column, k.column, k.type⟩] k = [⟨k.column, k.column, k.type⟩] := by
    simp [Forward.add, Forward.holds]
  have through : k.through [⟨k.column, k.column, k.type⟩] = k := by
    simp [Slot.through, Forward.holds]
  have run := column_forward affinity g rel [⟨k.column, k.column, k.type⟩] k next
  rw [added, through] at run
  exact run

/-- The null test of the key, below the elements of a group. -/
theorem isNull_run (next : Nat) : ∃ marks test next', NullTest k rel g marks test
    ∧ (expr ⟨affinity, g, [rel]⟩ true (.isNull (.column (k.ref rel)))).run ⟨[k.keyDecl rel], next⟩
      = (test, ⟨k.keyDecl rel :: marks, next'⟩) := by
  have inside : (k.ref rel).rel ∈ [rel] := by simp [Slot.ref]
  cases chosen : ((Expr.isNull (.column (k.ref rel))).nominate affinity [rel] true).chosen with
  | true =>
    rw [expr_eq, if_pos chosen]
    rcases column_cases ⟨affinity, g, [rel]⟩ ⟨[k.keyDecl rel], next⟩ (.isNull (.column (k.ref rel))) with
      ⟨d, found, -⟩ | ⟨name, next', run, free, -⟩
    · have same := List.find?_some found
      obtain rfl := List.mem_singleton.mp (List.mem_of_find?_eq_some found)
      simp [Slot.keyDecl, BEq.beq, Expr.same] at same
    · refine ⟨_, _, next', .stored ?_, run⟩
      simpa [Slot.keyDecl] using free
  | false =>
    refine ⟨[], _, next, .asked, ?_⟩
    rw [expr_eq, if_neg (by simp [chosen])]
    have key : (expr ⟨affinity, g, [rel]⟩ true (.column (k.ref rel))).run ⟨[k.keyDecl rel], next⟩
        = (.column (k.ref g), ⟨[k.keyDecl rel], next⟩) := by
      rw [expr_eq, if_pos (nominate_column inside), key_again affinity rel g k]
    exact (Yields.ofState State).bind key rfl

/-- The condition on the elements of a group, over the column of the key. -/
theorem nullSafe_run {rel' : Alias} (apart : rel' ≠ rel) (next : Nat) :
    ∃ marks test next', NullTest k rel g marks test
    ∧ (expr ⟨affinity, g, [rel]⟩ true (.nullSafe (.column (k.ref rel')) (.column (k.ref rel))
        (.isNull (.column (k.ref rel))))).run ⟨[k.keyDecl rel], next⟩
      = (.nullSafe (.column (k.ref rel')) (.column (k.ref g)) test, ⟨k.keyDecl rel :: marks, next'⟩) := by
  let Y := Yields.ofState State
  obtain ⟨marks, test, next', nullTest, run⟩ := isNull_run affinity rel g k next
  refine ⟨marks, test, next', nullTest, ?_⟩
  have inner : ((Expr.column (k.ref rel')).nominate affinity [rel] true).allowsParent = false :=
    refused_column (by simpa [Slot.ref] using apart)
  have asks : ((Expr.isNull (.column (k.ref rel'))).nominate affinity [rel] true).allowsParent = false :=
    refused_of_part (by simp [Composite, Expr.mustBeColumn]) (by simp [Part.parts]) inner
  have equals : ((Expr.equals (.column (k.ref rel')) (.column (k.ref rel))).nominate affinity [rel]
      true).allowsParent = false :=
    refused_of_part (by simp [Composite, Expr.equals, Expr.mustBeColumn]) (by simp [Expr.equals, Part.parts])
      inner
  have both : ((Expr.both (.isNull (.column (k.ref rel'))) (.isNull (.column (k.ref rel)))).nominate
      affinity [rel] true).allowsParent = false :=
    refused_of_part (by simp [Composite, Expr.both, Expr.mustBeColumn]) (by simp [Expr.both, Part.parts]) asks
  have either : ((Expr.nullSafe (.column (k.ref rel')) (.column (k.ref rel))
      (.isNull (.column (k.ref rel)))).nominate affinity [rel] true).allowsParent = false :=
    refused_of_part (by simp [Composite, Expr.nullSafe, Expr.either, Expr.mustBeColumn])
      (by simp [Expr.nullSafe, Expr.either, Part.parts]) equals
  have other : (expr ⟨affinity, g, [rel]⟩ true (.column (k.ref rel'))).run ⟨[k.keyDecl rel], next⟩
      = (.column (k.ref rel'), ⟨[k.keyDecl rel], next⟩) := by
    rw [expr_of_refused inner]
    rfl
  have key : (expr ⟨affinity, g, [rel]⟩ true (.column (k.ref rel))).run ⟨[k.keyDecl rel], next⟩
      = (.column (k.ref g), ⟨[k.keyDecl rel], next⟩) := by
    rw [expr_eq, if_pos (nominate_column (by simp [Slot.ref])), key_again affinity rel g k]
  have compared : (expr ⟨affinity, g, [rel]⟩ true (.equals (.column (k.ref rel'))
      (.column (k.ref rel)))).run ⟨[k.keyDecl rel], next⟩
      = (.equals (.column (k.ref rel')) (.column (k.ref g)), ⟨[k.keyDecl rel], next⟩) := by
    rw [expr_of_refused equals]
    exact Y.bind other (Y.bind key rfl)
  have missing : (expr ⟨affinity, g, [rel]⟩ true (.isNull (.column (k.ref rel')))).run
      ⟨[k.keyDecl rel], next⟩ = (.isNull (.column (k.ref rel')), ⟨[k.keyDecl rel], next⟩) := by
    rw [expr_of_refused asks]
    exact Y.bind other rfl
  have nulls : (expr ⟨affinity, g, [rel]⟩ true (.both (.isNull (.column (k.ref rel')))
      (.isNull (.column (k.ref rel))))).run ⟨[k.keyDecl rel], next⟩
      = (.both (.isNull (.column (k.ref rel'))) test, ⟨k.keyDecl rel :: marks, next'⟩) := by
    rw [expr_of_refused both]
    exact Y.bind missing (Y.bind run rfl)
  rw [expr_of_refused either]
  exact Y.bind compared (Y.bind nulls rfl)

end Split

namespace Mapping.Entity

variable (e : Entity) (k : Slot) {affinity : Affinity}

def inner : List Forward := Forward.all e.seen

def reseen : List Slot := e.seen.map (Slot.through e.inner)

def filtered (rel source table : Alias) (condition : Expr) : Projection Expr :=
  ⟨.forwarding rel source e.inner (.select (e.rows source table).select) (some condition),
    .record e.name rel e.reseen, none⟩

def elements (g : Alias) (test : Expr) (rel source table : Alias) : Projection Expr :=
  e.filtered rel source table (.nullSafe (.column (k.ref source)) (.column (k.ref g)) test)

def grouped (g rel table : Alias) (marks : List (ColumnDecl Expr)) : Select Expr :=
  .byKey g (k.keyDecl rel :: marks) (.select (e.rows rel table).select) (.column (k.ref rel))

def group (g : Alias) (test : Expr) (rel source table : Alias) : Expr :=
  .grouping (.column (k.ref g)) (.projection (e.elements k g test rel source table))

end Mapping.Entity

namespace Split

variable {e : Mapping.Entity} {k : Slot} {affinity : Affinity} {rel g el source table : Alias}

/-- What is below the condition on the elements of a group is left alone. -/
theorem refused_rows (apart : source ≠ rel) (apart' : table ≠ rel) :
    (Part.projection (e.rows source table)).Every fun q => ∀ e, q = .expr e →
      (e.nominate affinity [rel] true).allowsParent = false := by
  refine e.every_rows (by simp) (by simp) ?_ ?_ ?_ ?_
  · rintro _ ⟨⟩
    exact refused_of_kind (by simp [Composite, Expr.mustBeColumn]) rfl
  · rintro _ ⟨⟩
    exact refused_of_kind (by simp [Composite, Expr.record, Expr.mustBeColumn]) rfl
  · rintro _ ⟨⟩
    exact refused_of_kind (by simp [Composite, Expr.mustBeColumn]) rfl
  · rintro c hc _ ⟨⟩
    exact refused_column (by rcases hc with hc | hc <;> simp [hc, apart, apart'])

/-- The columns and the elements of a filtered relation stay as they are. -/
theorem filtered_run (apart : source ≠ rel) (apart' : table ≠ rel) (apart'' : el ≠ rel)
    {condition condition' : Expr} {s s' : State}
    (h : (expr ⟨affinity, g, [rel]⟩ true condition).run s = (condition', s')) :
    (projection ⟨affinity, g, [rel]⟩ true (e.filtered el source table condition)).run s
      = (e.filtered el source table condition', s') := by
  let Y := Yields.ofState State
  have base : (expr ⟨affinity, g, [rel]⟩ true (.select (e.rows source table).select)).run s
      = (.select (e.rows source table).select, s) := by
    refine (walk_refused ?_ s).1 _ rfl
    refine .node ?_ fun q hq => ?_
    · rintro _ ⟨⟩
      exact refused_of_kind (by simp [Composite, Expr.mustBeColumn]) rfl
    · obtain rfl := List.mem_singleton.mp hq
      exact (refused_rows apart apart').part Projection.select_mem
  have columns : ∀ f ∈ e.inner, Y.gives s' (expr ⟨affinity, g, [rel]⟩ true
      (.column ⟨source, f.read, f.type⟩)) (.column ⟨source, f.read, f.type⟩) s' := by
    intro f _
    rw [expr_of_refused (refused_column (by simpa using apart))]
    rfl
  have projector : (expr ⟨affinity, g, [rel]⟩ true (.record e.name el e.reseen)).run s'
      = (.record e.name el e.reseen, s') := by
    refine (walk_refused (Part.every_record ?_ ?_ ?_) s').1 _ rfl
    · rintro _ ⟨⟩
      exact refused_of_kind (by simp [Composite, Expr.record, Expr.mustBeColumn]) rfl
    · rintro _ ⟨⟩
      exact refused_of_kind (by simp [Composite, Expr.mustBeColumn]) rfl
    · rintro c hc _ ⟨⟩
      exact refused_column (by simp [hc, apart''])
  have select : (Split.select ⟨affinity, g, [rel]⟩ (e.filtered el source table condition).select).run s
      = ((e.filtered el source table condition').select, s') := by
    rw [Split.select]
    exact Select.forwarding_gives Y (expr ⟨affinity, g, [rel]⟩ true) base (Y.map some h) columns
  rw [Split.projection]
  exact Y.bind select (Y.bind projector rfl)

variable (e k rel g el source table) in
/-- A key with the elements of its group is split into the key and its null test. -/
theorem split_group (affinity : Affinity) (apart : source ≠ rel) (apart' : table ≠ rel)
    (apart'' : el ≠ rel) :
    ∃ marks test, NullTest k rel g marks test
      ∧ (Expr.grouping (.column (k.ref rel)) (.projection (e.filtered el source table
          (.nullSafe (.column (k.ref source)) (.column (k.ref rel)) (.isNull (.column (k.ref rel))))))).split
        affinity [] g [rel]
        = ⟨e.group k g test el source table, k.keyDecl rel :: marks⟩ := by
  let Y := Yields.ofState State
  obtain ⟨marks, test, next, nullTest, condition⟩ := nullSafe_run affinity rel g k apart 0
  refine ⟨marks, test, nullTest, ?_⟩
  have key : (expr ⟨affinity, g, [rel]⟩ false (.column (k.ref rel))).run ⟨[], 0⟩
      = (.column (k.ref g), ⟨[k.keyDecl rel], 0⟩) := by
    rw [expr_eq, if_pos (nominate_column (by simp [Slot.ref])), key_new affinity rel g k]
  have elements : (expr ⟨affinity, g, [rel]⟩ false (.projection (e.filtered el source table
        (.nullSafe (.column (k.ref source)) (.column (k.ref rel)) (.isNull (.column (k.ref rel))))))).run
        ⟨[k.keyDecl rel], 0⟩
      = (.projection (e.elements k g test el source table), ⟨k.keyDecl rel :: marks, next⟩) := by
    rw [expr_of_refused (refused_of_kind (by simp [Composite, Expr.mustBeColumn]) rfl)]
    exact Y.bind (filtered_run apart apart' apart'' condition) rfl
  have run : (expr ⟨affinity, g, [rel]⟩ false (.grouping (.column (k.ref rel)) (.projection
        (e.filtered el source table (.nullSafe (.column (k.ref source)) (.column (k.ref rel))
          (.isNull (.column (k.ref rel)))))))).run ⟨[], 0⟩
      = (e.group k g test el source table, ⟨k.keyDecl rel :: marks, next⟩) := by
    rw [expr_of_refused (refused_of_kind (by simp [Composite, Expr.mustBeColumn]) rfl)]
    exact Y.bind key (Y.bind elements rfl)
  rw [Expr.split, run]

end Split

section Binding

open Binding

variable {ctx : Context} {fuel : Nat} {e : Mapping.Entity} {name : String}

theorem plain_record (entity : String) (rel : Alias) (slots : List Slot) :
    Plain False (·.rel = rel) (.record entity rel slots) := by
  refine .entity (.construct fun f hf => ?_)
  obtain ⟨k, -, rfl⟩ := List.mem_map.mp hf
  exact .column rfl

theorem Binding.record_run {p : Param} {entity : String} {rel : Alias} {slots : List Slot} {s : BindState}
    (found : s.params.lookup p = some (.record entity rel slots)) (member : String) (root : Bool) :
    ((Expr.member (.param p) member).bindAt ctx fuel root).run s
      = .ok ((Expr.record entity rel slots).bindMember member, s) :=
  member_run (plain_record _ _ _).ownAliases_eq_nil (plain_record _ _ _).ownParams_eq_nil found member root

def Binding.start (supply : Supply) : BindState :=
  { supply, params := [], groups := [], openGroup := none, pending := [] }

theorem Expr.bind_of_run {q bound : Expr} {supply : Supply} {s : BindState}
    (h : (q.bindAt ctx (Part.expr q).extent true).run (start supply) = .ok (bound, s)) :
    (q.bind ctx).run supply = .ok (bound, s.supply) := by
  rw [start] at h
  rw [bind_run, h]

theorem Part.extent_eq (p : Part) : p.extent = 1 + (p.operands.map extent).foldr (· + ·) 0 := by
  rw [extent, List.attach_map_val]

/-- An operator is bound from its operands, each of which can be bound on its own. -/
theorem Expr.bindAt_operator (ctx : Context) (fuel : Nat) (root : Bool) (op : Operator Expr) :
    ∃ bindLater, (Expr.operator op).bindAt ctx fuel root
      = Operator.bind ctx root bindLater (op.mapMem fun e _ =>
        { expr := e, bind := e.bindAt ctx fuel false, bindPeeled := e.peeled.bindAt ctx fuel false }) := by
  cases fuel <;> exact ⟨_, by rw [Expr.bindAt]⟩

theorem Binding.table_run (resolved : ctx.mapping.resolve name = .ok e) (root : Bool) {s : BindState}
    {n : Nat} (supply : s.supply = ⟨n⟩) :
    ((Expr.operator (.table name)).bindAt ctx fuel root).run s
      = .ok (.projection (e.rows ⟨n + 1⟩ ⟨n⟩), { s with supply := ⟨n + 2⟩ }) := by
  have relation : (ctx.mapping.relation name).run s.supply = .ok (e.rows ⟨n + 1⟩ ⟨n⟩, ⟨n + 2⟩) := by
    rw [Mapping.relation, resolved, supply]
    exact congrArg Except.ok (e.relation_run n)
  obtain ⟨_, bound⟩ := Expr.bindAt_operator ctx fuel root (.table name)
  rw [bound]
  exact yields.bind (minting_run relation) (yields.pure _ _)

theorem Binding.assign_run {operator : String} {params : List Param} {index : Nat} {p : Param}
    (h : params[index]? = some p) {bound : Expr} {s : BindState} :
    (assign operator params index bound).run s = .ok ((), { s with params := (p, bound) :: s.params }) := by
  rw [assign, h]
  rfl

/-- A lambda that takes a member of a record. -/
theorem Binding.apply_member {entity m : String} {rel : Alias} {slots : List Slot} {k : Slot} {x : Param}
    (found : slots.find? (·.member == m) = some k) (operator : String) (xs : List Param) (s : BindState) :
    (apply operator ⟨x :: xs, (Expr.member (.param x) m).bindAt ctx fuel false⟩
        (.record entity rel slots)).run s
      = .ok (.column (k.ref rel), { s with params := (x, .record entity rel slots) :: s.params }) := by
  have body : ((Expr.member (.param x) m).bindAt ctx fuel false).run
        { s with params := (x, .record entity rel slots) :: s.params }
      = .ok (.column (k.ref rel), { s with params := (x, .record entity rel slots) :: s.params }) := by
    rw [← Expr.bindMember_record found]
    exact record_run List.lookup_cons_self m false
  exact yields.bind (assign_run rfl) body

theorem Binding.keyColumns_column (k : Slot) (rel : Alias) :
    keyColumns ctx (.column (k.ref rel)) rel = [.column (k.ref rel)] := by
  have run : (Split.expr ⟨ctx.affinity, rel, [rel]⟩ false (.column (k.ref rel))).run ⟨[], 0⟩
      = (.column (k.ref rel), ⟨[k.keyDecl rel], 0⟩) := by
    rw [Split.expr_eq, if_pos (nominate_column (by simp [Slot.ref])), Split.key_new]
  rw [keyColumns, split, Expr.split, run]
  rfl

/-- A new select has a fresh alias and the columns of the shape. -/
theorem Binding.selectOver_fresh (source : Expr) (sources : List Alias) (shape : Expr) {s : BindState} {n : Nat}
    (supply : s.supply = ⟨n⟩) : (selectOver ctx source sources shape).run s
      = .ok (⟨.plain ⟨n⟩ (split ctx shape ⟨n⟩ sources).columns (some source) none,
          (split ctx shape ⟨n⟩ sources).projector, none⟩, { s with supply := ⟨n + 1⟩ }) := by
  have fresh : (liftM Supply.freshAlias : Binding Alias).run s
      = .ok (⟨n⟩, { s with supply := ⟨n + 1⟩ }) := by
    rw [mint_run, supply]
    rfl
  exact yields.bind fresh (yields.pure _ _)

variable (ctx e) in
/-- One more select over the rows of a table. -/
theorem Binding.over_run (rel table : Alias) (s : BindState) {n : Nat} (supply : s.supply = ⟨n⟩) :
    (selectOver ctx (.select (e.rows rel table).select) [rel] (.record e.name rel e.seen)).run s
      = .ok (⟨.forwarding ⟨n⟩ rel e.inner (.select (e.rows rel table).select) none,
          .record e.name ⟨n⟩ e.reseen, none⟩, { s with supply := ⟨n + 1⟩ }) := by
  have parts : split ctx (.record e.name rel e.seen) ⟨n⟩ [rel]
      = ⟨.record e.name ⟨n⟩ e.reseen, e.inner.map (Forward.decl rel)⟩ := Expr.split_record _ _ _ _ _
  rw [selectOver_fresh _ _ _ supply, parts]
  rfl

variable {member : String} {m : Mapping.Member}

def Expr.groupByMember (table : String) (x : Param) (xs : List Param) (member : String) : Expr :=
  .operator (.groupBy (.operator (.table table)) ⟨x :: xs, .member (.param x) member⟩ none none)

theorem Binding.groupBy_run (resolved : ctx.mapping.resolve name = .ok e)
    (mapped : e.member? member = some m) (x : Param) (xs : List Param) (fuel : Nat) (root : Bool)
    (s : BindState) {n : Nat} (supply : s.supply = ⟨n⟩) : ∃ marks test, NullTest (e.slot m) ⟨n + 1⟩ ⟨n + 5⟩ marks test
      ∧ ((Expr.groupByMember name x xs member).bindAt ctx fuel root).run s
        = .ok (.projection ⟨e.grouped (e.slot m) ⟨n + 5⟩ ⟨n + 1⟩ ⟨n⟩ marks,
            e.group (e.slot m) ⟨n + 5⟩ test ⟨n + 4⟩ ⟨n + 2⟩ ⟨n + 3⟩, none⟩,
          { s with
            supply := ⟨n + 6⟩
            params := (x, .record e.name ⟨n + 2⟩ e.seen) :: (x, .record e.name ⟨n + 1⟩ e.seen) :: s.params
            groups := (⟨n + 4⟩, ⟨⟨n + 5⟩, .record e.name ⟨n + 1⟩ e.seen, ⟨n + 4⟩⟩) :: s.groups }) := by
  obtain ⟨marks, test, nullTest, split⟩ := Split.split_group e (e.slot m) ⟨n + 1⟩ ⟨n + 5⟩ ⟨n + 4⟩
    ⟨n + 2⟩ ⟨n + 3⟩ ctx.affinity (by simp) (by simp) (by simp)
  refine ⟨marks, test, nullTest, ?_⟩
  have table : (sequence ctx ((Expr.operator (.table name)).bindAt ctx fuel false)).run s
      = .ok (e.rows ⟨n + 1⟩ ⟨n⟩, { s with supply := ⟨n + 2⟩ }) :=
    sequence_run (table_run resolved false supply)
  have found : e.seen.find? (·.member == member) = some (e.slot m) := by
    rw [e.find?_seen, mapped]
    rfl
  let s₁ : BindState := { s with
    supply := ⟨n + 2⟩, params := (x, .record e.name ⟨n + 1⟩ e.seen) :: s.params }
  have key : (apply "GroupBy" ⟨x :: xs, (Expr.member (.param x) member).bindAt ctx fuel false⟩
        (.record e.name ⟨n + 1⟩ e.seen)).run { s with supply := ⟨n + 2⟩ }
      = .ok (.column ((e.slot m).ref ⟨n + 1⟩), s₁) :=
    apply_member found "GroupBy" xs _
  have copy : (liftM (Expr.projection (e.rows ⟨n + 1⟩ ⟨n⟩)).copy : Binding Expr).run s₁
      = .ok (.projection (e.rows ⟨n + 2⟩ ⟨n + 3⟩), { s₁ with supply := ⟨n + 4⟩ }) := by
    rw [mint_run, e.copy_rows (by simp)]
  let s₂ : BindState := { s₁ with
    supply := ⟨n + 4⟩, params := (x, .record e.name ⟨n + 2⟩ e.seen) :: s₁.params }
  have basisKey : (apply "GroupBy" ⟨x :: xs, (Expr.member (.param x) member).bindAt ctx fuel false⟩
        (.record e.name ⟨n + 2⟩ e.seen)).run { s₁ with supply := ⟨n + 4⟩ }
      = .ok (.column ((e.slot m).ref ⟨n + 2⟩), s₂) :=
    apply_member found "GroupBy" xs _
  obtain ⟨_, bound⟩ := Expr.bindAt_operator ctx fuel root
    (.groupBy (.operator (.table name)) ⟨x :: xs, .member (.param x) member⟩ none none)
  rw [Expr.groupByMember, bound]
  refine yields.bind (?_ : yields.gives s (Binding.groupBy ctx
    ((Expr.operator (.table name)).bindAt ctx fuel false)
    ⟨x :: xs, (Expr.member (.param x) member).bindAt ctx fuel false⟩ none none) _ _) (yields.pure _ _)
  have elements := over_run ctx e ⟨n + 2⟩ ⟨n + 3⟩ s₂ (n := n + 4) rfl
  have fresh : (liftM Supply.freshAlias : Binding Alias).run { s₂ with supply := ⟨n + 4 + 1⟩ }
      = .ok (⟨n + 5⟩, { s₂ with supply := ⟨n + 6⟩ }) := rfl
  rw [Binding.groupBy]
  refine yields.bind table (yields.bind key (yields.bind (yields.pure _ _) (yields.bind copy
    (yields.bind (yields.pure _ _) (yields.bind basisKey (yields.bind (yields.pure _ _)
    (yields.bind elements (yields.bind fresh (yields.bind (rfl : yields.gives _ (modify _) () _)
    (yields.bind (yields.pure _ _) ?_))))))))))
  rw [show (e.rows ⟨n + 1⟩ ⟨n⟩).select.rel = ⟨n + 1⟩ from rfl,
    show (e.rows ⟨n + 2⟩ ⟨n + 3⟩).select.rel = ⟨n + 2⟩ from rfl]
  simp only [keyColumns_column]
  exact congrArg (fun parts : SplitColumns => Except.ok ((⟨.byKey ⟨n + 5⟩ parts.columns
    (.select (e.rows ⟨n + 1⟩ ⟨n⟩).select) (.column ((e.slot m).ref ⟨n + 1⟩)), parts.projector, none⟩ :
    Projection Expr), _)) split

end Binding

end ObjectQuery
