import ObjectQuery.Proofs.Hops
import ObjectQuery.Proofs.Partition

/-!
Views of a table. A select shows rows of a table if every member can be read from its rows; a filter over it
asks a condition of each row, seen from the row of an owner, and shows the rows that meet it. What an
association leads to is such a view.
-/

namespace ObjectQuery

open Eval

variable {tables : Tables} {σ : Scope}

namespace Mapping.Entity

def valueOf (e : Entity) (name : String) (row : Row) : Value :=
  ((e.member? name).map (·.value row)).getD .null

def Shows (e : Entity) (slots : List Slot) (r row : Row) : Prop :=
  List.Forall₂ (fun m k => k.member = m.name ∧ row.get? k.column = some (m.value r)) e.members slots

variable {e : Entity} {slots : List Slot} {r row row' : Row} {name : String}

theorem Shows.isSome (h : e.Shows slots r row) : ∀ k ∈ slots, (row.get? k.column).isSome = true := by
  intro k hk
  obtain ⟨m, -, -, found⟩ := exists_of_forall₂_right h k hk
  rw [found]
  rfl

/-- Every mapped member can be read from what shows the row. -/
theorem Shows.find? (h : e.Shows slots r row) (mapped : e.hasMember name = true) :
    ∃ k, slots.find? (·.member == name) = some k ∧ row.get? k.column = some (e.valueOf name r) := by
  rw [hasMember] at mapped
  rw [valueOf, member?]
  unfold Shows at h
  generalize e.members = members at h mapped
  induction h with
  | nil => cases mapped
  | @cons m k ms ks shown _ ih =>
    rw [List.find?_cons, List.find?_cons, shown.1]
    cases same : m.name == name with
    | true => exact ⟨k, rfl, shown.2⟩
    | false => exact ih (by simpa [same] using mapped)

/-- One more select that forwards the members shows the row as well. -/
theorem Shows.through (h : e.Shows slots r row) :
    e.Shows (slots.map (Slot.through (Forward.all slots))) r (Forward.row (Forward.all slots) row) := by
  rw [Shows, List.forall₂_map_right_iff]
  refine (forall₂_imp_mem h.flip fun k hk m ⟨member, found⟩ => ?_).flip
  exact ⟨(Slot.member_through _ k).trans member, by rw [Forward.get?_through hk, found]; rfl⟩

theorem Shows.longer (h : e.Shows slots r row) (longer : row <+: row') : e.Shows slots r row' := by
  obtain ⟨more, rfl⟩ := longer
  refine h.imp fun m k ⟨member, found⟩ => ⟨member, ?_⟩
  rw [Row.get?, List.lookup_append, show row.lookup k.column = some (m.value r) from found]
  rfl

/-- A row of the table is shown by the select over it. -/
theorem shows_seen (complete : e.Complete r) : e.Shows e.seen r (Forward.row e.forwards r) := by
  refine Shows.through ?_
  rw [Shows, slots, List.forall₂_map_right_iff, List.forall₂_same]
  intro m hm
  obtain ⟨v, found⟩ := Option.isSome_iff_exists.mp (complete m hm)
  exact ⟨rfl, by rw [found, Member.value, found]; rfl⟩

end Mapping.Entity

inductive Condition where
  | const (v : Value)
  | owner (member : String)
  | element (member : String)
  | binary (op : BinaryOp) (left right : Condition)
  | unary (op : UnaryOp) (operand : Condition)

namespace Condition

def expr (c x : Param) : Condition → Expr
  | .const v => .const v
  | .owner member => .member (.param c) member
  | .element member => .member (.param x) member
  | .binary op left right => .binary op (left.expr c x) (right.expr c x)
  | .unary op operand => .unary op (operand.expr c x)

def asked (owner element : Expr) : Condition → Expr
  | .const v => .const v
  | .owner member => owner.bindMember member
  | .element member => element.bindMember member
  | .binary op left right => .binary op (left.asked owner element) (right.asked owner element)
  | .unary op operand => .unary op (operand.asked owner element)

def Mapped (e t : Mapping.Entity) : Condition → Prop
  | .const _ => True
  | .owner member => e.hasMember member = true
  | .element member => t.hasMember member = true
  | .binary _ left right => left.Mapped e t ∧ right.Mapped e t
  | .unary _ operand => operand.Mapped e t

def value (e t : Mapping.Entity) (r r' : Row) : Condition → Result Value
  | .const v => .ok v
  | .owner member => .ok (e.valueOf member r)
  | .element member => .ok (t.valueOf member r')
  | .binary op left right => do Value.binary op (← left.value e t r r') (← right.value e t r r')
  | .unary op operand => do Value.unary op (← operand.value e t r r')

def admits (c : Condition) (e t : Mapping.Entity) (r r' : Row) : Bool :=
  match c.value e t r r' with
  | .ok (.bool true) => true
  | _ => false

variable {c : Condition} {e t : Mapping.Entity} {slots slots' : List Slot} {rel rel' : Alias} {r r' row row' : Row}

theorem unaggregated (c : Condition) (entity entity' : String) (rel rel' : Alias) (slots slots' : List Slot) :
    (Part.expr (c.asked (.record entity rel slots) (.record entity' rel' slots'))).aggregates = false := by
  have member : ∀ entity rel slots name,
      (Part.expr ((Expr.record entity rel slots).bindMember name)).aggregates = false := by
    intro entity rel slots name
    rcases Expr.bindMember_record_cases entity rel slots name with ⟨k, -, -, bound⟩ | bound
    · simp [bound, Part.aggregates_eq, Part.isAggregate, Part.parts]
    · have record : (Part.expr (.record entity rel slots)).aggregates = false := by
        simp [Expr.record, Slot.field, Part.aggregates_eq, Part.isAggregate, Part.parts]
      rw [bound, Part.aggregates_eq]
      simp [Part.isAggregate, Part.parts, record]
  induction c with
  | const v => simp [asked, Part.aggregates_eq, Part.isAggregate, Part.parts]
  | owner => exact member _ _ _ _
  | element => exact member _ _ _ _
  | binary op left right ihl ihr =>
    rw [asked, Part.aggregates_eq]
    simp [Part.isAggregate, Part.parts, ihl, ihr]
  | unary op operand ih =>
    rw [asked, Part.aggregates_eq]
    simp [Part.isAggregate, Part.parts, ih]

/-- A condition on rows that are shown has the value for the rows of the tables. -/
theorem scalar_asked (mapped : c.Mapped e t) (owner : σ.rows.lookup rel = some (some row))
    (shown : e.Shows slots r row) (element : σ.rows.lookup rel' = some (some row'))
    (shown' : t.Shows slots' r' row') :
    scalar tables (c.asked (.record e.name rel slots) (.record t.name rel' slots')) σ = c.value e t r r' := by
  induction c with
  | const v => rw [asked, scalar, value]
  | owner name =>
    obtain ⟨k, hk, found⟩ := shown.find? mapped
    rw [asked, Expr.bindMember_record hk, value]
    exact scalar_found owner found k.type
  | element name =>
    obtain ⟨k, hk, found⟩ := shown'.find? mapped
    rw [asked, Expr.bindMember_record hk, value]
    exact scalar_found element found k.type
  | binary op left right ihl ihr => rw [asked, scalar, value, ihl mapped.1, ihr mapped.2]
  | unary op operand ih => rw [asked, scalar, value, ih mapped]

/-- Rows for which the condition is known are kept if it admits them. -/
theorem meets_asked (mapped : c.Mapped e t) (owner : σ.rows.lookup rel = some (some row))
    (shown : e.Shows slots r row) (element : σ.rows.lookup rel' = some (some row'))
    (shown' : t.Shows slots' r' row') {b : Bool}
    (h : meets tables (some (c.asked (.record e.name rel slots) (.record t.name rel' slots'))) σ = .ok b) :
    b = c.admits e t r r' := by
  rw [meets, scalar_asked mapped owner shown element shown'] at h
  obtain ⟨v, hv, h⟩ := bind_eq_ok.mp h
  rw [admits, hv]
  rcases v with _ | ⟨_ | _⟩ | _ | _ | _ | _ <;> simp_all [holds, Value.truth]

section Binding

open Binding

variable {ctx : Context} {fuel : Nat} {x y : Param} {s : BindState}

/-- A condition is bound over what its parameters stand for, and nothing else changes. -/
theorem bindAt_run (c : Condition) (root : Bool) (owner : s.params.lookup x = some (.record e.name rel slots))
    (element : s.params.lookup y = some (.record t.name rel' slots')) :
    ((c.expr x y).bindAt ctx fuel root).run s
      = .ok (c.asked (.record e.name rel slots) (.record t.name rel' slots'), s) := by
  induction c generalizing root with
  | const v => exact bindAt_const v
  | owner name => exact record_run owner name root
  | element name => exact record_run element name root
  | binary op left right ihl ihr =>
    rw [expr, Expr.bindAt] <;> try simp
    exact yields.bind (ihl false) (yields.bind (ihr false) (yields.pure _ _))
  | unary op operand ih =>
    rw [expr, Expr.bindAt] <;> try simp
    exact yields.bind (ih false) (yields.pure _ _)

end Binding

def matching (keys : String × String) : Condition := .binary .eq (.element keys.2) (.owner keys.1)

def all? : List Condition → Option Condition
  | [] => none
  | c :: rest => some (rest.foldl (.binary .and) c)

theorem asked_all? (owner element : Expr) (cs : List Condition) :
    (all? cs).map (asked owner element) = Expr.conjoin? (cs.map (asked owner element)) := by
  have folded : ∀ (rest : List Condition) (c : Condition), (rest.foldl (.binary .and) c).asked owner element
      = (rest.map (asked owner element)).foldl .both (c.asked owner element) := by
    intro rest
    induction rest with
    | nil => exact fun _ => rfl
    | cons d rest ih => exact fun c => ih (.binary .and c d)
  cases cs with
  | nil => rfl
  | cons c rest => exact congrArg some (folded rest c)

theorem mapped_all? {cs : List Condition} (h : ∀ c ∈ cs, c.Mapped e t) : ∀ c ∈ all? cs, c.Mapped e t := by
  have folded : ∀ (rest : List Condition) (c : Condition), c.Mapped e t → (∀ d ∈ rest, d.Mapped e t) →
      (rest.foldl (.binary .and) c).Mapped e t := by
    intro rest
    induction rest with
    | nil => exact fun _ h _ => h
    | cons d rest ih => exact fun c h hs => ih _ ⟨h, hs d (by simp)⟩ fun d hd => hs d (by simp [hd])
  cases cs with
  | nil => simp [all?]
  | cons c rest =>
    rintro _ ⟨⟩
    exact folded rest c (h c (by simp)) fun d hd => h d (by simp [hd])

theorem admits_both (c d : Condition) (e t : Mapping.Entity) (r r' : Row) :
    (Condition.binary .and c d).admits e t r r' = (c.admits e t r r' && d.admits e t r r') := by
  simp only [admits, value]
  cases c.value e t r r' with
  | error => rfl
  | ok v =>
    cases d.value e t r r' with
    | error =>
      rcases v with _ | ⟨_ | _⟩ | _ | _ | _ | _ <;> rfl
    | ok w =>
      rcases v with _ | ⟨_ | _⟩ | _ | _ | _ | _ <;> rcases w with _ | ⟨_ | _⟩ | _ | _ | _ | _ <;> rfl

theorem admits_all? (cs : List Condition) (e t : Mapping.Entity) (r r' : Row) :
    (all? cs).all (·.admits e t r r') = cs.all (·.admits e t r r') := by
  have folded : ∀ (rest : List Condition) (c : Condition), (rest.foldl (.binary .and) c).admits e t r r'
      = (c.admits e t r r' && rest.all (·.admits e t r r')) := by
    intro rest
    induction rest with
    | nil => simp
    | cons d rest ih => exact fun c => by rw [List.foldl_cons, ih, admits_both, List.all_cons, Bool.and_assoc]
  cases cs with
  | nil => rfl
  | cons c rest => exact folded rest c

theorem admits_matching (keys : String × String) (e t : Mapping.Entity) (r r' : Row) :
    (matching keys).admits e t r r' = Value.isEqual (t.valueOf keys.2 r') (e.valueOf keys.1 r) := by
  simp only [admits, matching, value, ok_bind, Value.binary, BinaryOp.isComparison, if_true, Value.isEqual]
  cases Value.compare (t.valueOf keys.2 r') (e.valueOf keys.1 r) with
  | error => rfl
  | ok o =>
    rcases o with _ | ⟨_ | _ | _⟩ <;> rfl

end Condition

namespace Select

variable {e t : Mapping.Entity} {owner : Alias} {keeps : Row → Row → Bool} {slots : List Slot} {s : Select Expr}

def Exposes (s : Select Expr) (e t : Mapping.Entity) (owner : Alias) (keeps : Row → Row → Bool)
    (slots : List Slot) : Prop :=
  ∀ ⦃tables : Tables⦄ ⦃σ : Scope⦄ ⦃r row : Row⦄ ⦃rows : List Row⦄, σ.rows.lookup owner = some (some row) →
    e.Shows e.seen r row → select tables s σ = .ok rows →
    ∃ base, tables.get? t.table = some base ∧ List.Forall₂ (t.Shows slots) (base.filter (keeps r)) rows

theorem exposes_rows (rel table : Alias) :
    (t.rows rel table).select.Exposes e t owner (fun _ _ => true) t.seen := by
  intro tables σ r row rows _ _ h
  obtain ⟨base, stored, complete, rfl⟩ := Mapping.Entity.select_rows.mp h
  refine ⟨base, stored, ?_⟩
  rw [List.filter_true, List.forall₂_map_right_iff, List.forall₂_same]
  exact fun r hr => Mapping.Entity.shows_seen (complete r hr)

/-- A filter over a view shows the rows that it admits. -/
theorem Exposes.layer (h : s.Exposes e t owner keeps slots) (apart : s.rel ≠ owner) {filter : Option Condition}
    (mapped : ∀ c ∈ filter, c.Mapped e t) (rel : Alias) :
    (forwarding rel s.rel (Forward.all slots) (.select s)
        (filter.map (·.asked (.record e.name owner e.seen) (.record t.name s.rel slots)))).Exposes e t owner
      (fun r r' => keeps r r' && filter.all (·.admits e t r r')) (slots.map (Slot.through (Forward.all slots))) := by
  intro tables σ r row rows inSight shown answer
  let test := filter.map (·.asked (.record e.name owner e.seen) (.record t.name s.rel slots))
  have unaggregated : ∀ e ∈ test, (Part.expr e).aggregates = false := by
    intro _ he
    obtain ⟨c, -, rfl⟩ := Option.map_eq_some_iff.mp he
    exact c.unaggregated _ _ _ _ _ _
  obtain ⟨below, hbelow⟩ := exists_source rfl answer
  have source : Eval.source tables (.select s) σ = .ok (below.map fun row' => [(s.rel, some row')]) := by
    rw [source_select, hbelow]
    rfl
  obtain ⟨base, stored, shows⟩ := h inSight shown hbelow
  have fed : ∀ row' ∈ below, Forward.Fed (Forward.all slots) row' := fun row' hrow' => by
    obtain ⟨r', -, shown'⟩ := exists_of_forall₂_right shows row' hrow'
    exact Forward.fed_of_slots shown'.isSome
  -- what the filter says of a row of the view below
  let keep : Row → Bool := fun row' => (meets tables test (σ.extend [(s.rel, some row')])).toOption.getD false
  have agrees : ∀ row' ∈ below, ∀ b, meets tables test (σ.extend [(s.rel, some row')]) = .ok b → b = keep row' := by
    intro row' _ b hb
    simp only [keep, hb]
    rfl
  obtain ⟨known, rfl⟩ := of_forwarding unaggregated source fed agrees answer
  refine ⟨base, stored, ?_⟩
  have same : List.Forall₂ (fun r' row' => t.Shows slots r' row'
      ∧ (filter.all (·.admits e t r r') = true ↔ keep row' = true)) (base.filter (keeps r)) below := by
    refine (forall₂_imp_mem shows.flip fun row' hrow' r' shown' => ⟨shown', ?_⟩).flip
    have mine : (σ.extend [(s.rel, some row')]).rows.lookup s.rel = some (some row') := by simp [Scope.extend]
    have above : (σ.extend [(s.rel, some row')]).rows.lookup owner = some (some row) := by
      simpa [Scope.extend, List.lookup_cons, beq_false_of_ne apart.symm] using inSight
    have asked := known row' hrow'
    cases filter with
    | none => simp [← Except.ok.inj asked]
    | some c =>
      rw [c.meets_asked (mapped c rfl) above shown mine shown' asked]
      rfl
  have both : base.filter (fun r' => keeps r r' && filter.all (·.admits e t r r'))
      = (base.filter (keeps r)).filter fun r' => filter.all (·.admits e t r r') := by
    rw [List.filter_filter]
    exact List.filter_congr fun r' _ => Bool.and_comm _ _
  rw [both, List.forall₂_map_right_iff]
  exact (List.rel_filter (fun _ _ h => h.2) same).imp fun _ _ h => h.1.through

/-- More columns leave the rows as they are, and add to them. -/
theorem Straight.more {added : List (ColumnDecl Expr)} (straight : s.Straight)
    (single : ∀ d ∈ s.columns ++ added, d.Single) (tables : Tables) (σ : Scope) :
    Follows (List.Forall₂ (· <+: ·)) (select tables s σ)
      (select tables { s with columns := s.columns ++ added } σ) := by
  let s' : Select Expr := { s with columns := s.columns ++ added }
  have straight' : s'.Straight :=
    { straight with unnumbered := Correspondence.numbering?_eq_none fun d hd => (single d hd).2 }
  have aggregates : s'.hasAggregates = s.hasAggregates := by
    have none : added.any (fun d => (Part.expr d.expr).aggregates) = false :=
      List.any_eq_false.mpr fun d hd => by simp [(single d (List.mem_append_right _ hd)).1]
    simp [s', hasAggregates, none]
  rw [straight.select_eq, straight'.select_eq]
  refine Follows.bind_same (Follows.refl _) fun frames => Follows.bind_same ?_ fun kept =>
    Follows.bind_same ?_ fun scopes => ?_
  · rw [filtered_eq, filtered_eq]
    exact Follows.refl _
  · rw [scopes_eq, scopes_eq, aggregates]
    exact Follows.refl _
  · refine Follows.mapM (R := Eq) (List.forall₂_refl scopes) fun τ _ τ' same row' h => ?_
    rw [← same, rowOf_append] at h
    obtain ⟨row, hrow, h⟩ := bind_eq_ok.mp h
    obtain ⟨more, -, h⟩ := bind_eq_ok.mp h
    exact ⟨row, hrow, more, Except.ok.inj h⟩

theorem single_column {d : ColumnDecl Expr} {c : Column} (h : d.expr = .column c) : d.Single := by
  simp [ColumnDecl.Single, h, Part.aggregates_eq, Part.isAggregate, Part.parts]

/-- The test of a join leaves what a view shows. -/
theorem Exposes.tested {rel src : Alias} {forwards : List Forward} {base projector : Expr} {filter : Option Expr}
    {pick : Option Pick} (h : (forwarding rel src forwards base filter).Exposes e t owner keeps slots) :
    (Projection.withJoinTest ⟨forwarding rel src forwards base filter, projector, pick⟩).select.Exposes e t owner
      keeps slots := by
  let s := forwarding rel src forwards base filter
  obtain ⟨added, columns, test⟩ : ∃ added,
      (ColumnDecl.provide s.columns (s.joinTest.baseName "Test") s.joinTest).2 = s.columns ++ added
        ∧ ∀ d ∈ added, d.expr = s.joinTest := by
    rw [ColumnDecl.provide]
    split
    · exact ⟨[], (List.append_nil _).symm, by simp⟩
    · exact ⟨_, rfl, by simp [ColumnDecl.of]⟩
  have forwarded : ∀ d ∈ s.columns, d.Single := by
    intro d hd
    obtain ⟨f, -, rfl⟩ := List.mem_map.mp hd
    exact single_column rfl
  have single : ∀ d ∈ s.columns ++ added, d.Single := by
    intro d hd
    rcases List.mem_append.mp hd with hd | hd
    · exact forwarded d hd
    · rcases s.joinTest_cases with ⟨c, column⟩ | one
      · exact single_column ((test d hd).trans column)
      · simp [ColumnDecl.Single, test d hd, one, Expr.int, Part.aggregates_eq, Part.isAggregate, Part.parts]
  have straight : s.Straight := ⟨rfl, rfl, rfl, rfl, rfl,
    Correspondence.numbering?_eq_none fun d hd => (forwarded d hd).2⟩
  intro tables σ r row rows inSight shown answer
  have answer : select tables { s with columns := s.columns ++ added } σ = .ok rows := columns ▸ answer
  obtain ⟨rows', answer', longer⟩ := straight.more single tables σ rows answer
  obtain ⟨stored, found, shows⟩ := h inSight shown answer'
  exact ⟨stored, found, forall₂_trans (fun _ _ _ shown longer => shown.longer longer) shows longer⟩

end Select

end ObjectQuery
