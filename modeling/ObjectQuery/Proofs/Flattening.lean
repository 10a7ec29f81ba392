import ObjectQuery.Proofs.Layering
import ObjectQuery.Proofs.Views

/-!
Flattening collections. A collection of an element is a table or what an association leads to, filtered any
number of times. Joined to the rows of a table, it yields an object for each row and each member of its
collection, in order; a default keeps the rows whose collection is empty, unless the collection is a bare
table.
-/

namespace ObjectQuery

open Eval

def Select.Uncorrelated (s : Select Expr) : Prop :=
  ∀ ⦃tables : Tables⦄ ⦃σ σ' : Scope⦄ ⦃rows : List Row⦄, select tables s σ = .ok rows →
    select tables s σ' = .ok rows

inductive Collection where
  | table (name : String)
  | association (name : String)
  | filter (source : Collection) (x : Param) (condition : Condition)

namespace Collection

def expr (c : Param) : Collection → Expr
  | .table name => .operator (.table name)
  | .association name => .member (.param c) name
  | .filter source x condition => .operator (.filter (source.expr c) ⟨[x], condition.expr c x⟩)

def isTable : Collection → Bool
  | .table _ => true
  | _ => false

inductive Leads (m : Mapping) (e : Mapping.Entity) (c : Param) : Collection → Mapping.Entity → Prop
  | table {name : String} {t : Mapping.Entity} : m.resolve name = .ok t → Leads m e c (.table name) t
  | association {name : String} {a : Mapping.Association} {t : Mapping.Entity} :
    m.association? e.name name = some a → e.hasMember name = false →
    m.resolve a.target = .ok t → (∀ key ∈ a.keys, e.hasMember key = true) →
    (∀ key ∈ a.relatedKeys, t.hasMember key = true) → Leads m e c (.association name) t
  | filter {source : Collection} {x : Param} {condition : Condition} {t : Mapping.Entity} :
    Leads m e c source t → x ≠ c → condition.Mapped e t → Leads m e c (.filter source x condition) t

def keeps (m : Mapping) (e t : Mapping.Entity) (r r' : Row) : Collection → Bool
  | .table _ => true
  | .association name => match m.association? e.name name with
    | none => false
    | some a => (a.keys.zip a.relatedKeys).all fun keys =>
      Value.isEqual (t.valueOf keys.2 r') (e.valueOf keys.1 r)
  | .filter source _ condition => source.keeps m e t r r' && condition.admits e t r r'

section Binding

open Binding

variable {ctx : Context} {fuel : Nat} {e t : Mapping.Entity} {c : Param} {S : Collection}

structure Bound (S : Collection) (m : Mapping) (e t : Mapping.Entity) (owner : Alias) (q : Projection Expr)
    (slots : List Slot) : Prop where
  projector : q.projector = .record t.name q.select.rel slots
  forwards : ∃ src forwards base filter, q.select = .forwarding q.select.rel src forwards base filter
    ∧ ((∃ table, base = .table table) ↔ S.isTable = true)
  named : slots.map (·.member) = t.members.map (·.name)
  exposes : q.select.Exposes e t owner (fun r r' => S.keeps m e t r r') slots
  uncorrelated : S.isTable = true → q.select.Uncorrelated

theorem map_member_through (forwards : List Forward) (slots : List Slot) :
    (slots.map (Slot.through forwards)).map (·.member) = slots.map (·.member) := by
  rw [List.map_map]
  exact List.map_congr_left fun k _ => Slot.member_through forwards k

theorem map_member_seen (t : Mapping.Entity) : t.seen.map (·.member) = t.members.map (·.name) := by
  rw [Mapping.Entity.seen, map_member_through, Mapping.Entity.slots, List.map_map]
  rfl

theorem bound_table {m : Mapping} {owner : Alias} (name : String) (rel table : Alias) :
    (Collection.table name).Bound m e t owner (t.rows rel table) t.seen where
  projector := rfl
  forwards := ⟨_, _, _, _, rfl, by simp [isTable]⟩
  named := map_member_seen t
  exposes := Select.exposes_rows rel table
  uncorrelated _ _ _ _ _ h := Mapping.Entity.select_rows.mpr (Mapping.Entity.select_rows.mp h)

section Association

variable {name : String} {a : Mapping.Association} {n o : Nat}

/-- The keys of an association are a condition on the row of the target and the row of the owner. -/
theorem condition_matching (root inner : Expr) : a.condition? root inner
    = (Condition.all? ((a.keys.zip a.relatedKeys).map .matching)).map (·.asked root inner) := by
  rw [Condition.asked_all?, Mapping.Association.condition?, List.map_map]
  rfl

theorem keeps_association {m : Mapping} (found : m.association? e.name name = some a) (r r' : Row) :
    (Collection.association name).keeps m e t r r'
      = (true && (Condition.all? ((a.keys.zip a.relatedKeys).map .matching)).all (·.admits e t r r')) := by
  simp only [keeps, found, Condition.admits_all?, List.all_map, Function.comp_def, Condition.admits_matching,
    Bool.true_and]

theorem bound_other {m : Mapping} {owner rel source table : Alias} (found : m.association? e.name name = some a)
    (keys : ∀ key ∈ a.keys, e.hasMember key = true) (related : ∀ key ∈ a.relatedKeys, t.hasMember key = true)
    (apart : source ≠ owner) :
    (Collection.association name).Bound m e t owner
      (a.other t (.record e.name owner e.seen) rel source table) t.reseen where
  projector := rfl
  forwards := ⟨_, _, _, _, rfl, by simp [isTable]⟩
  named := (map_member_through _ _).trans (map_member_seen t)
  exposes := by
    have pairs : ∀ p ∈ a.keys.zip a.relatedKeys, (Condition.matching p).Mapped e t := fun p hp =>
      ⟨related p.2 (List.of_mem_zip hp).2, keys p.1 (List.of_mem_zip hp).1⟩
    simp only [keeps_association found]
    rw [Mapping.Association.other, condition_matching]
    exact (Select.exposes_rows source table).layer apart
      (Condition.mapped_all? (List.forall_mem_map.mpr pairs)) rel
  uncorrelated := by simp [isTable]

/-- What is no member of the owner but an association is navigated. -/
theorem association_run {s : BindState} (owner : s.params.lookup c = some (.record e.name ⟨o⟩ e.seen))
    (supply : s.supply = ⟨n⟩) (found : ctx.mapping.association? e.name name = some a)
    (unmapped : e.hasMember name = false) (resolved : ctx.mapping.resolve a.target = .ok t) :
    (sequence ctx ((Expr.member (.param c) name).bindAt ctx fuel false)).run s
      = .ok (a.other t (.record e.name ⟨o⟩ e.seen) ⟨n + 2⟩ ⟨n + 1⟩ ⟨n⟩, { s with supply := ⟨n + 3⟩ }) := by
  let root := Expr.record e.name ⟨o⟩ e.seen
  have left : root.bindMember name = .member root name := by
    rcases Expr.bindMember_record_cases e.name ⟨o⟩ e.seen name with ⟨k, hk, named, -⟩ | left
    · obtain ⟨m, hm, same⟩ := e.members_seen k hk
      have has : e.hasMember name = true := List.any_eq_true.mpr ⟨m, hm, by simp [same, named]⟩
      rw [unmapped] at has
      cases has
    · exact left
  have access : ((Expr.member (.param c) name).bindAt ctx fuel false).run s = .ok (.member root name, s) := by
    rw [← left]
    exact record_run owner name false
  have association : ctx.mapping.isAssociation e.name name = true := by
    rw [Mapping.isAssociation, found]
    rfl
  have navigated : (ctx.mapping.bindMember root e.name name).run s.supply
      = .ok (.projection (a.other t root ⟨n + 2⟩ ⟨n + 1⟩ ⟨n⟩), ⟨n + 3⟩) := by
    rw [Mapping.bindMember, found, supply]
    exact Mapping.navigate_run resolved root n
  have sequence : yields.gives s (toSequence ctx (.member root name)) (a.other t root ⟨n + 2⟩ ⟨n + 1⟩ ⟨n⟩)
      { s with supply := ⟨n + 3⟩ } := by
    simp only [root, Expr.record, toSequence, association, Bool.not_true, Bool.false_eq_true, if_false]
    exact yields.bind (minting_run navigated) (yields.pure _ _)
  exact yields.bind access sequence

end Association

section Filter

variable {source : Collection} {x : Param} {condition : Condition} {select : Select Expr} {slots : List Slot}
  {pick : Option Pick}

def narrowed (t : Mapping.Entity) (rel : Alias) (select : Select Expr) (slots : List Slot) (test : Expr) :
    Projection Expr :=
  ⟨.forwarding rel select.rel (Forward.all slots) (.select select) (some test),
    .record t.name rel (slots.map (Slot.through (Forward.all slots))), none⟩

theorem Bound.filter {m : Mapping} {owner : Alias}
    (bound : source.Bound m e t owner ⟨select, .record t.name select.rel slots, pick⟩ slots)
    (mapped : condition.Mapped e t) (apart : select.rel ≠ owner) (rel : Alias) :
    (Collection.filter source x condition).Bound m e t owner
      (narrowed t rel select slots (condition.asked (.record e.name owner e.seen)
        (.record t.name select.rel slots))) (slots.map (Slot.through (Forward.all slots))) where
  projector := rfl
  forwards := ⟨_, _, _, _, rfl, by simp [isTable]⟩
  named := (map_member_through _ _).trans bound.named
  exposes := by
    have asked : ∀ c ∈ some condition, c.Mapped e t := by simpa using mapped
    exact bound.exposes.layer apart asked rel
  uncorrelated := by simp [isTable]

theorem filter_run {s s' : BindState} {o n : Nat}
    (run : (sequence ctx ((source.expr c).bindAt ctx fuel false)).run s
      = .ok (⟨select, .record t.name select.rel slots, pick⟩, s'))
    (owner : ((x, .record t.name select.rel slots) :: s'.params).lookup c = some (.record e.name ⟨o⟩ e.seen))
    (supply : s'.supply = ⟨n⟩) :
    (sequence ctx (((Collection.filter source x condition).expr c).bindAt ctx fuel false)).run s
      = .ok (narrowed t ⟨n⟩ select slots
          (condition.asked (.record e.name ⟨o⟩ e.seen) (.record t.name select.rel slots)),
        { s' with supply := ⟨n + 1⟩, params := (x, .record t.name select.rel slots) :: s'.params }) := by
  let test := condition.asked (.record e.name ⟨o⟩ e.seen) (.record t.name select.rel slots)
  let s₁ : BindState := { s' with params := (x, .record t.name select.rel slots) :: s'.params }
  have asked : (apply "Where" ⟨[x], (condition.expr c x).bindAt ctx fuel false⟩
        (.record t.name select.rel slots)).run s' = .ok (test, s₁) :=
    yields.bind (assign_run rfl) (condition.bindAt_run false owner List.lookup_cons_self)
  have parts : split ctx (.record t.name select.rel slots) ⟨n⟩ [select.rel]
      = ⟨.record t.name ⟨n⟩ (slots.map (Slot.through (Forward.all slots))),
        (Forward.all slots).map (Forward.decl select.rel)⟩ := Expr.split_record _ _ _ _ _
  have layered : (layer ctx ⟨select, .record t.name select.rel slots, pick⟩
        fun q => { q with filter := some test }).run s₁
      = .ok (narrowed t ⟨n⟩ select slots test, { s₁ with supply := ⟨n + 1⟩ }) := by
    refine yields.bind (selectOver_fresh _ _ _ supply) ?_
    simp only [parts]
    exact yields.pure _ _
  have filtered : (Binding.filter ctx ((source.expr c).bindAt ctx fuel false)
        ⟨[x], (condition.expr c x).bindAt ctx fuel false⟩).run s
      = .ok (narrowed t ⟨n⟩ select slots test, { s₁ with supply := ⟨n + 1⟩ }) :=
    yields.bind run (yields.bind asked layered)
  obtain ⟨_, operator⟩ := Expr.bindAt_operator ctx fuel false (.filter (source.expr c) ⟨[x], condition.expr c x⟩)
  rw [expr, operator]
  exact yields.bind (yields.bind filtered (yields.pure _ _)) (yields.pure _ _)

end Filter

/-- Where the parameter stands for a row of the owner, the collection is bound to what shows the rows that
belong to it, under an alias after that of the owner. -/
theorem Leads.bind_run (fuel : Nat) (leads : S.Leads ctx.mapping e c t) {s : BindState} {o n : Nat}
    (owner : s.params.lookup c = some (.record e.name ⟨o⟩ e.seen)) (supply : s.supply = ⟨n⟩) (before : o < n) :
    ∃ q slots k s', (sequence ctx ((S.expr c).bindAt ctx fuel false)).run s = .ok (q, s')
      ∧ S.Bound ctx.mapping e t ⟨o⟩ q slots ∧ q.select.rel = ⟨k⟩ ∧ o < k ∧ (∃ m, k < m ∧ s'.supply = ⟨m⟩)
      ∧ s'.params.lookup c = some (.record e.name ⟨o⟩ e.seen) := by
  induction leads with
  | table resolved =>
    exact ⟨_, _, n + 1, _, sequence_run (table_run resolved false supply), bound_table _ _ _, rfl, by omega,
      ⟨n + 2, by omega, rfl⟩, owner⟩
  | association found unmapped resolved keys related =>
    have apart : (⟨n + 1⟩ : Alias) ≠ ⟨o⟩ := by simp; omega
    exact ⟨_, _, n + 2, _, association_run owner supply found unmapped resolved,
      bound_other found keys related apart, rfl, by omega, ⟨n + 3, by omega, rfl⟩, owner⟩
  | @filter source x condition t leads apart mapped ih =>
    obtain ⟨⟨select, projector, pick⟩, slots, k, s', run, bound, rel, after, ⟨m, fresh, supply'⟩, owner'⟩ := ih
    obtain rfl : projector = .record t.name select.rel slots := bound.projector
    have owner'' : ((x, .record t.name select.rel slots) :: s'.params).lookup c
        = some (.record e.name ⟨o⟩ e.seen) := by
      rw [List.lookup_cons, beq_false_of_ne apart.symm]
      exact owner'
    have other : select.rel ≠ ⟨o⟩ := by
      rw [rel]
      simp
      omega
    exact ⟨_, _, m, _, filter_run run owner'' supply', bound.filter mapped other _, rfl, by omega,
      ⟨m + 1, by omega, rfl⟩, owner''⟩

end Binding

end Collection

structure Taken where
  name : String
  fromElement : Bool
  member : String

namespace Taken

def field (c x : Param) (f : Taken) : Field Expr :=
  ⟨f.name, .member (.param (if f.fromElement then x else c)) f.member⟩

def read (owner element : Expr) (f : Taken) : Field Expr :=
  ⟨f.name, (if f.fromElement then element else owner).bindMember f.member⟩

def Mapped (e t : Mapping.Entity) (f : Taken) : Prop :=
  (if f.fromElement then t else e).hasMember f.member = true

def value (e t : Mapping.Entity) (r : Row) (r' : Option Row) (f : Taken) : Value :=
  if f.fromElement then (r'.map (t.valueOf f.member)).getD .null else e.valueOf f.member r

def object (e t : Mapping.Entity) (fields : List Taken) (r : Row) (r' : Option Row) : ClientValue :=
  .object none (fields.map fun f => (f.name, .ofValue (f.value e t r r')))

end Taken

inductive Pairs (e t : Mapping.Entity) (owner rel : Alias) (slots : List Slot) : Row × Option Row → Frame → Prop
  | both {r r' row row' : Row} : e.Shows e.seen r row → t.Shows slots r' row' →
    Pairs e t owner rel slots (r, some r') [(owner, some row), (rel, some row')]
  | alone {r row : Row} : e.Shows e.seen r row →
    Pairs e t owner rel slots (r, none) [(owner, some row), (rel, none)]

section Results

variable {tables : Tables} {e t : Mapping.Entity} {owner rel : Alias} {slots : List Slot} {f : Taken}

theorem exists_slot (named : slots.map (·.member) = t.members.map (·.name)) {name : String}
    (mapped : t.hasMember name = true) : ∃ k, slots.find? (·.member == name) = some k := by
  rw [← Option.isSome_iff_exists, List.find?_isSome]
  obtain ⟨m, hm, same⟩ := List.any_eq_true.mp mapped
  obtain ⟨k, hk, named⟩ := List.mem_map.mp (named ▸ List.mem_map_of_mem hm : m.name ∈ slots.map (·.member))
  exact ⟨k, hk, by rw [named]; exact same⟩

namespace Taken

variable (owner rel) in
/-- A mapped member is a column of one of the two relations. -/
theorem expr_read (named : slots.map (·.member) = t.members.map (·.name)) (mapped : f.Mapped e t) :
    ∃ c, (f.read (.record e.name owner e.seen) (.record t.name rel slots)).expr = .column c
      ∧ c.rel = if f.fromElement then rel else owner := by
  rw [Mapped] at mapped
  rw [read]
  cases side : f.fromElement with
  | true =>
    rw [side] at mapped
    obtain ⟨k, hk⟩ := exists_slot named mapped
    exact ⟨_, Expr.bindMember_record hk, rfl⟩
  | false =>
    rw [side] at mapped
    obtain ⟨k, hk⟩ := exists_slot (Collection.map_member_seen e) mapped
    exact ⟨_, Expr.bindMember_record hk, rfl⟩

/-- The test of a join does not stand before a member. -/
theorem read_outerJoined (named : slots.map (·.member) = t.members.map (·.name)) (mapped : f.Mapped e t)
    (test : Expr) : f.read (.record e.name owner e.seen) (.outerJoined test (.record t.name rel slots))
      = f.read (.record e.name owner e.seen) (.record t.name rel slots) := by
  rw [Mapped] at mapped
  rw [read, read]
  cases side : f.fromElement with
  | true =>
    rw [side] at mapped
    obtain ⟨k, hk⟩ := exists_slot named mapped
    simp only [if_true, Expr.bindMember, Expr.bindMember_record hk]
  | false => rfl

/-- Over two rows that stand side by side, a member has its value; it is null where the second is missing. -/
theorem scalar_read (named : slots.map (·.member) = t.members.map (·.name)) (mapped : f.Mapped e t)
    (apart : owner ≠ rel) {x : Row × Option Row} {frame : Frame} (pairs : Pairs e t owner rel slots x frame)
    (σ : Scope) :
    scalar tables (f.read (.record e.name owner e.seen) (.record t.name rel slots)).expr (σ.extend frame)
      = .ok (f.value e t x.1 x.2) := by
  have above : ∀ (row : Row) (y : Option Row), (σ.extend [(owner, some row), (rel, y)]).rows.lookup owner
      = some (some row) := by
    intro row y
    simp [Scope.extend, List.lookup_cons, beq_false_of_ne apart]
  have beside : ∀ (row : Row) (y : Option Row), (σ.extend [(owner, some row), (rel, y)]).rows.lookup rel
      = some y := by
    intro row y
    simp [Scope.extend]
  rw [Mapped] at mapped
  rw [read, value]
  cases side : f.fromElement with
  | false =>
    rw [side] at mapped
    obtain ⟨r, row, y, rfl, shown, rfl⟩ : ∃ r row y, x.1 = r ∧ e.Shows e.seen r row
        ∧ frame = [(owner, some row), (rel, y)] := by
      cases pairs with
      | both shown _ => exact ⟨_, _, _, rfl, shown, rfl⟩
      | alone shown => exact ⟨_, _, _, rfl, shown, rfl⟩
    obtain ⟨k, hk, found⟩ := shown.find? mapped
    simp only [Bool.false_eq_true, if_false, Expr.bindMember_record hk]
    exact scalar_found (above row y) found k.type
  | true =>
    rw [side] at mapped
    cases pairs with
    | @both r r' row row' _ shown =>
      obtain ⟨k, hk, found⟩ := shown.find? mapped
      simp only [if_true, Expr.bindMember_record hk]
      exact scalar_found (beside row (some row')) found k.type
    | @alone r row =>
      obtain ⟨k, hk⟩ := exists_slot named mapped
      simp only [if_true, Expr.bindMember_record hk]
      rw [scalar, Scope.column, Slot.ref, beside]
      rfl

end Taken

def Taken.shape (owner element : Expr) (fields : List Taken) : Expr :=
  .construct none (fields.map (·.read owner element))

variable {fields : List Taken}

theorem Taken.client_shape (named : slots.map (·.member) = t.members.map (·.name))
    (mapped : ∀ f ∈ fields, f.Mapped e t) (apart : owner ≠ rel) {x : Row × Option Row} {frame : Frame}
    (pairs : Pairs e t owner rel slots x frame) (σ : Scope) (joined : List (Alias × JoinedRows)) :
    (client tables (shape (.record e.name owner e.seen) (.record t.name rel slots) fields)
        (σ.extend frame)).run joined
      = .ok (object e t fields x.1 x.2, joined) := by
  have each : ∀ f ∈ fields, Eval.reading.gives joined
      (do return ((f.read (.record e.name owner e.seen) (.record t.name rel slots)).name, ← client tables
        (f.read (.record e.name owner e.seen) (.record t.name rel slots)).expr (σ.extend frame)))
      (f.name, .ofValue (f.value e t x.1 x.2)) joined := by
    intro f hf
    obtain ⟨c, column, -⟩ := expr_read owner rel named (mapped f hf)
    refine Eval.reading.bind (client_value_run ?_ (scalar_read named (mapped f hf) apart pairs σ) joined)
      (Eval.reading.pure _ _)
    rw [column]
    rfl
  rw [shape, client_construct, List.mapM_map]
  exact Eval.reading.bind (Eval.reading.mapM_map each) (Eval.reading.pure _ _)

theorem Taken.client_shapes (named : slots.map (·.member) = t.members.map (·.name))
    (mapped : ∀ f ∈ fields, f.Mapped e t) (apart : owner ≠ rel) {xs : List (Row × Option Row)}
    {frames : List Frame} (pairs : List.Forall₂ (Pairs e t owner rel slots) xs frames) :
    (frames.mapM fun frame => client tables
        (shape (.record e.name owner e.seen) (.record t.name rel slots) fields) (Scope.root.extend frame)).run []
      = .ok (xs.map fun x => object e t fields x.1 x.2, []) := by
  induction pairs with
  | nil => rfl
  | cons pair _ ih =>
    rw [List.mapM_cons]
    exact Eval.reading.bind (client_shape named mapped apart pair .root [])
      (Eval.reading.bind ih (Eval.reading.pure _ _))

theorem Taken.splits_shape (named : slots.map (·.member) = t.members.map (·.name))
    (mapped : ∀ f ∈ fields, f.Mapped e t) :
    (shape (.record e.name owner e.seen) (.record t.name rel slots) fields).Splits (fun _ => False)
      (· ∈ [owner, rel]) := by
  let result := shape (.record e.name owner e.seen) (.record t.name rel slots) fields
  have columns : ∀ q ∈ (Part.expr result).parts, ∃ c : Column, q = .expr (.column c) ∧ c.rel ∈ [owner, rel] := by
    intro q hq
    simp only [result, shape, Part.parts, List.map_map, List.mem_map] at hq
    obtain ⟨f, hf, rfl⟩ := hq
    obtain ⟨c, column, side⟩ := expr_read owner rel named (mapped f hf)
    refine ⟨c, congrArg Part.expr column, ?_⟩
    rw [side]
    split <;> simp
  have every : ∀ {P : Part → Prop}, P (.expr result) →
      (∀ c : Column, c.rel ∈ [owner, rel] → P (.expr (.column c))) → (Part.expr result).Every P := by
    intro P here reads
    refine .node here fun q hq => ?_
    obtain ⟨c, rfl, side⟩ := columns q hq
    exact .node (reads c side) (by simp [Part.parts])
  refine ⟨every trivial fun _ side => side, ?_, every trivial fun _ _ => trivial⟩
  have under : (Part.expr result).parts.any Part.aggregates = false := by
    refine List.any_eq_false.mpr fun q hq => ?_
    obtain ⟨c, rfl, -⟩ := columns q hq
    simp [Part.aggregates_eq, Part.isAggregate, Part.parts]
  rw [Part.aggregates_eq, under]
  rfl

end Results

def padded (keepsEmpty : Bool) (rows : List Row) : List (Option Row) :=
  if keepsEmpty && rows.isEmpty then [none] else rows.map some

section Joins

variable {tables : Tables} {σ : Scope} {e t : Mapping.Entity} {owner : Alias} {slots : List Slot}
  {keeps : Row → Row → Bool} {kind : JoinKind} {p q : Select Expr}

/-- A join puts each row beside the rows of the right side that meet its condition. -/
theorem Eval.frames_joined {on : Option Expr} (inner : kind ≠ .leftOuter) {frames : List Frame}
    (h : Eval.source tables (.join kind (.select p) (.select q) on) σ = .ok frames) :
    ∃ rows groups, select tables p σ = .ok rows ∧ frames = groups.flatten
      ∧ List.Forall₂ (fun row group => ∃ rights matched,
        select tables q (if kind.isApply then σ.bind p.rel row else σ) = .ok rights
        ∧ rights.filterM (fun row' => meets tables on ((σ.bind p.rel row).bind q.rel row')) = .ok matched
        ∧ group = (padded (kind == .outerApply) matched).map fun y => [(p.rel, some row), (q.rel, y)])
        rows groups := by
  have beside : ∀ (row : Row) {rights : List Row} {group : List Frame},
      joinFrame tables kind (.select q) on σ [(p.rel, some row)] (rights.map fun row' => [(q.rel, some row')])
        = .ok group → ∃ matched,
      rights.filterM (fun row' => meets tables on ((σ.bind p.rel row).bind q.rel row')) = .ok matched
        ∧ group = (padded (kind == .outerApply) matched).map fun y => [(p.rel, some row), (q.rel, y)] := by
    intro row rights group h
    have outer : (kind == .leftOuter || kind == .outerApply) = (kind == .outerApply) := by
      cases kind <;> first | rfl | exact absurd rfl inner
    obtain ⟨_, hmatched, h⟩ := bind_eq_ok.mp h
    obtain ⟨matched, kept, rfl⟩ := filterM_map hmatched
    refine ⟨matched, kept, ?_⟩
    rw [outer, List.isEmpty_map, Bool.and_comm] at h
    rw [padded]
    split at h
    · rename_i empty
      rw [if_pos empty]
      exact (Except.ok.inj h).symm
    · rename_i some
      rw [if_neg some, List.map_map, ← Except.ok.inj h, List.map_map]
      rfl
  cases apply : kind.isApply with
  | true =>
    rw [source_apply apply, source_select] at h
    obtain ⟨lefts, hlefts, h⟩ := bind_eq_ok.mp h
    obtain ⟨rows, hrows, hlefts⟩ := bind_eq_ok.mp hlefts
    obtain rfl := Except.ok.inj hlefts
    obtain ⟨groups, hgroups, h⟩ := bind_eq_ok.mp h
    refine ⟨rows, groups, hrows, (Except.ok.inj h).symm, ?_⟩
    refine (List.forall₂_map_left_iff.mp (forall₂_of_mapM hgroups)).imp fun row group made => ?_
    rw [source_select] at made
    obtain ⟨_, hrights, made⟩ := bind_eq_ok.mp made
    obtain ⟨rights, found, hrights⟩ := bind_eq_ok.mp hrights
    obtain rfl := Except.ok.inj hrights
    obtain ⟨matched, kept, same⟩ := beside row made
    exact ⟨rights, matched, found, kept, same⟩
  | false =>
    rw [source_join apply, source_select, source_select] at h
    obtain ⟨lefts, hlefts, h⟩ := bind_eq_ok.mp h
    obtain ⟨rows, hrows, hlefts⟩ := bind_eq_ok.mp hlefts
    obtain rfl := Except.ok.inj hlefts
    obtain ⟨_, hrights, h⟩ := bind_eq_ok.mp h
    obtain ⟨rights, found, hrights⟩ := bind_eq_ok.mp hrights
    obtain rfl := Except.ok.inj hrights
    obtain ⟨groups, hgroups, h⟩ := bind_eq_ok.mp h
    refine ⟨rows, groups, hrows, (Except.ok.inj h).symm, ?_⟩
    refine (List.forall₂_map_left_iff.mp (forall₂_of_mapM hgroups)).imp fun row group made => ?_
    obtain ⟨matched, kept, same⟩ := beside row made
    exact ⟨rights, matched, found, kept, same⟩

def Tables.stored (tables : Tables) (e : Mapping.Entity) : List Row := (tables.get? e.table).getD []

theorem pairs_padded {rel : Alias} {r row : Row} {rows rights : List Row} (keepsEmpty : Bool)
    (shown : e.Shows e.seen r row) (shows : List.Forall₂ (t.Shows slots) rows rights) :
    List.Forall₂ (Pairs e t owner rel slots) ((padded keepsEmpty rows).map (r, ·))
      ((padded keepsEmpty rights).map fun y => [(owner, some row), (rel, y)]) := by
  rw [padded, padded, forall₂_isEmpty shows]
  split
  · exact .cons (.alone shown) .nil
  · rw [List.map_map, List.map_map, List.forall₂_map_left_iff, List.forall₂_map_right_iff]
    exact shows.imp fun _ _ shown' => .both shown shown'

/-- The rows of a table stand beside the rows of their collections. -/
theorem pairs_joined {table : Alias} (inner : kind ≠ .leftOuter) (exposes : q.Exposes e t owner keeps slots)
    (uncorrelated : kind.isApply = false → q.Uncorrelated)
    {frames : List Frame}
    (h : Eval.source tables (.join kind (.select (e.rows owner table).select) (.select q) none) σ = .ok frames) :
    List.Forall₂ (Pairs e t owner q.rel slots) ((tables.stored e).flatMap fun r =>
      (padded (kind == .outerApply) ((tables.stored t).filter (keeps r))).map (r, ·)) frames := by
  obtain ⟨rows, groups, hrows, rfl, made⟩ := frames_joined inner h
  obtain ⟨base, stored, complete, rfl⟩ := Mapping.Entity.select_rows.mp hrows
  have own : tables.stored e = base := by
    rw [Tables.stored, stored]
    rfl
  rw [own, List.flatMap_def]
  refine List.rel_flatten ?_
  rw [List.forall₂_map_left_iff]
  refine forall₂_imp_mem (List.forall₂_map_left_iff.mp made) fun r hr group ⟨rights, matched, found, kept, same⟩ => ?_
  have shown := Mapping.Entity.shows_seen (complete r hr)
  let row := Forward.row e.forwards r
  have found : select tables q (σ.bind owner row) = .ok rights := by
    cases apply : kind.isApply with
    | true =>
      rw [apply, if_pos rfl] at found
      exact found
    | false =>
      rw [apply, if_neg (by simp)] at found
      exact uncorrelated apply found
  obtain rfl : rights = matched := Except.ok.inj ((filterM_meets_none rights fun row' => _).symm.trans kept)
  have inSight : (σ.bind owner row).rows.lookup owner = some (some row) := by simp [Scope.bind, Scope.extend]
  obtain ⟨base', stored', shows⟩ := exposes inSight shown found
  rw [Tables.stored, stored', Option.getD_some, same]
  exact pairs_padded _ shown shows

variable {fields : List Taken}

/-- Joined to the rows of a table, a collection yields a result for each row and each of its members. -/
theorem execute_joined {table rel : Alias} {affinity : Affinity} (inner : kind ≠ .leftOuter)
    (exposes : q.Exposes e t owner keeps slots)
    (uncorrelated : kind.isApply = false → q.Uncorrelated)
    (named : slots.map (·.member) = t.members.map (·.name)) (mapped : ∀ f ∈ fields, f.Mapped e t)
    (apart : owner ≠ q.rel) (left : owner ≠ rel) (right : q.rel ≠ rel) {v : ClientValue}
    (h : (Expr.projection
      ⟨(Taken.shape (.record e.name owner e.seen) (.record t.name q.rel slots) fields).splitOver affinity rel
          (.join kind (.select (e.rows owner table).select) (.select q) none),
        ((Taken.shape (.record e.name owner e.seen) (.record t.name q.rel slots) fields).split affinity [] rel
          [owner, q.rel]).projector, none⟩).execute tables = .ok v) :
    v = .list ((tables.stored e).flatMap fun r =>
      (padded (kind == .outerApply) ((tables.stored t).filter (keeps r))).map (Taken.object e t fields r)) := by
  have splits : (Taken.shape (.record e.name owner e.seen) (.record t.name q.rel slots) fields).Splits
      (fun _ => False) (· ∈ [owner, q.rel]) := Taken.splits_shape named mapped
  have reads : ∀ a, a ∈ [owner, q.rel] → a ≠ rel := by
    intro a ha
    rcases List.mem_cons.mp ha with rfl | ha
    · exact left
    · rwa [List.mem_singleton.mp ha]
  obtain ⟨frames, values, hframes, rfl, objects⟩ := splits.execute affinity _ (by simp) reads h
  rw [Taken.client_shapes named mapped apart (pairs_joined inner exposes uncorrelated hframes)] at objects
  rw [← (Prod.mk.inj (Except.ok.inj objects)).1, List.map_flatMap]
  simp only [List.map_map]
  rfl

end Joins

def Projection.joinedAs (q : Projection Expr) (kind : JoinKind) : Projection Expr :=
  if kind = .outerApply then q.withJoinTest else q

theorem Projection.rel_joinedAs (q : Projection Expr) (kind : JoinKind) :
    (q.joinedAs kind).select.rel = q.select.rel := by
  rw [joinedAs]
  split <;> rfl

def Expr.flatMapOf (table : String) (c : Param) (S : Collection) (orDefault : Bool) (c' x' : Param)
    (fields : List Taken) : Expr :=
  .operator (.flatMap (.operator (.table table))
    ⟨[c], if orDefault then .operator (.defaultIfEmpty (S.expr c)) else S.expr c⟩
    (some ⟨[c', x'], .construct none (fields.map (·.field c' x'))⟩))

section Binding

open Binding

variable {ctx : Context} {fuel : Nat} {e t : Mapping.Entity} {c c' x' : Param} {S : Collection} {owner : Alias}
  {q : Projection Expr} {slots : List Slot} {fields : List Taken} {s : BindState}

namespace Collection.Bound

variable {m : Mapping} (bound : S.Bound m e t owner q slots)
include bound

/-- Only a bare table is joined without being applied, with a default or not. -/
theorem join_eq (orDefault : Bool) : collectionJoin q orDefault
    = if S.isTable then .cross else if orDefault then .outerApply else .crossApply := by
  obtain ⟨src, forwards, base, filter, select, bare⟩ := bound.forwards
  have source : q.select.source = some base := by
    rw [select]
    rfl
  cases isTable : S.isTable with
  | true =>
    obtain ⟨table, rfl⟩ := bare.mpr isTable
    rw [collectionJoin, source]
    rfl
  | false =>
    have other : ∀ table, some base ≠ some (.table table) := by
      intro table same
      have table := bare.mp ⟨table, Option.some.inj same⟩
      rw [isTable] at table
      cases table
    rw [collectionJoin, source]
    split
    · rename_i table same
      exact absurd same (other table)
    · rfl

theorem join_ne_leftOuter (orDefault : Bool) : collectionJoin q orDefault ≠ .leftOuter := by
  rw [bound.join_eq]
  cases S.isTable <;> cases orDefault <;> simp

/-- Rows whose collection is empty are kept for a default, unless the collection is a bare table. -/
theorem join_outerApply (orDefault : Bool) :
    (collectionJoin q orDefault == .outerApply) = (orDefault && !S.isTable) := by
  rw [bound.join_eq]
  cases S.isTable <;> cases orDefault <;> rfl

/-- The test of a join leaves the rows that belong to the owner. -/
theorem exposes_joinedAs (kind : JoinKind) :
    (q.joinedAs kind).select.Exposes e t owner (fun r r' => S.keeps m e t r r') slots := by
  obtain ⟨src, forwards, base, filter, select, -⟩ := bound.forwards
  obtain ⟨select', projector, pick⟩ := q
  have exposes := bound.exposes
  simp only at select exposes
  rw [select] at exposes ⊢
  rw [Projection.joinedAs]
  split
  · exact exposes.tested
  · exact exposes

/-- What is not applied does not see the owner. -/
theorem uncorrelated_joinedAs (orDefault : Bool) (unapplied : (collectionJoin q orDefault).isApply = false) :
    (q.joinedAs (collectionJoin q orDefault)).select.Uncorrelated := by
  rw [bound.join_eq] at unapplied ⊢
  cases isTable : S.isTable with
  | true => exact bound.uncorrelated isTable
  | false =>
    rw [isTable] at unapplied
    cases orDefault <;> cases unapplied

theorem projector_joinedAs (kind : JoinKind) :
    (q.joinedAs kind).projector = .record t.name q.select.rel slots
      ∨ ∃ c, (q.joinedAs kind).projector = .outerJoined (.column c) (.record t.name q.select.rel slots) := by
  rw [Projection.joinedAs]
  split
  · exact .inr ⟨_, congrArg _ bound.projector⟩
  · exact .inl bound.projector

/-- A result is the same whether a test stands before the element or not. -/
theorem shape_joinedAs (mapped : ∀ f ∈ fields, f.Mapped e t) (kind : JoinKind) :
    Taken.shape (.record e.name owner e.seen) (q.joinedAs kind).projector fields
      = Taken.shape (.record e.name owner e.seen) (.record t.name q.select.rel slots) fields := by
  rcases bound.projector_joinedAs kind with record | ⟨test, outer⟩
  · rw [record]
  · rw [outer, Taken.shape, Taken.shape]
    exact congrArg _ (List.map_congr_left fun f hf => Taken.read_outerJoined bound.named (mapped f hf) _)

/-- A use of the element declares nothing that would have to be renamed. -/
theorem copies_joinedAs (kind : JoinKind) : (Part.expr (q.joinedAs kind).projector).ownAliases = []
    ∧ (Part.expr (q.joinedAs kind).projector).ownParams = [] := by
  have record := plain_record t.name q.select.rel slots
  rcases bound.projector_joinedAs kind with same | ⟨c, outer⟩
  · rw [same]
    exact ⟨record.ownAliases_eq_nil, record.ownParams_eq_nil⟩
  · have column : Plain False (fun _ => True) (.column c) := .column trivial
    have parts : ∀ p ∈ (Part.expr (.outerJoined (.column c) (.record t.name q.select.rel slots))).parts,
        p = .expr (.column c) ∨ p = .expr (.record t.name q.select.rel slots) :=
      fun p hp => by simpa [Part.parts] using hp
    rw [outer]
    refine ⟨Part.gather_eq_nil rfl fun p hp => ?_, Part.gather_eq_nil rfl fun p hp => ?_⟩
    · rcases parts p hp with rfl | rfl
      · exact column.ownAliases_eq_nil
      · exact record.ownAliases_eq_nil
    · rcases parts p hp with rfl | rfl
      · exact column.ownParams_eq_nil
      · exact record.ownParams_eq_nil

end Collection.Bound

/-- The members of a result are bound over what its parameters stand for. -/
theorem Taken.bindAt_run {owner element : Expr} (root : Bool)
    (hc : s.params.lookup c' = some owner) (hx : s.params.lookup x' = some element)
    (copies : ∀ b ∈ [owner, element], (Part.expr b).ownAliases = [] ∧ (Part.expr b).ownParams = []) :
    ((Expr.construct none (fields.map (·.field c' x'))).bindAt ctx fuel root).run s
      = .ok (shape owner element fields, s) := by
  have member : ∀ {p b}, s.params.lookup p = some b → b ∈ [owner, element] → ∀ name,
      ((Expr.member (.param p) name).bindAt ctx fuel false).run s = .ok (b.bindMember name, s) :=
    fun found side name => member_run (copies _ side).1 (copies _ side).2 found name false
  have each : ∀ f ∈ fields, yields.gives s
      (do return { f.field c' x' with expr := ← (f.field c' x').expr.bindAt ctx fuel false } : Binding (Field Expr))
      (f.read owner element) s := by
    intro f _
    refine yields.bind ?_ (yields.pure _ _)
    rw [field]
    cases f.fromElement with
    | false => exact member hc (by simp) _
    | true => exact member hx (by simp) _
  rw [Expr.bindAt] <;> try simp
  simp only [Expr.traverse, List.mapM_subtype, List.unattach_attach, List.mapM_map]
  exact yields.bind (yields.mapM_map each) (yields.pure _ _)

/-- The result is made over the element as it is joined, and is the same as over its record. -/
theorem Collection.Bound.result_run {m : Mapping} (bound : S.Bound m e t owner q slots) (kind : JoinKind)
    (apart : c' ≠ x') (mapped : ∀ f ∈ fields, f.Mapped e t) (s : BindState) :
    (apply₂ "SelectMany" ⟨[c', x'], (Expr.construct none (fields.map (·.field c' x'))).bindAt ctx fuel false⟩
        (.record e.name owner e.seen) (q.joinedAs kind).projector).run s
      = .ok (Taken.shape (.record e.name owner e.seen) (.record t.name q.select.rel slots) fields,
        { s with
          params := (x', (q.joinedAs kind).projector) :: (c', .record e.name owner e.seen) :: s.params }) := by
  have record := plain_record e.name owner e.seen
  have copies : ∀ b ∈ [.record e.name owner e.seen, (q.joinedAs kind).projector],
      (Part.expr b).ownAliases = [] ∧ (Part.expr b).ownParams = [] := by
    intro b hb
    rcases List.mem_cons.mp hb with rfl | hb
    · exact ⟨record.ownAliases_eq_nil, record.ownParams_eq_nil⟩
    · rw [List.mem_singleton.mp hb]
      exact bound.copies_joinedAs kind
  rw [← bound.shape_joinedAs mapped kind]
  refine yields.bind (assign_run rfl) (yields.bind (assign_run rfl)
    (Taken.bindAt_run false ?_ List.lookup_cons_self copies))
  simp [List.lookup_cons, beq_false_of_ne apart]

theorem Expr.flatMapOf_bindAt (table : String) (orDefault root : Bool) :
    (flatMapOf table c S orDefault c' x' fields).bindAt ctx fuel root = do
      return .projection (← Binding.flatMap ctx ((Expr.operator (.table table)).bindAt ctx fuel false)
        ⟨[c], (S.expr c).bindAt ctx fuel false⟩ orDefault
        (some ⟨[c', x'], (Expr.construct none (fields.map (·.field c' x'))).bindAt ctx fuel false⟩)) := by
  obtain ⟨_, operator⟩ := Expr.bindAt_operator ctx fuel root (.flatMap (.operator (.table table))
    ⟨[c], if orDefault then .operator (.defaultIfEmpty (S.expr c)) else S.expr c⟩
    (some ⟨[c', x'], .construct none (fields.map (·.field c' x'))⟩))
  rw [flatMapOf, operator]
  cases orDefault with
  | true => rfl
  | false => cases S <;> rfl

/-- The table and the collection are joined, each under an alias of its own. -/
theorem Expr.flatMapOf_run {table : String} (resolved : ctx.mapping.resolve table = .ok e)
    (leads : S.Leads ctx.mapping e c t) (apart : c' ≠ x') (mapped : ∀ f ∈ fields, f.Mapped e t)
    (orDefault root : Bool) {n : Nat} (supply : s.supply = ⟨n⟩) :
    ∃ q slots k m s', S.Bound ctx.mapping e t ⟨n + 1⟩ q slots ∧ q.select.rel = ⟨k⟩ ∧ n + 1 < k ∧ k < m
      ∧ ((flatMapOf table c S orDefault c' x' fields).bindAt ctx fuel root).run s
        = .ok (.projection
          ⟨(Taken.shape (.record e.name ⟨n + 1⟩ e.seen) (.record t.name q.select.rel slots) fields).splitOver
            ctx.affinity ⟨m⟩ (.join (collectionJoin q orDefault) (.select (e.rows ⟨n + 1⟩ ⟨n⟩).select)
              (.select (q.joinedAs (collectionJoin q orDefault)).select) none),
          ((Taken.shape (.record e.name ⟨n + 1⟩ e.seen) (.record t.name q.select.rel slots) fields).split
            ctx.affinity [] ⟨m⟩ [⟨n + 1⟩, (q.joinedAs (collectionJoin q orDefault)).select.rel]).projector,
          none⟩, s') := by
  let s₁ : BindState :=
    { s with supply := ⟨n + 2⟩, params := (c, .record e.name ⟨n + 1⟩ e.seen) :: s.params }
  obtain ⟨q, slots, k, s₂, inner, bound, rel, before, ⟨m, fresh, supply₂⟩, -⟩ :=
    leads.bind_run fuel (s := s₁) (o := n + 1) List.lookup_cons_self rfl (Nat.lt_succ_self _)
  let q' := q.joinedAs (collectionJoin q orDefault)
  let s₃ : BindState := { s₂ with
    supply := ⟨m + 1⟩, params := (x', q'.projector) :: (c', .record e.name ⟨n + 1⟩ e.seen) :: s₂.params }
  refine ⟨q, slots, k, m, s₃, bound, rel, before, fresh, ?_⟩
  rw [flatMapOf_bindAt]
  refine yields.bind (?_ : yields.gives s (Binding.flatMap ctx _ _ _ _) _ _) (yields.pure _ _)
  exact yields.bind (sequence_run (table_run resolved false supply)) (yields.bind (assign_run rfl)
    (yields.bind inner (yields.bind (bound.result_run _ apart mapped s₂) (selectOver_fresh _ _ _ supply₂))))

/-- Flattening concatenates, over the rows of a table, the results for the rows that belong to each. With a
default, a row to which none belong has one result, and what that takes from the collection is null; over a
bare table the default is forgotten. -/
theorem Expr.flatMap_flattens {table : String} (resolved : ctx.mapping.resolve table = .ok e)
    (leads : S.Leads ctx.mapping e c t) (apart : c' ≠ x') (mapped : ∀ f ∈ fields, f.Mapped e t)
    (orDefault : Bool) (supply : Supply) :
    ∃ bound after, ((flatMapOf table c S orDefault c' x' fields).bind ctx).run supply = .ok (bound, after)
      ∧ ∀ tables v, bound.execute tables = .ok v → v = .list ((tables.stored e).flatMap fun r =>
        (padded (orDefault && !S.isTable) ((tables.stored t).filter (S.keeps ctx.mapping e t r))).map
          (Taken.object e t fields r)) := by
  obtain ⟨n⟩ := supply
  obtain ⟨q, slots, k, m, _, bound, rel, before, fresh, run⟩ :=
    flatMapOf_run resolved leads apart mapped orDefault true (s := Binding.start ⟨n⟩) rfl
  refine ⟨_, _, bind_of_run run, fun tables v answer => ?_⟩
  let q' := q.joinedAs (collectionJoin q orDefault)
  have rel' : q'.select.rel = ⟨k⟩ := (q.rel_joinedAs _).trans rel
  have owner : (⟨n + 1⟩ : Alias) ≠ q'.select.rel := by
    rw [rel']
    simp
    omega
  have left : (⟨n + 1⟩ : Alias) ≠ ⟨m⟩ := by
    simp
    omega
  have right : q'.select.rel ≠ ⟨m⟩ := by
    rw [rel']
    simp
    omega
  rw [← bound.join_outerApply]
  rw [← q.rel_joinedAs (collectionJoin q orDefault)] at answer
  exact execute_joined (bound.join_ne_leftOuter _) (bound.exposes_joinedAs _) (bound.uncorrelated_joinedAs _)
    bound.named mapped owner left right answer

/-- The orders of a customer that cost more than some freight are a collection. -/
example : (Collection.filter (.association "Orders") ⟨1⟩
      (.binary .gt (.element "Freight") (.const (.float 15)))).Leads
    ⟨Sample.config.entities⟩ Sample.customer ⟨0⟩ Sample.order :=
  .filter (.association rfl rfl rfl (by decide) (by decide)) (by decide) ⟨rfl, trivial⟩

end Binding

end ObjectQuery
