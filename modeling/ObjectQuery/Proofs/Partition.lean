import ObjectQuery.Proofs.Groupings
import ObjectQuery.Sample

/-!
The groups of a table. Grouped by a member, the objects of a table come in the groups of the rows that
hold them: one group for each value of the member, in the order in which the values first appear, and
every object is in one group.
-/

namespace ObjectQuery

open Eval

variable {tables : Tables} {σ : Scope}

def Mapping.Member.keys (m : Member) (base : List Row) : List Value := (base.map m.value).eraseDups

namespace Mapping.Entity

def Complete (e : Entity) (row : Row) : Prop := ∀ m ∈ e.members, (row.get? m.columnName).isSome = true

instance (e : Entity) (row : Row) : Decidable (e.Complete row) :=
  inferInstanceAs (Decidable (∀ m ∈ e.members, _))

variable {e : Entity} {m : Member} {name : String} {row : Row} {base : List Row} {rel table : Alias}

theorem mem_slots (h : e.member? name = some m) : ⟨m.name, m.columnName, m.type⟩ ∈ e.slots :=
  List.mem_map_of_mem (List.mem_of_find?_eq_some h)

/-- A row has what is read from a table where it has the columns of all members. -/
theorem fed_forwards : Forward.Fed e.forwards row ↔ e.Complete row := by
  refine ⟨fun h m hm => ?_, fun h => Forward.fed_of_slots fun s hs => ?_⟩
  · obtain ⟨f, hf, holds, -⟩ := Forward.exists_holds (show _ ∈ e.slots from List.mem_map_of_mem hm)
    simp only [Forward.holds, Bool.and_eq_true, beq_iff_eq] at holds
    exact holds.1 ▸ h f hf
  · obtain ⟨m, hm, rfl⟩ := List.mem_map.mp hs
    exact h m hm

theorem object_seen (row : Row) :
    Slot.object e.name e.seen (Forward.row e.forwards row) = e.object row := by
  rw [seen, forwards, Forward.object_through, Slot.object, slots, List.map_map]
  rfl

/-- What is read from a table has the members in the columns that they are read from. -/
theorem get?_slot (mapped : e.member? name = some m) (row : Row) :
    (Forward.row e.forwards row).get? (e.slot m).column = some (m.value row) :=
  Forward.get?_through (mem_slots mapped) row

/-- The select over a table has its rows, if they have the columns of all members. -/
theorem select_rows {rows : List Row} : select tables (e.rows rel table).select σ = .ok rows ↔
    ∃ base, tables.get? e.table = some base ∧ (∀ r ∈ base, e.Complete r)
      ∧ rows = base.map (Forward.row e.forwards) := by
  simp only [← fed_forwards]
  exact Select.select_table (t := ⟨table, e.name, e.table⟩)

section Stored

variable (stored : tables.get? e.table = some base) (complete : ∀ r ∈ base, e.Complete r)

include stored complete

theorem source_rows (rel table : Alias) (σ : Scope) :
    Eval.source tables (.select (e.rows rel table).select) σ
      = .ok ((base.map (Forward.row e.forwards)).map fun r => [(rel, some r)]) := by
  rw [Eval.source, select_rows.mpr ⟨base, stored, complete, rfl⟩]
  rfl

/-- A query for a table answers its rows as objects. -/
theorem execute_rows (rel table : Alias) :
    (Expr.projection (e.rows rel table)).execute tables = .ok (.list (base.map e.object)) := by
  have each : ∀ row ∈ base.map (Forward.row e.forwards),
      (client tables (e.rows rel table).projector (Scope.root.bind rel row)).run []
        = .ok (Slot.object e.name e.seen row, []) := by
    intro row hrow
    obtain ⟨r, -, rfl⟩ := List.mem_map.mp hrow
    exact client_record (Forward.isSome_through _ _) e.name rel .root []
  have objects : (base.map (Forward.row e.forwards)).map (Slot.object e.name e.seen)
      = base.map e.object := by
    rw [List.map_map]
    exact List.map_congr_left fun r _ => object_seen r
  rw [execute_projection rfl (select_rows.mpr ⟨base, stored, complete, rfl⟩) each, objects]

end Stored

def rowsOf (e : Entity) (m : Member) (base : List Row) (key : Value) : List Row :=
  (base.filter (m.value · == key)).map (Forward.row e.forwards)

theorem filter_key (mapped : e.member? name = some m) (base : List Row) (key : Value) :
    (base.map (Forward.row e.forwards)).filter (fun r => (r.get? (e.slot m).column).getD .null == key)
      = e.rowsOf m base key := by
  rw [List.filter_map, rowsOf]
  refine congrArg _ (List.filter_congr fun r _ => ?_)
  rw [Function.comp_apply, get?_slot mapped]
  rfl

/-- Whatever a select that groups by a member computes, it computes it from the rows of each group. -/
theorem select_byMember (stored : tables.get? e.table = some base)
    (complete : ∀ r ∈ base, e.Complete r) (mapped : e.member? name = some m) {t : KeyType}
    (typed : ∀ r ∈ base, t.admits (m.value r)) {columns : List (ColumnDecl Expr)}
    (unnumbered : ∀ d ∈ columns, ∀ orders, d.expr ≠ .rowNumber orders) (g rel table : Alias) (σ : Scope) :
    select tables (.byKey g columns (.select (e.rows rel table).select) (.column ((e.slot m).ref rel))) σ
      = (m.keys base).mapM fun v => rowOf tables columns
        (σ.ofGroup (nullFrame (some (.select (e.rows rel table).select))) rel (e.rowsOf m base v)) := by
  let value : Row → Value := fun r => (r.get? (e.slot m).column).getD .null
  have seen : ∀ r, value (Forward.row e.forwards r) = m.value r := fun r => by
    simp only [value, get?_slot mapped, Option.getD_some]
  have key : ∀ r ∈ base.map (Forward.row e.forwards),
      scalar tables (.column ((e.slot m).ref rel)) (σ.extend [(rel, some r)]) = .ok (value r) := by
    intro r hr
    obtain ⟨r, -, rfl⟩ := List.mem_map.mp hr
    exact scalar_bound (by simp) (by rw [get?_slot mapped]; rfl) _ σ
  have typed' : ∀ r ∈ base.map (Forward.row e.forwards), t.admits (value r) :=
    List.forall_mem_map.mpr fun r hr => (seen r).symm ▸ typed r hr
  have values : (base.map (Forward.row e.forwards)).map value = base.map m.value := by
    rw [List.map_map]
    exact List.map_congr_left fun r _ => seen r
  rw [Select.select_byKey unnumbered (source_rows stored complete rel table σ) key typed', values]
  simp only [value, filter_key mapped]
  rfl

/-- A group has rows, and all of them have its key. -/
theorem rowsOf_spec (mapped : e.member? name = some m) {t : KeyType}
    (typed : ∀ r ∈ base, t.admits (m.value r)) {v : Value} (hv : v ∈ m.keys base) :
    (∃ r, r ∈ e.rowsOf m base v) ∧ ∀ r ∈ e.rowsOf m base v, r.get? (e.slot m).column = some v := by
  obtain ⟨r, hr, rfl⟩ := List.mem_map.mp (eraseDups_subset _ hv)
  refine ⟨⟨_, List.mem_map_of_mem (List.mem_filter.mpr ⟨hr, ?_⟩)⟩, fun row hrow => ?_⟩
  · exact (KeyType.beq_iff (typed r hr) (typed r hr)).mpr rfl
  · obtain ⟨r', hr', rfl⟩ := List.mem_map.mp hrow
    obtain ⟨hr', same⟩ := List.mem_filter.mp hr'
    rw [get?_slot mapped, (KeyType.beq_iff (typed r' hr') (typed r hr)).mp same]

end Mapping.Entity

def Slot.keyRow (k : Slot) (marks : List (ColumnDecl Expr)) (v : Value) : Row :=
  (k.column, v) :: marks.map fun d => (d.name, .bool v.isNull)

namespace NullTest

variable {k : Slot} {rel g : Alias} {marks : List (ColumnDecl Expr)} {test : Expr} {v : Value}

theorem unnumbered (h : NullTest k rel g marks test) :
    ∀ d ∈ k.keyDecl rel :: marks, ∀ orders, d.expr ≠ .rowNumber orders := by
  cases h <;> simp [Slot.keyDecl]

theorem nodup (h : NullTest k rel g marks test) : ((k.keyDecl rel :: marks).map (·.name)).Nodup := by
  cases h with
  | asked => simp
  | stored apart => simpa [Slot.keyDecl] using apart.symm

/-- The row of a key is computed from its column. -/
theorem rowOf_key (h : NullTest k rel g marks test)
    (key : scalar tables (.column (k.ref rel)) σ = .ok v) :
    rowOf tables (k.keyDecl rel :: marks) σ = .ok (k.keyRow marks v) := by
  cases h with
  | asked => simp [rowOf, Slot.keyDecl, key, Slot.keyRow]
  | stored apart => simp [rowOf, Slot.keyDecl, scalar, key, Slot.keyRow]

/-- In the row of a key, it is known whether the key is null. -/
theorem scalar_test (h : NullTest k rel g marks test)
    (inSight : σ.rows.lookup g = some (some (k.keyRow marks v))) :
    scalar tables test σ = .ok (.bool v.isNull) := by
  cases h with
  | asked =>
    have key : scalar tables (.column (k.ref g)) σ = .ok v :=
      scalar_found inSight (by simp [Slot.keyRow, Row.get?]) k.type
    rw [scalar, key]
    rfl
  | @stored name apart =>
    have mark : (k.keyRow [⟨name, .isNull (.column (k.ref rel)), .bool⟩] v).get? name
        = some (.bool v.isNull) := by
      simp [Slot.keyRow, Row.get?, List.lookup_cons, beq_false_of_ne apart]
    exact scalar_found inSight mark .bool

/-- The condition on the elements of a group aggregates nothing. -/
theorem unaggregated (h : NullTest k rel g marks test) (c c' : Column) :
    (Part.expr (.nullSafe (.column c) (.column c') test)).aggregates = false := by
  have column : ∀ c : Column, (Part.expr (.column c)).aggregates = false := fun c => by
    simp [Part.aggregates_eq, Part.isAggregate, Part.parts]
  have asks : ∀ c : Column, (Part.expr (.isNull (.column c))).aggregates = false := fun c => by
    simp [Part.aggregates_eq (.expr (.isNull _)), Part.isAggregate, Part.parts, column]
  have known : (Part.expr test).aggregates = false := by
    cases h
    · exact asks _
    · exact column _
  have binary : ∀ op a b, (Part.expr a).aggregates = false → (Part.expr b).aggregates = false →
      (Part.expr (.binary op a b)).aggregates = false := by
    intro op a b ha hb
    rw [Part.aggregates_eq]
    simp [Part.isAggregate, Part.parts, ha, hb]
  exact binary _ _ _ (binary _ _ _ (column c) (column c')) (binary _ _ _ (asks c) known)

end NullTest

/-- The condition on the elements of a group asks whether a key is that of the group. -/
theorem Eval.meets_nullSafe {a b isNull : Expr} {x y : Value} {t : KeyType} (hx : t.admits x)
    (hy : t.admits y) (left : scalar tables a σ = .ok x) (right : scalar tables b σ = .ok y)
    (test : scalar tables isNull σ = .ok (.bool y.isNull)) :
    meets tables (some (.nullSafe a b isNull)) σ = .ok (x == y) := by
  obtain ⟨o, compared⟩ := KeyType.exists_compare hx hy
  rw [meets, scalar_nullSafe left right test compared, ok_bind, holds_ofTruth, Value.nullSafe_eq_true compared,
    KeyType.keysEqual_singleton hx hy]

namespace Mapping.Entity

variable {e : Entity} {m : Member} {name : String} {base : List Row}
  {rel table g el source table' : Alias} {marks : List (ColumnDecl Expr)} {test : Expr}

/-- The select of the keys has one row for each of them. -/
theorem select_grouped (stored : tables.get? e.table = some base)
    (complete : ∀ r ∈ base, e.Complete r) (mapped : e.member? name = some m) {t : KeyType}
    (typed : ∀ r ∈ base, t.admits (m.value r)) (nullTest : NullTest (e.slot m) rel g marks test) :
    select tables (e.grouped (e.slot m) g rel table marks) σ
      = .ok ((m.keys base).map ((e.slot m).keyRow marks)) := by
  rw [grouped, select_byMember stored complete mapped typed nullTest.unnumbered]
  refine mapM_eq_ok fun v hv => ?_
  obtain ⟨⟨r, hr⟩, all⟩ := rowsOf_spec mapped typed hv
  exact nullTest.rowOf_key (scalar_ofGroup hr all _)

/-- The select of the elements of a group has the rows with its key. -/
theorem select_elements (stored : tables.get? e.table = some base)
    (complete : ∀ r ∈ base, e.Complete r) (mapped : e.member? name = some m) {t : KeyType}
    (typed : ∀ r ∈ base, t.admits (m.value r)) (nullTest : NullTest (e.slot m) rel g marks test)
    (apart : g ≠ source) {v : Value} (hv : v ∈ m.keys base) (el table' : Alias) (σ : Scope) :
    select tables (e.elements (e.slot m) g test el source table').select
        (σ.bind g ((e.slot m).keyRow marks v))
      = .ok ((e.rowsOf m base v).map (Forward.row e.inner)) := by
  let k := e.slot m
  have own : t.admits v := by
    obtain ⟨r, hr, rfl⟩ := List.mem_map.mp (eraseDups_subset _ hv)
    exact typed r hr
  have kept : ∀ r ∈ base.map (Forward.row e.forwards),
      meets tables (some (.nullSafe (.column (k.ref source)) (.column (k.ref g)) test))
        ((σ.bind g (k.keyRow marks v)).extend [(source, some r)])
      = .ok ((r.get? k.column).getD .null == v) := by
    intro row hrow
    obtain ⟨r, hr, rfl⟩ := List.mem_map.mp hrow
    have found := get?_slot mapped r
    have outer : ((σ.bind g (k.keyRow marks v)).extend
        [(source, some (Forward.row e.forwards r))]).rows.lookup g = some (some (k.keyRow marks v)) := by
      simp [Scope.bind, Scope.extend, List.lookup_cons, beq_false_of_ne apart]
    refine meets_nullSafe (t := t) (by rw [found]; exact typed r hr) own
      (scalar_bound (by simp) (by rw [found]; rfl) k.type _) (scalar_found outer ?_ k.type)
      (nullTest.scalar_test outer)
    simp [Slot.keyRow, Row.get?]
  have fed : ∀ r ∈ base.map (Forward.row e.forwards), Forward.Fed e.inner r := by
    intro r hr
    obtain ⟨r, -, rfl⟩ := List.mem_map.mp hr
    exact Forward.fed_of_slots (Forward.isSome_through _ _)
  rw [← filter_key mapped]
  exact Select.select_forwarding (fun _ h => Option.some.inj h ▸ nullTest.unaggregated _ _)
    (source_rows stored complete source table' _) fed kept

/-- The elements of a group are the objects of the rows with its key. -/
theorem client_elements (stored : tables.get? e.table = some base)
    (complete : ∀ r ∈ base, e.Complete r) (mapped : e.member? name = some m) {t : KeyType}
    (typed : ∀ r ∈ base, t.admits (m.value r)) (nullTest : NullTest (e.slot m) rel g marks test)
    (apart : g ≠ source) {v : Value} (hv : v ∈ m.keys base) (joined : List (Alias × JoinedRows)) :
    (client tables (.projection (e.elements (e.slot m) g test el source table'))
        (σ.bind g ((e.slot m).keyRow marks v))).run joined
      = .ok (.list ((base.filter (m.value · == v)).map e.object), joined) := by
  have rows := select_elements stored complete mapped typed nullTest apart hv el table' σ
  have objects : ((e.rowsOf m base v).map (Forward.row e.inner)).map (Slot.object e.name e.reseen)
      = (base.filter (m.value · == v)).map e.object := by
    simp only [rowsOf, List.map_map]
    refine List.map_congr_left fun r _ => ?_
    rw [← object_seen r]
    exact Forward.object_through e.name e.seen _
  have each : ∀ row ∈ (e.rowsOf m base v).map (Forward.row e.inner),
      (client tables (.record e.name el e.reseen)
        ((σ.bind g ((e.slot m).keyRow marks v)).bind el row)).run joined
        = .ok (Slot.object e.name e.reseen row, joined) := by
    intro row hrow
    obtain ⟨r, -, rfl⟩ := List.mem_map.mp hrow
    exact client_record (Forward.isSome_through _ _) e.name el _ joined
  rw [client_projection rfl rows each, objects]

/-- A query for the groups of a table answers a grouping for each key. -/
theorem execute_grouped (stored : tables.get? e.table = some base)
    (complete : ∀ r ∈ base, e.Complete r) (mapped : e.member? name = some m) {t : KeyType}
    (typed : ∀ r ∈ base, t.admits (m.value r)) (nullTest : NullTest (e.slot m) rel g marks test)
    (apart : g ≠ source) :
    (Expr.projection ⟨e.grouped (e.slot m) g rel table marks, e.group (e.slot m) g test el source table',
        none⟩).execute tables
      = .ok (.list ((m.keys base).map fun v =>
          .grouping (.ofValue v) ((base.filter (m.value · == v)).map e.object))) := by
  let k := e.slot m
  -- the object of a row is known by its key
  let object : Row → ClientValue := fun row =>
    let v := (row.get? k.column).getD .null
    .grouping (.ofValue v) ((base.filter (m.value · == v)).map e.object)
  have key : ∀ v, (k.keyRow marks v).get? k.column = some v := fun v => by simp [Slot.keyRow, Row.get?]
  have each : ∀ row ∈ (m.keys base).map (k.keyRow marks),
      (client tables (e.group k g test el source table') (Scope.root.bind g row)).run []
        = .ok (object row, []) := by
    intro row hrow
    obtain ⟨v, hv, rfl⟩ := List.mem_map.mp hrow
    have keyed : scalar tables (.column (k.ref g)) (Scope.root.bind g (k.keyRow marks v)) = .ok v :=
      scalar_found (by simp [Scope.bind, Scope.extend]) (key v) k.type
    have elements : (client tables (.projection (e.elements k g test el source table'))
          (Scope.root.bind g (k.keyRow marks v))).run []
        = .ok (.list ((base.filter (m.value · == v)).map e.object), []) :=
      client_elements stored complete mapped typed nullTest apart hv []
    simp only [object, key, Option.getD_some]
    rw [group, client]
    exact Eval.reading.bind (client_value_run rfl keyed []) (Eval.reading.bind elements rfl)
  have objects : ((m.keys base).map (k.keyRow marks)).map object = (m.keys base).map fun v =>
      .grouping (.ofValue v) ((base.filter (m.value · == v)).map e.object) := by
    simp only [List.map_map, Function.comp_def, object, key, Option.getD_some]
  rw [execute_projection rfl (select_grouped stored complete mapped typed nullTest) each, objects]

end Mapping.Entity

/-- The objects of a table are in the groups of their keys: grouped by a member, a table answers one
grouping for each value of the member, in the order in which the values first appear. No two groupings
have the same key, and each has the objects of the rows with its key, in the order of the table. All
groups together have every row once. -/
theorem Expr.groupByMember_partitions {ctx : Context} {name member : String} {e : Mapping.Entity}
    {m : Mapping.Member} (resolved : ctx.mapping.resolve name = .ok e)
    (mapped : e.member? member = some m) {tables : Tables} {base : List Row}
    (stored : tables.get? e.table = some base) (complete : ∀ r ∈ base, e.Complete r) {t : KeyType}
    (typed : ∀ r ∈ base, t.admits (m.value r)) (x : Param) (xs : List Param) (supply : Supply) :
    ∃ whole groups after after' keys,
      ((Expr.operator (.table name)).bind ctx).run supply = .ok (whole, after)
      ∧ ((groupByMember name x xs member).bind ctx).run supply = .ok (groups, after')
      ∧ whole.execute tables = .ok (.list (base.map e.object))
      ∧ groups.execute tables = .ok (.list (keys.map fun v =>
          .grouping (.ofValue v) ((base.filter (m.value · == v)).map e.object)))
      ∧ keys = (base.map m.value).eraseDups ∧ (keys.map ClientValue.ofValue).Nodup
      ∧ (keys.flatMap fun v => base.filter (m.value · == v)).Perm base := by
  obtain ⟨n⟩ := supply
  have whole := bind_of_run (Binding.table_run resolved true (s := Binding.start ⟨n⟩) rfl)
  obtain ⟨marks, test, nullTest, run⟩ := Binding.groupBy_run resolved mapped x xs
    (Part.expr (groupByMember name x xs member)).extent true (Binding.start ⟨n⟩) rfl
  refine ⟨_, _, _, _, m.keys base, whole, bind_of_run run,
    Mapping.Entity.execute_rows stored complete _ _,
    Mapping.Entity.execute_grouped stored complete mapped typed nullTest (by simp), rfl, ?_,
    perm_groups typed⟩
  refine (nodup_eraseDups_keys typed).map_on fun v hv w hw => ?_
  obtain ⟨r, hr, rfl⟩ := List.mem_map.mp (eraseDups_subset _ hv)
  obtain ⟨r', hr', rfl⟩ := List.mem_map.mp (eraseDups_subset _ hw)
  exact KeyType.ofValue_injOn (typed r hr) (typed r' hr')

/-- The customers by city; those without one are a group of their own. -/
theorem Sample.customers_by_city : ∃ whole groups after after',
    ((Expr.operator (.table "Customer")).bind (context .ansi .server)).run ⟨1⟩ = .ok (whole, after)
    ∧ ((Expr.groupByMember "Customer" ⟨0⟩ [] "City").bind (context .ansi .server)).run ⟨1⟩
      = .ok (groups, after')
    ∧ whole.execute Sample.tables = .ok (.list (customers.map customer.object))
    ∧ groups.execute Sample.tables = .ok (.list ([.text "London", .text "Paris", .null, .text "Zürich"].map
        fun v => .grouping (.ofValue v)
          ((customers.filter fun r => (r.get? "City").getD .null == v).map customer.object))) := by
  have resolved : (context .ansi .server).mapping.resolve "Customer" = .ok customer := rfl
  have mapped : customer.member? "City" = some (member "City" .text) := rfl
  have stored : Sample.tables.get? customer.table = some customers := rfl
  have typed : ∀ r ∈ customers, KeyType.text.admits ((member "City" .text).value r) := by decide
  obtain ⟨whole, groups, after, after', keys, binds, binds', answers, answers', hkeys, -⟩ :=
    Expr.groupByMember_partitions resolved mapped stored (by decide) typed ⟨0⟩ [] ⟨1⟩
  obtain rfl : keys = [.text "London", .text "Paris", .null, .text "Zürich"] := hkeys.trans rfl
  exact ⟨whole, groups, after, after', binds, binds', answers, answers'⟩

end ObjectQuery
