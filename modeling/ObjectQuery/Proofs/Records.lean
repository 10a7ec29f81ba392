import ObjectQuery.Mapping.Relations
import ObjectQuery.Proofs.Copies
import ObjectQuery.Proofs.FlatSelects
import ObjectQuery.Proofs.Realiasing

/-!
Records: objects whose members are columns of one relation. A select over that relation forwards each
column once, and the record is read through it; that holds of every layer, whatever the relations are
called. So the rows of a table, seen through any number of layers, are the objects of its entity.
-/

namespace ObjectQuery

open Eval

structure Slot where
  member : String
  column : String
  type : ColumnType

structure Forward where
  name : String
  read : String
  type : ColumnType

namespace Slot

def ref (rel : Alias) (s : Slot) : Column := ⟨rel, s.column, s.type⟩

def field (rel : Alias) (s : Slot) : Field Expr := ⟨s.member, .column (s.ref rel)⟩

end Slot

def Expr.record (entity : String) (rel : Alias) (slots : List Slot) : Expr :=
  .entity entity (.construct (some entity) (slots.map (Slot.field rel)))

namespace Forward

def holds (f : Forward) (s : Slot) : Bool := f.read == s.column && f.type == s.type

def decl (source : Alias) (f : Forward) : ColumnDecl Expr :=
  ⟨f.name, .column ⟨source, f.read, f.type⟩, f.type⟩

def next (forwards : List Forward) (s : Slot) : Forward :=
  ⟨Names.available (forwards.map (·.name)) s.column, s.column, s.type⟩

def add (forwards : List Forward) (s : Slot) : List Forward :=
  if (forwards.find? (·.holds s)).isSome then forwards else forwards ++ [next forwards s]

def all (slots : List Slot) : List Forward := slots.foldl add []

end Forward

def Slot.through (forwards : List Forward) (s : Slot) : Slot :=
  match forwards.find? (·.holds s) with
  | some f => { s with column := f.name }
  | none => s

theorem Slot.member_through (forwards : List Forward) (s : Slot) :
    (s.through forwards).member = s.member := by
  rw [through]
  split <;> rfl

/-- A member is found among the members that are read through a select. -/
theorem Slot.find?_through (forwards : List Forward) (slots : List Slot) (name : String) :
    (slots.map (Slot.through forwards)).find? (·.member == name)
      = (slots.find? (·.member == name)).map (Slot.through forwards) := by
  have kept : (fun k : Slot => k.member == name) ∘ Slot.through forwards = fun k => k.member == name := by
    funext k
    rw [Function.comp_apply, Slot.member_through]
  rw [List.find?_map, kept]

namespace Forward

variable {forwards : List Forward} {s : Slot} {slots : List Slot}

theorem holds_next (forwards : List Forward) (s : Slot) : (next forwards s).holds s = true := by
  simp [next, holds]

theorem prefix_add (forwards : List Forward) (s : Slot) : forwards <+: add forwards s := by
  rw [add]
  split
  · exact List.prefix_rfl
  · exact List.prefix_append _ _

theorem prefix_foldl (forwards : List Forward) (slots : List Slot) :
    forwards <+: slots.foldl add forwards := by
  induction slots generalizing forwards with
  | nil => exact List.prefix_rfl
  | cons s rest ih => exact (prefix_add forwards s).trans (ih _)

theorem find?_add (forwards : List Forward) (s : Slot) :
    ((add forwards s).find? (·.holds s)).isSome = true := by
  rw [add]
  split
  · assumption
  · simp [holds_next]

theorem find?_longer {forwards' : List Forward} (sub : forwards <+: forwards')
    (h : (forwards.find? (·.holds s)).isSome = true) :
    forwards'.find? (·.holds s) = forwards.find? (·.holds s) := by
  obtain ⟨more, rfl⟩ := sub
  rw [List.find?_append, Option.or_of_isSome h]

theorem through_longer {forwards' : List Forward} (sub : forwards <+: forwards')
    (h : (forwards.find? (·.holds s)).isSome = true) : s.through forwards' = s.through forwards := by
  rw [Slot.through, Slot.through, find?_longer sub h]

theorem nodup_add (h : (forwards.map (·.name)).Nodup) : ((add forwards s).map (·.name)).Nodup := by
  rw [add]
  split
  · exact h
  · obtain ⟨_, -, free⟩ := Names.available_spec (forwards.map (·.name)) s.column
    rw [List.map_append, List.nodup_append]
    refine ⟨h, by simp, fun a ha b hb => ?_⟩
    rintro rfl
    rw [List.map_singleton, List.mem_singleton] at hb
    exact free (show (next forwards s).name ∈ _ from hb ▸ ha)

theorem nodup_foldl (h : (forwards.map (·.name)).Nodup) :
    ((slots.foldl add forwards).map (·.name)).Nodup := by
  induction slots generalizing forwards with
  | nil => exact h
  | cons s rest ih => exact ih (nodup_add h)

theorem nodup_all (slots : List Slot) : ((all slots).map (·.name)).Nodup := nodup_foldl List.nodup_nil

/-- Every member is forwarded. -/
theorem exists_holds (hs : s ∈ slots) :
    ∃ f ∈ all slots, f.holds s = true ∧ s.through (all slots) = { s with column := f.name } := by
  have found : ((all slots).find? (·.holds s)).isSome = true := by
    obtain ⟨before, after, rfl⟩ := List.append_of_mem hs
    rw [all, List.foldl_append, List.foldl_cons]
    rw [find?_longer (prefix_foldl _ after) (find?_add _ s)]
    exact find?_add _ s
  obtain ⟨f, hf⟩ := Option.isSome_iff_exists.mp found
  refine ⟨f, List.mem_of_find?_eq_some hf, by simpa using List.find?_some hf, ?_⟩
  rw [Slot.through, hf]

/-- Nothing else is forwarded. -/
theorem read_mem_of_foldl {f : Forward} (hf : f ∈ slots.foldl add forwards) :
    f ∈ forwards ∨ ∃ s ∈ slots, f.read = s.column := by
  induction slots generalizing forwards with
  | nil => exact .inl hf
  | cons s rest ih =>
    rcases ih hf with hf | ⟨s', hs', same⟩
    · rw [add] at hf
      split at hf
      · exact .inl hf
      · rcases List.mem_append.mp hf with hf | hf
        · exact .inl hf
        · rw [List.mem_singleton.mp hf]
          exact .inr ⟨s, by simp, rfl⟩
    · exact .inr ⟨s', by simp [hs'], same⟩

theorem read_mem {f : Forward} (hf : f ∈ all slots) : ∃ s ∈ slots, f.read = s.column :=
  (read_mem_of_foldl hf).resolve_left (by simp)

end Forward

namespace Split

variable (affinity : Affinity) (rel source : Alias)

/-- A member of a record is read from the column that forwards it. -/
theorem column_forward (forwards : List Forward) (s : Slot) (next : Nat) :
    (column ⟨affinity, rel, [source]⟩ (.column (s.ref source))).run
        ⟨forwards.map (Forward.decl source), next⟩
      = (.column ((s.through (Forward.add forwards s)).ref rel),
        ⟨(Forward.add forwards s).map (Forward.decl source), next⟩) := by
  have found : (forwards.map (Forward.decl source)).find? (·.expr == .column (s.ref source))
      = (forwards.find? (·.holds s)).map (Forward.decl source) := by
    rw [List.find?_map]
    congr 2
    funext f
    simp only [Function.comp_def, Forward.decl, BEq.beq, Expr.same, Slot.ref, Forward.holds]
    simp
  simp only [column, bind_pure_comp, StateT.run_bind, StateT.run_get, pure_bind, found]
  cases h : forwards.find? (·.holds s) with
  | some f =>
    have same := List.find?_some h
    simp only [Forward.holds, Bool.and_eq_true, beq_iff_eq] at same
    rw [Slot.through, Forward.add, h]
    simp only [Option.map_some, Option.isSome_some, if_true, h, Forward.decl, Slot.ref, same.2]
    rfl
  | none =>
    have new : (forwards ++ [Forward.next forwards s]).find? (·.holds s)
        = some (Forward.next forwards s) := by
      rw [List.find?_append, h]
      simp [Forward.holds_next]
    rw [Slot.through, Forward.add, h]
    simp only [Option.map_none, Option.isSome_none, Bool.false_eq_true, if_false, new, List.map_append,
      List.map_map]
    rfl

/-- The members of a record are read from the columns that forward them, one after another. -/
theorem fields_forward (nested : Bool) (slots : List Slot) (forwards : List Forward) (next : Nat) :
    ((slots.map (Slot.field source)).mapM fun f : Field Expr => (do
        return { f with expr := ← expr ⟨affinity, rel, [source]⟩ nested f.expr } :
          StateM State (Field Expr))).run ⟨forwards.map (Forward.decl source), next⟩
      = ((slots.map (Slot.through (slots.foldl Forward.add forwards))).map (Slot.field rel),
        ⟨(slots.foldl Forward.add forwards).map (Forward.decl source), next⟩) := by
  induction slots generalizing forwards with
  | nil => rfl
  | cons s rest ih =>
    have first : s.through (rest.foldl Forward.add (Forward.add forwards s))
        = s.through (Forward.add forwards s) :=
      Forward.through_longer (Forward.prefix_foldl _ rest) (Forward.find?_add _ s)
    have chosen : ((Expr.column (s.ref source)).nominate affinity [source] nested).chosen = true :=
      nominate_column (by simp [Slot.ref])
    rw [List.map_cons, List.mapM_cons, StateT.run_bind, List.foldl_cons, List.map_cons, List.map_cons, first]
    have here : (do return { Slot.field source s with
          expr := ← expr ⟨affinity, rel, [source]⟩ nested (Slot.field source s).expr } :
          StateM State (Field Expr)).run ⟨forwards.map (Forward.decl source), next⟩
        = ((s.through (Forward.add forwards s)).field rel,
          ⟨(Forward.add forwards s).map (Forward.decl source), next⟩) := by
      rw [StateT.run_bind, Slot.field, expr_eq, if_pos chosen, column_forward]
      rw [Slot.through]
      split <;> rfl
    rw [here]
    refine (Yields.ofState State).bind (ih (Forward.add forwards s)) rfl

theorem nominate_construct (affinity : Affinity) (sources : List Alias) (nested : Bool)
    (typeName : Option String) (fields : List (Field Expr)) :
    (Expr.construct typeName fields).nominate affinity sources nested = ⟨.cannot, false⟩ := by
  rw [Expr.nominate] <;> simp [Expr.mustBeColumn, Expr.canBeColumn]

theorem nominate_entity (affinity : Affinity) (sources : List Alias) (nested : Bool) (entity : String)
    (e : Expr) : (Expr.entity entity e).nominate affinity sources nested = ⟨.cannot, false⟩ := by
  rw [Expr.nominate] <;> simp [Expr.mustBeColumn, Expr.canBeColumn]

variable {split : Split} {nested : Bool} {state state' : State}

/-- An object is split member by member. -/
theorem construct_run {typeName : Option String} {fields fields' : List (Field Expr)}
    (h : (fields.mapM fun f : Field Expr => (do
        return { f with expr := ← split.expr nested f.expr } : StateM State (Field Expr))).run state
      = (fields', state')) :
    (split.expr nested (.construct typeName fields)).run state = (.construct typeName fields', state') := by
  rw [expr_eq, nominate_construct]
  simp only [Bool.false_eq_true, if_false, Expr.traverse, List.mapM_subtype, List.unattach_attach, nests,
    Bool.or_false]
  exact (Yields.ofState State).bind h rfl

theorem entity_run {entity : String} {e e' : Expr}
    (h : (split.expr nested e).run state = (e', state')) :
    (split.expr nested (.entity entity e)).run state = (.entity entity e', state') := by
  rw [expr_eq, nominate_entity]
  simp only [Bool.false_eq_true, if_false, Expr.traverse, nests, Bool.or_false]
  exact (Yields.ofState State).bind h rfl

end Split

/-- A record over one relation is split into the columns that forward its members, and the record over
them. -/
theorem Expr.split_record (affinity : Affinity) (entity : String) (rel source : Alias)
    (slots : List Slot) :
    (record entity source slots).split affinity [] rel [source]
      = ⟨record entity rel (slots.map (Slot.through (Forward.all slots))),
        (Forward.all slots).map (Forward.decl source)⟩ := by
  have run : (Split.expr ⟨affinity, rel, [source]⟩ false (record entity source slots)).run ⟨[], 0⟩
      = (record entity rel (slots.map (Slot.through (Forward.all slots))),
        ⟨(Forward.all slots).map (Forward.decl source), 0⟩) :=
    Split.entity_run (Split.construct_run (Split.fields_forward affinity rel source false slots [] 0))
  rw [split, run]

def Forward.row (forwards : List Forward) (row : Row) : Row :=
  forwards.map fun f => (f.name, (row.get? f.read).getD .null)

def Forward.Fed (forwards : List Forward) (row : Row) : Prop :=
  ∀ f ∈ forwards, (row.get? f.read).isSome = true

def Slot.object (entity : String) (slots : List Slot) (row : Row) : ClientValue :=
  .object (some entity) (slots.map fun s => (s.member, .ofValue ((row.get? s.column).getD .null)))

namespace Forward

variable {slots : List Slot} {s : Slot} {row : Row}

/-- What a member is read from, it is read from through the columns that forward it. -/
theorem get?_through (hs : s ∈ slots) (row : Row) :
    (Forward.row (all slots) row).get? (s.through (all slots)).column
      = some ((row.get? s.column).getD .null) := by
  obtain ⟨f, hf, holds, through⟩ := exists_holds hs
  have names : ((Forward.row (all slots) row).map (·.1)).Nodup := by
    simpa [Forward.row, Function.comp_def] using nodup_all slots
  have mem : (f.name, (row.get? f.read).getD .null) ∈ Forward.row (all slots) row :=
    List.mem_map.mpr ⟨f, hf, rfl⟩
  simp only [Forward.holds, Bool.and_eq_true, beq_iff_eq] at holds
  rw [through, ← holds.1]
  exact Row.get?_of_mem names mem

/-- A row that has the columns of all members has what is forwarded for them. -/
theorem fed_of_slots (h : ∀ s ∈ slots, (row.get? s.column).isSome = true) : Fed (all slots) row := by
  intro f hf
  obtain ⟨s, hs, same⟩ := read_mem hf
  rw [same]
  exact h s hs

theorem isSome_through (slots : List Slot) (row : Row) :
    ∀ s ∈ slots.map (Slot.through (all slots)),
      ((Forward.row (all slots) row).get? s.column).isSome = true := by
  intro s' hs'
  obtain ⟨s, hs, rfl⟩ := List.mem_map.mp hs'
  rw [get?_through hs]
  rfl

/-- An object is the same when it is read through a select. -/
theorem object_through (entity : String) (slots : List Slot) (row : Row) :
    Slot.object entity (slots.map (Slot.through (all slots))) (Forward.row (all slots) row)
      = Slot.object entity slots row := by
  rw [Slot.object, Slot.object, List.map_map]
  congr 1
  refine List.map_congr_left fun s hs => ?_
  simp only [Function.comp_def, get?_through hs, Slot.member_through, Option.getD_some]

end Forward

section Evaluation

variable {tables : Tables} {σ : Scope}

/-- A column of a row in sight. -/
theorem Eval.scalar_found {rel : Alias} {row : Row} (inSight : σ.rows.lookup rel = some (some row))
    {name : String} {v : Value} (found : row.get? name = some v) (type : ColumnType) :
    scalar tables (.column ⟨rel, name, type⟩) σ = .ok v := by
  rw [scalar, Scope.column, inSight]
  simp [found]

/-- A column of the innermost row. -/
theorem Eval.scalar_bound {f : Frame} {rel : Alias} {row : Row} (inner : f.reverse.lookup rel = some (some row))
    {name : String} (found : (row.get? name).isSome = true) (type : ColumnType) (σ : Scope) :
    scalar tables (.column ⟨rel, name, type⟩) (σ.extend f) = .ok ((row.get? name).getD .null) := by
  have inSight : (σ.extend f).rows.lookup rel = some (some row) := by
    rw [Scope.extend, List.lookup_append, inner]
    rfl
  obtain ⟨v, hv⟩ := Option.isSome_iff_exists.mp found
  rw [scalar_found inSight hv, hv]
  rfl

abbrev Eval.reading : Yields Client (List (Alias × JoinedRows)) := .ofStateOk _ _

theorem Eval.client_value_run {e : Expr} {v : Value} (value : isValue e = true)
    (h : scalar tables e σ = .ok v) (joined : List (Alias × JoinedRows)) :
    (client tables e σ).run joined = .ok (.ofValue v, joined) := by
  rw [client_value value, h]
  rfl

/-- The client reads a record from its row. -/
theorem Eval.client_record {row : Row} {slots : List Slot}
    (found : ∀ s ∈ slots, (row.get? s.column).isSome = true) (entity : String) (rel : Alias) (σ : Scope)
    (joined : List (Alias × JoinedRows)) :
    (client tables (.record entity rel slots) (σ.bind rel row)).run joined
      = .ok (Slot.object entity slots row, joined) := by
  have each : ∀ s ∈ slots, reading.gives joined
      (do return (s.member, ← client tables (.column (s.ref rel)) (σ.bind rel row)))
      (s.member, .ofValue ((row.get? s.column).getD .null)) joined := by
    intro s hs
    have value : scalar tables (.column (s.ref rel)) (σ.bind rel row)
        = .ok ((row.get? s.column).getD .null) :=
      scalar_bound (f := [(rel, some row)]) (by simp) (found s hs) s.type σ
    exact reading.bind (client_value_run rfl value joined) (reading.pure _ _)
  rw [Expr.record, client, client_construct, List.mapM_map]
  exact reading.bind (reading.mapM_map each) (reading.pure _ _)

/-- The objects of a projection, each of which is read from its row. -/
theorem Eval.client_projection {p : Projection Expr} (all : p.pick = none) {rows : List Row}
    (hrows : select tables p.select σ = .ok rows) {object : Row → ClientValue}
    {joined : List (Alias × JoinedRows)} (each : ∀ row ∈ rows,
      (client tables p.projector (σ.bind p.select.rel row)).run joined = .ok (object row, joined)) :
    (client tables (.projection p) σ).run joined = .ok (.list (rows.map object), joined) := by
  have lifted : (liftM (select tables p.select σ) : Client (List Row)).run joined = .ok (rows, joined) := by
    rw [hrows]
    rfl
  rw [client, project_eq, all]
  exact reading.bind lifted (reading.bind (reading.mapM_map each) rfl)

theorem Eval.execute_projection {p : Projection Expr} (all : p.pick = none) {rows : List Row}
    (hrows : select tables p.select .root = .ok rows) {object : Row → ClientValue}
    (each : ∀ row ∈ rows, (client tables p.projector (Scope.root.bind p.select.rel row)).run []
      = .ok (object row, [])) :
    (Expr.projection p).execute tables = .ok (.list (rows.map object)) :=
  Expr.execute_eq_ok.mpr ⟨by simp, [], client_projection all hrows each⟩

end Evaluation

namespace Select

def forwarding (rel source : Alias) (forwards : List Forward) (base : Expr) (filter : Option Expr) :
    Select Expr :=
  .plain rel (forwards.map (Forward.decl source)) (some base) filter

variable {tables : Tables} {σ : Scope} {rel src : Alias} {forwards : List Forward} {base : Expr}
  {filter : Option Expr} {rows : List Row}

theorem flat_forwarding (unaggregated : ∀ e ∈ filter, (Part.expr e).aggregates = false) :
    (forwarding rel src forwards base filter).Flat := by
  refine flat_plain (fun d hd => ?_) unaggregated
  obtain ⟨f, -, rfl⟩ := List.mem_map.mp hd
  exact ⟨by simp [Forward.decl, Part.aggregates_eq, Part.isAggregate, Part.parts], by simp [Forward.decl]⟩

/-- The rows that pass the filter, with the columns that are forwarded. -/
theorem select_forwarding (unaggregated : ∀ e ∈ filter, (Part.expr e).aggregates = false)
    (hsource : Eval.source tables base σ = .ok (rows.map fun r => [(src, some r)]))
    (fed : ∀ r ∈ rows, Forward.Fed forwards r) {keep : Row → Bool}
    (hkeep : ∀ r ∈ rows, meets tables filter (σ.extend [(src, some r)]) = .ok (keep r)) :
    select tables (forwarding rel src forwards base filter) σ
      = .ok ((rows.filter keep).map (Forward.row forwards)) := by
  have flat : (forwarding rel src forwards base filter).Flat := flat_forwarding unaggregated
  have frames : Eval.frames tables (forwarding rel src forwards base filter) σ
      = .ok (rows.map fun r => [(src, some r)]) := hsource
  have value : ∀ r ∈ rows, ∀ f ∈ forwards, scalar tables (.column ⟨src, f.read, f.type⟩)
      (σ.extend [(src, some r)]) = .ok ((r.get? f.read).getD .null) := fun r hr f hf =>
    scalar_bound (by simp) (fed r hr f hf) f.type σ
  have columns : ∀ frame ∈ rows.map (fun r => [(src, some r)]),
      ∀ d ∈ (forwarding rel src forwards base filter).columns,
      scalar tables d.expr (σ.extend frame) = .ok (valueIn tables σ d.expr frame) := by
    intro frame hframe d hd
    obtain ⟨r, hr, rfl⟩ := List.mem_map.mp hframe
    obtain ⟨f, hf, rfl⟩ := List.mem_map.mp hd
    exact scalar_eq_valueIn (value r hr f hf)
  have kept : (rows.map fun r => [(src, some r)]).filter (fun frame =>
        (meets tables filter (σ.extend frame)).toOption.getD false)
      = (rows.filter keep).map fun r => [(src, some r)] := by
    rw [List.filter_map]
    refine congrArg _ (List.filter_congr fun r hr => ?_)
    rw [Function.comp_apply, hkeep r hr]
    rfl
  have passes : ∀ frame ∈ rows.map (fun r => [(src, some r)]), meets tables filter (σ.extend frame)
      = .ok ((meets tables filter (σ.extend frame)).toOption.getD false) := by
    intro frame hframe
    obtain ⟨r, hr, rfl⟩ := List.mem_map.mp hframe
    rw [hkeep r hr]
    rfl
  have unordered : ∀ frames, (forwarding rel src forwards base filter).ordered tables σ frames = frames :=
    fun _ => sortWith_eq_self_of_tied fun _ _ _ _ => rfl
  rw [flat.select_eq_ok frames _ passes columns (by simp [forwarding, plain])
    (by simp [forwarding, plain]), unordered, kept, List.map_map]
  refine congrArg _ (List.map_congr_left fun r hr => ?_)
  have hr := List.mem_of_mem_filter hr
  rw [Function.comp_apply, rowIn, Forward.row, forwarding, plain, List.map_map]
  refine List.map_congr_left fun f hf => ?_
  rw [Function.comp_apply, valueIn, Forward.decl, value r hr f hf]
  rfl

/-- Where the select has rows, its filter is known for every row of the relation. -/
theorem of_forwarding {out : List Row} (unaggregated : ∀ e ∈ filter, (Part.expr e).aggregates = false)
    (hsource : Eval.source tables base σ = .ok (rows.map fun r => [(src, some r)]))
    (fed : ∀ r ∈ rows, Forward.Fed forwards r) {keep : Row → Bool}
    (agrees : ∀ r ∈ rows, ∀ b, meets tables filter (σ.extend [(src, some r)]) = .ok b → b = keep r)
    (h : select tables (forwarding rel src forwards base filter) σ = .ok out) :
    (∀ r ∈ rows, meets tables filter (σ.extend [(src, some r)]) = .ok (keep r))
      ∧ out = (rows.filter keep).map (Forward.row forwards) := by
  have known : ∀ r ∈ rows, meets tables filter (σ.extend [(src, some r)]) = .ok (keep r) := by
    intro r hr
    have answer := h
    rw [(flat_forwarding unaggregated).select_eq] at answer
    obtain ⟨frames, hframes, answer⟩ := bind_eq_ok.mp answer
    obtain ⟨kept, hkept, -⟩ := bind_eq_ok.mp answer
    obtain rfl := Except.ok.inj (hframes.symm.trans hsource)
    obtain ⟨b, hb⟩ := ok_of_filterM hkept _ (List.mem_map_of_mem hr)
    rw [← agrees r hr b hb]
    exact hb
  exact ⟨known, Except.ok.inj (h.symm.trans (select_forwarding unaggregated hsource fed known))⟩

/-- Where a select forwards columns of a table, the table has them. -/
theorem select_table {t : Table} :
    select tables (forwarding rel t.rel forwards (.table t) none) σ = .ok rows ↔
      ∃ base, tables.get? t.name = some base ∧ (∀ r ∈ base, Forward.Fed forwards r)
        ∧ rows = base.map (Forward.row forwards) := by
  have forth : ∀ base, tables.get? t.name = some base → (∀ r ∈ base, Forward.Fed forwards r) →
      select tables (forwarding rel t.rel forwards (.table t) none) σ
        = .ok (base.map (Forward.row forwards)) := by
    intro base found fed
    have source : Eval.source tables (.table t) σ = .ok (base.map fun r => [(t.rel, some r)]) := by
      rw [Eval.source, found]
    have all : select tables (forwarding rel t.rel forwards (.table t) none) σ
        = .ok ((base.filter fun _ => true).map (Forward.row forwards)) :=
      select_forwarding (by simp) source fed fun _ _ => rfl
    rwa [List.filter_true] at all
  constructor
  case mpr =>
    rintro ⟨base, found, fed, rfl⟩
    exact forth base found fed
  intro h
  obtain ⟨frames, hframes, known⟩ := (flat_forwarding (by simp)).of_select rfl h
  rw [Eval.frames, show (forwarding rel t.rel forwards (.table t) none).source = some (.table t) from rfl] at hframes
  simp only [Eval.source] at hframes
  split at hframes
  · rename_i base found
    obtain rfl := Except.ok.inj hframes
    have fed : ∀ r ∈ base, Forward.Fed forwards r := by
      intro r hr f hf
      have value := (known _ (List.mem_map_of_mem hr)).1 _ (List.mem_map_of_mem hf)
      rw [Forward.decl, scalar, Scope.column, Scope.extend] at value
      cases hv : r.get? f.read with
      | some v => rfl
      | none => simp [hv] at value
    exact ⟨base, found, fed, Except.ok.inj (h.symm.trans (forth base found fed))⟩
  · cases hframes

end Select

end ObjectQuery
