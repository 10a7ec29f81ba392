import ObjectQuery.Proofs.Records

/-!
Copies of selects that forward columns. Where no aggregate of a group is numbered anew, a copy is the
tree with its aliases replaced, and they are numbered in walking order. So the copy of a select that
forwards columns forwards the same columns, and the copy of a record is read through it in the same way.
-/

namespace ObjectQuery

section Walks

variable {m : Type → Type} [Monad m] [LawfulMonad m] {σ : Type} (Y : Yields m σ) (on : Expr → m Expr)

/-- A walk over a plain select: its source, its filter, and its columns. -/
theorem Select.plain_gives {rel : Alias} {columns columns' : List (ColumnDecl Expr)} {base base' : Expr}
    {filter filter' : Option Expr} {s s₁ s₂ s₃ : σ} (onBase : Y.gives s (on base) base' s₁)
    (onFilter : Y.gives s₁ (filter.mapM on) filter' s₂)
    (onColumns : Y.gives s₂ (columns.mapM fun d => do return { d with expr := ← on d.expr }) columns' s₃) :
    Y.gives s ((plain rel columns (some base) filter).traverse fun e _ => on e)
      (plain rel columns' (some base') filter') s₃ := by
  simp only [traverse, plain, List.mapM_subtype, List.unattach_attach, optionMapM_attach, List.mapM_nil]
  exact Y.bind (Y.map some onBase) (Y.bind onFilter (Y.bind (Y.pure _ _) (Y.bind (Y.pure _ _)
    (Y.bind (Y.pure _ _) (Y.bind (Y.pure _ _) (Y.bind onColumns (Y.pure _ _)))))))

/-- A walk over a select that forwards columns. -/
theorem Select.forwarding_gives {rel source source' : Alias} {forwards : List Forward}
    {base base' : Expr} {filter filter' : Option Expr} {s s' s'' : σ}
    (onBase : Y.gives s (on base) base' s') (onFilter : Y.gives s' (filter.mapM on) filter' s'')
    (onColumns : ∀ f ∈ forwards, Y.gives s'' (on (.column ⟨source, f.read, f.type⟩))
      (.column ⟨source', f.read, f.type⟩) s'') :
    Y.gives s ((forwarding rel source forwards base filter).traverse fun e _ => on e)
      (forwarding rel source' forwards base' filter') s'' := by
  refine Select.plain_gives Y on onBase onFilter ?_
  rw [List.mapM_map]
  exact Y.mapM_map fun f hf => Y.bind (onColumns f hf) (Y.pure _ _)

/-- A walk over the members of a record. -/
theorem Slot.fields_gives {rel rel' : Alias} {slots : List Slot} {s : σ}
    (onColumns : ∀ k ∈ slots, Y.gives s (on (.column (k.ref rel))) (.column (k.ref rel')) s) :
    Y.gives s ((slots.map (Slot.field rel)).mapM fun x => do return { x with expr := ← on x.expr })
      (slots.map (Slot.field rel')) s := by
  rw [List.mapM_map]
  exact Y.mapM_map fun k hk => Y.bind (onColumns k hk) (Y.pure _ _)

end Walks

def Part.Copied (p : Part) : Prop := p.Relational ∧ p.Groupless

/-- Renaming a tree that mints nothing replaces its aliases. -/
theorem Part.rename_run {r : Renaming} (params : ∀ p, r.param p = p) {p : Part}
    (copied : p.Every Part.Copied) (s : Supply) :
    (∀ e, p = .expr e → (e.rename r).run s = (e.realias r.rel, s))
    ∧ (∀ q, p = .select q → (q.rename r).run s = (q.realias r.rel, s))
    ∧ ∀ q, p = .projection q → (q.rename r).run s = (q.realias r.rel, s) := by
  let Y := Yields.ofState Supply
  induction copied with
  | @node p here _ ih =>
    refine ⟨?_, ?_, ?_⟩
    · rintro e rfl
      have walked : Y.gives s (e.traverse (fun c _ => c.rename r) (fun q _ => q.rename r)
          fun q _ => q.rename r) (e.traverse (m := Id) (fun c _ => c.realias r.rel)
            (fun q _ => q.realias r.rel) fun q _ => q.realias r.rel) s :=
        Expr.traverse_gives Y e (fun c hc => (ih _ hc).1 c rfl) (fun q hq => (ih _ hq).2.1 q rfl)
          fun q hq => (ih _ hq).2.2 q rfl
      cases e with
      | table t =>
        rw [Expr.rename, Expr.realias.eq_2 _ _ (by simp)]
        rfl
      | column c =>
        rw [Expr.rename, Expr.realias.eq_2 _ _ (by simp)]
        rfl
      | param n =>
        rw [Expr.rename, params, Expr.realias.eq_2 _ _ (by simp)]
        rfl
      | lambda _ | operator _ | command _ => exact here.1.elim
      | groupAggregate _ _ _ _ => exact here.2.elim
      | _ =>
        rw [Expr.rename.eq_4 r _ (by simp) (by simp) (by simp), Expr.realias.eq_2 _ _ (by simp)]
        exact Y.bind walked rfl
    · rintro q rfl
      rw [Select.rename, Select.realias]
      exact Y.bind (Select.traverse_gives Y q fun e he => (ih _ he).1 e rfl) rfl
    · rintro q rfl
      rw [Projection.rename, Projection.realias]
      exact Y.bind ((ih _ Projection.select_mem).2.1 _ rfl)
        (Y.bind ((ih _ Projection.projector_mem).1 _ rfl) rfl)

def Renaming.numbering (n : Nat) (ds : List Alias) : Renaming := ⟨numberedFrom n ds, []⟩

namespace Expr

variable {e : Expr} {ds : List Alias}

theorem fresh_run (copied : (Part.expr e).Every Part.Copied)
    (declared : (Part.expr e).declared.eraseDups = ds) (n : Nat) :
    (Renaming.fresh (.expr e)).run ⟨n⟩ = (.numbering n ds, ⟨n + ds.length⟩) := by
  rw [Renaming.run_fresh (copied.mono fun _ h => h.1), declared]
  rfl

theorem rename_numbering (copied : (Part.expr e).Every Part.Copied) (n : Nat) (ds : List Alias)
    (s : Supply) : (e.rename (.numbering n ds)).run s = (e.realias (Renaming.numbering n ds).rel, s) :=
  (Part.rename_run (r := .numbering n ds) (fun _ => rfl) copied s).1 e rfl

theorem copy_run (copied : (Part.expr e).Every Part.Copied)
    (declared : (Part.expr e).declared.eraseDups = ds) (n : Nat) :
    e.copy.run ⟨n⟩ = (e.realias (Renaming.numbering n ds).rel, ⟨n + ds.length⟩) :=
  (Yields.ofState Supply).bind (fresh_run copied declared n) (rename_numbering copied n ds _)

theorem copyWithAliases_run (copied : (Part.expr e).Every Part.Copied)
    (declared : (Part.expr e).declared.eraseDups = ds) (declares : ds ≠ []) (n : Nat) :
    e.copyWithAliases.run ⟨n⟩
      = ((e.realias (Renaming.numbering n ds).rel, numberedFrom n ds), ⟨n + ds.length⟩) := by
  refine (Yields.ofState Supply).bind (fresh_run copied declared n) ?_
  have some : (Renaming.numbering n ds).aliases.isEmpty = false := by
    cases ds with
    | nil => exact absurd rfl declares
    | cons _ _ => rfl
  simp only [some, Bool.false_and, Bool.false_eq_true, if_false]
  exact (Yields.ofState Supply).bind (rename_numbering copied n ds _) rfl

end Expr

section Realias

variable (f : Alias → Alias)

@[simp] theorem Expr.realias_column (c : Column) :
    (Expr.column c).realias f = .column { c with rel := f c.rel } := by
  rw [realias.eq_2 _ _ (by simp)]
  rfl

@[simp] theorem Expr.realias_table (t : Table) :
    (Expr.table t).realias f = .table { t with rel := f t.rel } := by
  rw [realias.eq_2 _ _ (by simp)]
  rfl

@[simp] theorem Expr.realias_select (s : Select Expr) : (Expr.select s).realias f = .select (s.realias f) := by
  rw [realias.eq_2 _ _ (by simp)]
  rfl

@[simp] theorem Expr.realias_projection (p : Projection Expr) :
    (Expr.projection p).realias f = .projection (p.realias f) := by
  rw [realias.eq_2 _ _ (by simp)]
  rfl

@[simp] theorem Projection.realias_mk (s : Select Expr) (e : Expr) (pick : Option Pick) :
    (Projection.mk s e pick).realias f = ⟨s.realias f, e.realias f, pick⟩ := by
  rw [realias]
  rfl

@[simp] theorem Expr.realias_grouping (key group : Expr) :
    (Expr.grouping key group).realias f = .grouping (key.realias f) (group.realias f) := by
  rw [realias.eq_2 _ _ (by simp)]
  rfl

@[simp] theorem Expr.realias_binary (op : BinaryOp) (a b : Expr) :
    (Expr.binary op a b).realias f = .binary op (a.realias f) (b.realias f) := by
  rw [realias.eq_2 _ _ (by simp)]
  rfl

@[simp] theorem Expr.realias_isNull (e : Expr) : (Expr.isNull e).realias f = .isNull (e.realias f) := by
  rw [realias.eq_2 _ _ (by simp)]
  rfl

@[simp] theorem Expr.realias_record (entity : String) (rel : Alias) (slots : List Slot) :
    (record entity rel slots).realias f = record entity (f rel) slots := by
  have object : (construct (some entity) (slots.map (Slot.field rel))).realias f
      = .construct (some entity) (slots.map (Slot.field (f rel))) := by
    rw [realias.eq_2 _ _ (by simp)]
    simp only [traverse, List.mapM_subtype, List.unattach_attach]
    exact congrArg (fun fields => Expr.relabel f (.construct (some entity) fields))
      (Slot.fields_gives Yields.ofId (fun e => e.realias f) (s := ()) fun k _ => realias_column f (k.ref rel))
  rw [record, realias.eq_2 _ _ (by simp), record, ← object]
  rfl

@[simp] theorem Select.realias_forwarding (rel source : Alias) (forwards : List Forward) (base : Expr)
    (filter : Option Expr) : (forwarding rel source forwards base filter).realias f
      = forwarding (f rel) (f source) forwards (base.realias f) (filter.map (·.realias f)) := by
  have filters : filter.mapM (m := Id) (·.realias f) = filter.map (·.realias f) := by
    cases filter <;> rfl
  have source' : Yields.ofId.gives () (m := Id) (base.realias f) (base.realias f) () := rfl
  have walked : Yields.ofId.gives () ((forwarding rel source forwards base filter).traverse (m := Id)
        fun e _ => e.realias f)
      (forwarding rel (f source) forwards (base.realias f) (filter.map (·.realias f))) () :=
    forwarding_gives Yields.ofId (fun e => e.realias f) source' filters
      fun x _ => Expr.realias_column f ⟨source, x.read, x.type⟩
  rw [realias, show (forwarding rel source forwards base filter).traverse (m := Id) _ = _ from walked]
  rfl

end Realias

namespace Part

variable {P : Part → Prop} {entity : String} {rel source : Alias} {slots : List Slot}
  {forwards : List Forward} {base : Expr} {filter : Option Expr}

theorem every_column {c : Column} (here : P (.expr (.column c))) : (Part.expr (.column c)).Every P :=
  .node here (by simp [parts])

theorem every_record (here : P (.expr (.record entity rel slots)))
    (object : P (.expr (.construct (some entity) (slots.map (Slot.field rel)))))
    (columns : ∀ c : Column, c.rel = rel → P (.expr (.column c))) :
    (Part.expr (.record entity rel slots)).Every P := by
  refine .node here fun q hq => ?_
  obtain rfl := List.mem_singleton.mp hq
  refine .node object fun q hq => ?_
  obtain ⟨f, hf, rfl⟩ := List.mem_map.mp hq
  obtain ⟨s, -, rfl⟩ := List.mem_map.mp hf
  exact every_column (columns _ rfl)

theorem every_plain {columns : List (ColumnDecl Expr)}
    (here : P (.select (.plain rel columns (some base) filter))) (onBase : (Part.expr base).Every P)
    (onFilter : ∀ e ∈ filter, (Part.expr e).Every P) (onColumns : ∀ d ∈ columns, (Part.expr d.expr).Every P) :
    (Part.select (.plain rel columns (some base) filter)).Every P := by
  refine .node here fun p hp => ?_
  obtain ⟨e, he, rfl⟩ := List.mem_map.mp hp
  simp only [Select.exprs, Select.plain, Option.toList_some, Option.toList_none, List.map_nil, List.append_nil,
    List.mem_append, List.mem_singleton, List.mem_map] at he
  rcases he with (rfl | he) | ⟨d, hd, rfl⟩
  · exact onBase
  · exact onFilter e (Option.mem_toList.mp he)
  · exact onColumns d hd

theorem every_forwarding (here : P (.select (.forwarding rel source forwards base filter)))
    (columns : ∀ c : Column, c.rel = source → P (.expr (.column c))) (onBase : (Part.expr base).Every P)
    (onFilter : ∀ e ∈ filter, (Part.expr e).Every P) :
    (Part.select (.forwarding rel source forwards base filter)).Every P := by
  refine every_plain here onBase onFilter fun d hd => ?_
  obtain ⟨f, -, rfl⟩ := List.mem_map.mp hd
  exact every_column (columns _ rfl)

theorem every_over {columns : List (ColumnDecl Expr)} {q : Select Expr}
    (here : P (.select (.plain rel columns (some (.select q)) none))) (wrapped : P (.expr (.select q)))
    (onSource : (Part.select q).Every P) (onColumns : ∀ d ∈ columns, (Part.expr d.expr).Every P) :
    (Part.select (.plain rel columns (some (.select q)) none)).Every P :=
  every_plain here (.node wrapped (by simpa [parts] using onSource)) (by simp) onColumns

theorem declared_column (c : Column) : (Part.expr (.column c)).declared = [] := by
  rw [declared_eq]
  rfl

theorem declared_record (entity : String) (rel : Alias) (slots : List Slot) :
    (Part.expr (.record entity rel slots)).declared = [] := by
  have object : (Part.expr (.construct (some entity) (slots.map (Slot.field rel)))).declared = [] := by
    rw [declared_eq]
    simp [binds, parts, Slot.field, declared_column]
  rw [declared_eq]
  simp [binds, parts, Expr.record, object]

theorem declared_forwarding (rel source : Alias) (forwards : List Forward) (base : Expr)
    (filter : Option Expr) : (Part.select (.forwarding rel source forwards base filter)).declared
      = rel :: (Part.expr base).declared ++ filter.toList.flatMap fun e => (Part.expr e).declared := by
  rw [declared_eq]
  simp [binds, parts, Select.exprs, Select.forwarding, Select.plain, Forward.decl, declared_column,
    List.flatMap_map]

end Part

namespace Mapping

def Member.value (m : Member) (row : Row) : Value := (row.get? m.columnName).getD .null

end Mapping

namespace Mapping.Entity

variable (e : Entity)

def slots : List Slot := e.members.map fun m => ⟨m.name, m.columnName, m.type⟩

def forwards : List Forward := Forward.all e.slots

def seen : List Slot := e.slots.map (Slot.through e.forwards)

def rows (rel table : Alias) : Projection Expr :=
  ⟨.forwarding rel table e.forwards (.table ⟨table, e.name, e.table⟩) none, .record e.name rel e.seen, none⟩

def object (row : Row) : ClientValue :=
  .object (some e.name) (e.members.map fun m => (m.name, .ofValue (m.value row)))

theorem projector_eq (t : Table) : e.projector t = .record e.name t.rel e.slots := by
  rw [projector, Expr.record, slots, List.map_map]
  rfl

theorem relation_run (n : Nat) : e.relation.run ⟨n⟩ = (e.rows ⟨n + 1⟩ ⟨n⟩, ⟨n + 2⟩) := by
  let t : Table := ⟨⟨n⟩, e.name, e.table⟩
  let parts := (e.projector t).split .client [] ⟨n + 1⟩ [t.rel]
  have run : e.relation.run ⟨n⟩
      = (⟨.plain ⟨n + 1⟩ parts.columns (some (.table t)) none, parts.projector, none⟩, ⟨n + 2⟩) := rfl
  have split : parts = ⟨.record e.name ⟨n + 1⟩ e.seen, e.forwards.map (Forward.decl t.rel)⟩ := by
    rw [show parts = _ from congrArg (Expr.split · .client [] ⟨n + 1⟩ [t.rel]) (e.projector_eq t)]
    exact Expr.split_record _ _ _ _ _
  rw [run, split]
  rfl

theorem every_rows {P : Part → Prop} {rel table : Alias}
    (here : P (.projection (e.rows rel table))) (select : P (.select (e.rows rel table).select))
    (stored : P (.expr (.table ⟨table, e.name, e.table⟩)))
    (record : P (.expr (.record e.name rel e.seen)))
    (object : P (.expr (.construct (some e.name) (e.seen.map (Slot.field rel)))))
    (columns : ∀ c : Column, c.rel = rel ∨ c.rel = table → P (.expr (.column c))) :
    (Part.projection (e.rows rel table)).Every P := by
  refine .node here fun q hq => ?_
  simp only [Part.parts, List.mem_cons, List.not_mem_nil, or_false] at hq
  rcases hq with rfl | rfl
  · exact Part.every_forwarding select (fun c hc => columns c (.inr hc))
      (.node stored (by simp [Part.parts])) (by simp)
  · exact Part.every_record record object fun c hc => columns c (.inl hc)

theorem declared_rows (rel table : Alias) :
    (Part.projection (e.rows rel table)).declared = [rel, table] := by
  have stored : (Part.expr (.table ⟨table, e.name, e.table⟩)).declared = [table] := by
    rw [Part.declared_eq]
    rfl
  rw [Part.declared_eq]
  simp [Part.binds, Part.parts, rows, Part.declared_forwarding, stored, Part.declared_record]

/-- A copy of the rows of a table reads the table once more. -/
theorem copy_rows {rel table : Alias} (apart : rel ≠ table) (n : Nat) :
    (Expr.projection (e.rows rel table)).copy.run ⟨n⟩
      = (.projection (e.rows ⟨n⟩ ⟨n + 1⟩), ⟨n + 2⟩) := by
  have copied : (Part.expr (.projection (e.rows rel table))).Every Part.Copied := by
    refine .node ⟨trivial, trivial⟩ fun q hq => ?_
    obtain rfl := List.mem_singleton.mp hq
    exact e.every_rows ⟨trivial, trivial⟩ ⟨trivial, trivial⟩ ⟨trivial, trivial⟩ ⟨trivial, trivial⟩
      ⟨trivial, trivial⟩ fun _ _ => ⟨trivial, trivial⟩
  have declared : (Part.expr (.projection (e.rows rel table))).declared.eraseDups = [rel, table] := by
    rw [Part.declared_eq]
    simp [Part.binds, Part.parts, declared_rows, List.eraseDups_cons, apart.symm]
  rw [Expr.copy_run copied declared]
  simp [rows, Renaming.numbering, Renaming.rel, numberedFrom, List.zipIdx, List.lookup_cons, apart.symm,
    beq_false_of_ne]

def slot (m : Member) : Slot := Slot.through e.forwards ⟨m.name, m.columnName, m.type⟩

theorem find?_seen (name : String) :
    e.seen.find? (·.member == name) = (e.member? name).map e.slot := by
  have mapped : e.slots.find? (·.member == name)
      = (e.member? name).map fun m => ⟨m.name, m.columnName, m.type⟩ := by
    rw [slots, List.find?_map]
    rfl
  rw [seen, Slot.find?_through, mapped, Option.map_map]
  rfl

end Mapping.Entity

/-- A member of a record is the column that it is read from. -/
theorem Expr.bindMember_record {entity name : String} {rel : Alias} {slots : List Slot} {k : Slot}
    (h : slots.find? (·.member == name) = some k) :
    (record entity rel slots).bindMember name = .column (k.ref rel) := by
  have found : fieldNamed? name (slots.map (Slot.field rel)) = some (.column (k.ref rel)) := by
    rw [fieldNamed?, List.find?_map]
    simp only [Function.comp_def, Slot.field, h]
    rfl
  have object : (construct (some entity) (slots.map (Slot.field rel))).bindMember name
      = .column (k.ref rel) := by
    rw [bindMember, found]
    rfl
  rw [record, bindMember, object]

end ObjectQuery
