import ObjectQuery.Proofs.GroupColumns
import ObjectQuery.Proofs.Partition

/-!
Reports of keys and totals. A total of a group is the aggregate of the rows with its key, whether a
subquery finds them by the key or the select that groups has them at hand. So a report answers the same
when its totals become columns of that select, and then it needs no subqueries.
-/

namespace ObjectQuery

open Eval

namespace Split

/-- Members that the server computes become columns. -/
theorem fields_chosen (split : Split) (nested : Bool) {fields : List (Field Expr)}
    (chosen : ∀ f ∈ fields, (f.expr.nominate split.affinity split.sources nested).chosen = true) (s : State) :
    ∃ fields' s', (fields.mapM fun f : Field Expr => (do
        return { f with expr := ← split.expr nested f.expr } : StateM State (Field Expr))).run s = (fields', s')
      ∧ (∀ f ∈ fields', ∃ c, f.expr = .column c)
      ∧ ∀ d ∈ s'.columns, d ∈ s.columns ∨ ∃ f ∈ fields, d.expr = f.expr := by
  induction fields generalizing s with
  | nil => exact ⟨[], s, rfl, by simp, fun d hd => .inl hd⟩
  | cons f rest ih =>
    obtain ⟨c, s₁, run, columns⟩ : ∃ c s₁, (split.expr nested f.expr).run s = (.column c, s₁)
        ∧ ∀ d ∈ s₁.columns, d ∈ s.columns ∨ d.expr = f.expr := by
      rw [expr_eq, if_pos (chosen f (by simp))]
      rcases column_cases split s f.expr with ⟨d, -, run⟩ | ⟨name, next, run, -⟩
      · exact ⟨_, _, run, fun d hd => .inl hd⟩
      · refine ⟨_, _, run, fun d hd => ?_⟩
        rcases List.mem_append.mp hd with hd | hd
        · exact .inl hd
        · rw [List.mem_singleton.mp hd]
          exact .inr rfl
    obtain ⟨fields', s₂, runs, fields, grown⟩ := ih (fun f hf => chosen f (by simp [hf])) s₁
    refine ⟨{ f with expr := .column c } :: fields', s₂, ?_, ?_, fun d hd => ?_⟩
    · rw [List.mapM_cons]
      exact (Yields.ofState State).bind ((Yields.ofState State).bind run rfl)
        ((Yields.ofState State).bind runs rfl)
    · intro f' hf'
      rcases List.mem_cons.mp hf' with rfl | hf'
      · exact ⟨c, rfl⟩
      · exact fields f' hf'
    · rcases grown d hd with hd | ⟨f', hf', same⟩
      · rcases columns d hd with hd | same
        · exact .inl hd
        · exact .inr ⟨f, by simp, same⟩
      · exact .inr ⟨f', by simp [hf'], same⟩

end Split

/-- So an object of such members is made of columns. -/
theorem Expr.split_chosen {affinity : Affinity} {sources : List Alias} {fields : List (Field Expr)}
    (chosen : ∀ f ∈ fields, (f.expr.nominate affinity sources false).chosen = true) (rel : Alias) :
    ∃ fields' columns, (construct none fields).split affinity [] rel sources = ⟨.construct none fields', columns⟩
      ∧ (∀ f ∈ fields', ∃ c, f.expr = .column c) ∧ ∀ d ∈ columns, ∃ f ∈ fields, d.expr = f.expr := by
  obtain ⟨fields', s, run, all, columns⟩ := Split.fields_chosen ⟨affinity, rel, sources⟩ false chosen ⟨[], 0⟩
  refine ⟨fields', s.columns, ?_, all, fun d hd => (columns d hd).resolve_left (by simp)⟩
  rw [split, Split.construct_run run]

namespace Mapping.Entity.Grouping

variable {e : Entity} {G : e.Grouping} {keyName : String} {totals : List Total} {n : Nat}

theorem mem_answers {f : Field Expr} (hf : f ∈ G.answers keyName totals n) :
    f.expr = .column (G.key.ref G.owner)
      ∨ ∃ t i, totals[i]? = some t ∧ f.expr = G.total t (n + 5 * i) := by
  rcases List.mem_cons.mp hf with rfl | hf
  · exact .inl rfl
  · obtain ⟨⟨t, i⟩, mem, rfl⟩ := List.mem_map.mp hf
    exact .inr ⟨t, i, List.mem_zipIdx_iff_getElem?.mp mem, rfl⟩

def Column (G : e.Grouping) (totals : List Total) (n : Nat) (d : ColumnDecl Expr) : Prop :=
  d.expr = .column (G.key.ref G.owner) ∨ ∃ t i, totals[i]? = some t ∧ d.expr = G.total t (n + 5 * i)

def sheet (G : e.Grouping) (columns : List (ColumnDecl Expr)) (fields : List (Field Expr)) (rel : Alias) :
    GroupReport :=
  ⟨G.keys, columns, .construct none fields, rel⟩

theorem every_fields {P : Part → Prop} {fields : List (Field Expr)} (read : ∀ f ∈ fields, ∃ c, f.expr = .column c)
    (object : P (.expr (.construct none fields))) (columns : ∀ c, P (.expr (.column c))) :
    (Part.expr (.construct none fields)).Every P := by
  refine .node object fun q hq => ?_
  obtain ⟨f, hf, rfl⟩ := List.mem_map.mp hq
  obtain ⟨c, eq⟩ := read f hf
  rw [eq]
  exact Part.every_column (columns c)

theorem sheet_sound {columns : List (ColumnDecl Expr)} (known : ∀ d ∈ columns, G.Column totals n d)
    {fields : List (Field Expr)} (read : ∀ f ∈ fields, ∃ c, f.expr = .column c) (rel : Alias) :
    (G.sheet columns fields rel).Sound where
  source p hp := (G.every_keys p hp).mono fun q hq => ⟨(Part.Copied.of_tabular hq).2, by rintro s rfl; exact hq⟩
  asked d hd := by
    rcases known d hd with eq | ⟨t, i, -, eq⟩
    · exact .inl ⟨_, eq⟩
    · have subquery : (Part.select (G.fallback t (n + 5 * i))).Every
          (Part.Tabular (fun _ => True) fun _ => True) := G.every_fallback (by simp) (by simp)
      have aggregate : (Part.expr (.aggregateOf t.kind (t.slot e.seen) G.rel)).Every
          (Part.Tabular (fun _ => True) fun _ => True) := every_aggregateOf _ _ trivial
      have groupless : ∀ q : Part, q.Tabular (fun _ => True) (fun _ => True) → q.Groupless := fun _ hq =>
        (Part.Copied.of_tabular hq).2
      exact .inr ⟨_, _, _, eq, aggregate.mono groupless, subquery.mono groupless⟩
  numbered d hd d' hd' := by
    intro i a a' fallback fallback' eq eq'
    rcases known d hd with key | ⟨t, j, ht, asks⟩
    · cases key.symm.trans eq
    rcases known d' hd' with key | ⟨t', j', ht', asks'⟩
    · cases key.symm.trans eq'
    obtain ⟨number, -, rfl, -⟩ := Expr.groupAggregate.inj (asks.symm.trans eq)
    obtain ⟨number', -, rfl, -⟩ := Expr.groupAggregate.inj (asks'.symm.trans eq')
    obtain rfl : j = j' := by omega
    obtain rfl := Option.some.inj (ht.symm.trans ht')
    rfl
  rest := every_fields read trivial fun _ => trivial

/-- A report has columns for the key and the totals, and an object that is read from the columns. -/
theorem report_eq (G : e.Grouping) (affinity : Affinity) (rel : Alias) (keyName : String)
    (totals : List Total) (n : Nat) : ∃ columns fields,
      Expr.projection (G.report affinity rel (G.answers keyName totals n)) = (G.sheet columns fields rel).tree
      ∧ (∀ d ∈ columns, G.Column totals n d) ∧ ∀ f ∈ fields, ∃ c, f.expr = .column c := by
  have chosen : ∀ f ∈ G.answers keyName totals n,
      (f.expr.nominate affinity [G.owner] false).chosen = true := by
    intro f hf
    rcases mem_answers hf with eq | ⟨t, i, -, eq⟩
    · rw [eq]
      exact nominate_column (by simp [Slot.ref])
    · rw [eq]
      exact G.nominate_total affinity t _
  obtain ⟨fields, columns, split, read, known⟩ := Expr.split_chosen chosen rel
  refine ⟨columns, fields, ?_, fun d hd => ?_, read⟩
  · rw [report, split]
    rfl
  · obtain ⟨f, hf, eq⟩ := known d hd
    rw [Column, eq]
    exact mem_answers hf

end Mapping.Entity.Grouping

namespace Mapping.Entity

def totalOf (e : Entity) (m : Member) (base : List Row) (key : Value) (t : Total) : Result Value :=
  Eval.total t.kind ((t.slot e.seen).map (·.column)) (e.rowsOf m base key)

namespace Grouping

variable {e : Entity} {G : e.Grouping} {m : Member} {base : List Row} {tables : Tables} {p : Param} {t : Total}

structure Over (G : e.Grouping) (m : Member) (base : List Row) (tables : Tables) : Prop where
  key : G.key = e.slot m
  mapped : ∃ name, e.member? name = some m
  stored : tables.get? e.table = some base
  complete : ∀ r ∈ base, e.Complete r
  typed : ∃ k : KeyType, ∀ r ∈ base, k.admits (m.value r)

abbrev inGroup (G : e.Grouping) (m : Member) (base : List Row) (v : Value) (σ : Scope) : Scope :=
  σ.ofGroup (nullFrame (some (.select (e.rows G.rel G.stored).select))) G.rel (e.rowsOf m base v)

abbrev atKey (G : e.Grouping) (v : Value) (σ : Scope) : Scope := σ.bind G.owner (G.key.keyRow G.marks v)

/-- The select that groups has the rows of the group at hand. -/
theorem scalar_inGroup (fits : t.Fits e p) (v : Value) (σ : Scope) :
    scalar tables (.aggregateOf t.kind (t.slot e.seen) G.rel) (G.inGroup m base v σ) = e.totalOf m base v t := by
  refine scalar_aggregateOf fits.counts fun k hk r hr => ?_
  obtain ⟨r, -, rfl⟩ := List.mem_map.mp hr
  exact Forward.isSome_through e.slots r k (Total.slot_mem hk)

/-- The elements of a group have its total. -/
theorem scalar_ofElements (fits : t.Fits e p) (blank : Frame) (el : Alias) (v : Value) (σ : Scope) :
    scalar tables (.aggregateOf t.kind (t.slot e.reseen) el)
      (σ.ofGroup blank el ((e.rowsOf m base v).map (Forward.row e.inner))) = e.totalOf m base v t := by
  have argument : t.slot e.reseen = (t.slot e.seen).map (Slot.through e.inner) :=
    Total.slot_through e.inner e.seen
  have found : ∀ k ∈ t.slot e.reseen, ∀ r ∈ (e.rowsOf m base v).map (Forward.row e.inner),
      (r.get? k.column).isSome = true := by
    intro k hk r hr
    obtain ⟨r, -, rfl⟩ := List.mem_map.mp hr
    exact Forward.isSome_through e.seen r k (Total.slot_mem hk)
  have counts : t.slot e.reseen = none → t.kind.isCount = true := fun h =>
    fits.counts (by simpa [argument] using h)
  rw [scalar_aggregateOf counts found, argument]
  exact total_through t.kind (fun k hk => Total.slot_mem hk) _

section Subqueries

variable (groups : G.Over m base tables) {v : Value} (hv : v ∈ m.keys base)
include groups hv

/-- The subquery for a total finds the rows of the group by their key. -/
theorem Over.source_elements {source : Alias} (apart : G.owner ≠ source) (el table : Alias) (σ : Scope) :
    Eval.source tables (.select (e.elements G.key G.owner G.test el source table).select) (G.atKey v σ)
      = .ok (((e.rowsOf m base v).map (Forward.row e.inner)).map fun r => [(el, some r)]) := by
  obtain ⟨name, mapped⟩ := groups.mapped
  obtain ⟨k, typed⟩ := groups.typed
  have rows : select tables (e.elements G.key G.owner G.test el source table).select (G.atKey v σ)
      = .ok ((e.rowsOf m base v).map (Forward.row e.inner)) := by
    have nullTest := G.nullTest
    simp only [atKey, groups.key] at nullTest ⊢
    exact select_elements groups.stored groups.complete mapped typed nullTest apart hv el table σ
  rw [Eval.source, rows]
  rfl

theorem Over.select_fallback (fits : t.Fits e p) {i : Nat} (fresh : G.owner.id < i) (σ : Scope) :
    select tables (G.fallback t i) (G.atKey v σ) = (do return [[("value", ← e.totalOf m base v t)]]) := by
  have apart : G.owner ≠ ⟨i + 1⟩ := by
    intro same
    rw [same] at fresh
    exact Nat.not_lt.mpr (Nat.le_succ i) fresh
  have aggregates : (G.fallback t i).hasAggregates = true := by
    simp [Select.hasAggregates, fallback, Select.plain, ColumnDecl.of, Expr.aggregateOf, Part.aggregates_eq,
      Part.isAggregate]
  rw [fallback, Select.select_total aggregates (by simp [ColumnDecl.of, Expr.aggregateOf])
    (groups.source_elements hv apart ⟨i⟩ ⟨i + 2⟩ σ)]
  simp only [rowOf, List.mapM_cons, List.mapM_nil, ColumnDecl.of, scalar_ofElements fits, bind_assoc, pure_bind]

theorem Over.scalar_total (fits : t.Fits e p) {i : Nat} (fresh : G.owner.id < i) (σ : Scope) :
    scalar tables (G.total t i) (G.atKey v σ) = e.totalOf m base v t := by
  rw [total, scalar, groups.select_fallback hv fits fresh]
  cases e.totalOf m base v t <;> rfl

end Subqueries

end Grouping

end Mapping.Entity

section Walks

variable {α β γ ε : Type} {l : List α} {f : α → Except ε γ} {h : α → Except ε β} {g : β → Except ε γ}

theorem exists_mapM (all : ∀ a ∈ l, ∃ b, h a = .ok b) : ∃ bs, l.mapM h = .ok bs := by
  induction l with
  | nil => exact ⟨[], rfl⟩
  | cons a rest ih =>
    obtain ⟨b, hb⟩ := all a (by simp)
    obtain ⟨bs, hbs⟩ := ih fun a ha => all a (by simp [ha])
    exact ⟨b :: bs, by rw [List.mapM_cons, hb, ok_bind, hbs]; rfl⟩

theorem mapM_congr {f' : α → Except ε γ} (same : ∀ a ∈ l, f a = f' a) : l.mapM f = l.mapM f' := by
  induction l with
  | nil => rfl
  | cons a rest ih => rw [List.mapM_cons, List.mapM_cons, same a (by simp), ih fun a ha => same a (by simp [ha])]

theorem Alike.of_fails {x y : Except ε α} (hx : ∀ a, x ≠ .ok a) (hy : ∀ a, y ≠ .ok a) : Alike x y := by
  cases x with
  | ok a => exact absurd rfl (hx a)
  | error _ =>
    cases y with
    | ok a => exact absurd rfl (hy a)
    | error _ => rfl

/-- A walk in two stages, the first of which succeeds wherever the walk does. -/
theorem Alike.mapM_through (back : ∀ a ∈ l, ∀ c, f a = .ok c → ∃ b, h a = .ok b)
    (same : ∀ a ∈ l, ∀ b, h a = .ok b → g b = f a) :
    Alike (l.mapM h >>= fun bs => bs.mapM g) (l.mapM f) := by
  cases first : l.mapM h with
  | ok bs =>
    have pairs := forall₂_of_mapM first
    clear first back
    refine congrArg Except.toOption (?_ : bs.mapM g = l.mapM f)
    induction pairs with
    | nil => rfl
    | cons hab _ ih =>
      rw [List.mapM_cons, List.mapM_cons, same _ (by simp) _ hab, ih fun a ha => same a (by simp [ha])]
  | error _ =>
    cases whole : l.mapM f with
    | ok cs =>
      obtain ⟨bs, hbs⟩ := exists_mapM fun a ha =>
        (ok_of_mapM whole a ha).elim fun c hc => back a ha c hc
      cases first.symm.trans hbs
    | error _ => rfl

end Walks

namespace Mapping.Entity.Grouping

variable {e : Entity} {G : e.Grouping} {m : Member} {base : List Row} {tables : Tables} {p : Param}
  {totals : List Total} {n : Nat} {columns : List (ColumnDecl Expr)} {fields : List (Field Expr)} {rel : Alias}

section Groups

variable (groups : G.Over m base tables) {v : Value} (hv : v ∈ m.keys base) (σ : Scope)
include groups

/-- All rows of a group have its key. -/
theorem Over.scalar_key (hv : v ∈ m.keys base) :
    scalar tables (.column (G.key.ref G.rel)) (G.inGroup m base v σ) = .ok v := by
  obtain ⟨name, mapped⟩ := groups.mapped
  obtain ⟨t, typed⟩ := groups.typed
  obtain ⟨⟨r, hr⟩, all⟩ := rowsOf_spec mapped typed hv
  rw [groups.key]
  exact scalar_ofGroup hr all _

/-- The keys, when the select that groups has more columns. -/
theorem Over.select_keys (more : List (ColumnDecl Expr))
    (unnumbered : ∀ d ∈ more, ∀ orders, d.expr ≠ .rowNumber orders) :
    select tables { G.keys with columns := G.keys.columns ++ more } σ = (m.keys base).mapM fun v => do
      return G.key.keyRow G.marks v ++ (← rowOf tables more (G.inGroup m base v σ)) := by
  obtain ⟨name, mapped⟩ := groups.mapped
  obtain ⟨t, typed⟩ := groups.typed
  have apart : ∀ d ∈ G.keys.columns ++ more, ∀ orders, d.expr ≠ .rowNumber orders := by
    intro d hd
    rcases List.mem_append.mp hd with hd | hd
    · exact G.nullTest.unnumbered d hd
    · exact unnumbered d hd
  have rows := select_byMember groups.stored groups.complete mapped typed apart G.owner G.rel G.stored σ
  rw [← groups.key] at rows
  refine rows.trans (mapM_congr fun v hv => ?_)
  rw [rowOf_append, show G.keys.columns = G.key.keyDecl G.rel :: G.marks from rfl,
    G.nullTest.rowOf_key (groups.scalar_key σ hv)]
  rfl

variable (known : ∀ d ∈ columns, G.Column totals n d) (fits : ∀ t ∈ totals, t.Fits e p) (fresh : G.owner.id < n)
include hv known fits fresh

/-- A total is what the select that groups computes for it. -/
theorem Over.scalar_asked {d : ColumnDecl Expr} (hd : d ∈ columns) {i : Nat} {a : Expr} {fallback : Select Expr}
    (asks : d.expr = .groupAggregate i G.owner a fallback) :
    scalar tables d.expr (G.atKey v σ) = scalar tables a (G.inGroup m base v σ) := by
  rcases known d hd with key | ⟨t, j, ht, total⟩
  · cases key.symm.trans asks
  have fits := fits t (List.mem_of_getElem? ht)
  obtain ⟨-, -, rfl, -⟩ := Expr.groupAggregate.inj (total.symm.trans asks)
  rw [total, scalar_inGroup fits, groups.scalar_total hv fits (Nat.lt_add_right _ fresh)]

variable (sound : (G.sheet columns fields rel).Sound)
include sound

/-- Where a report has a row, the aggregates of the group have values. -/
theorem Over.exists_row {row : Row} (h : rowOf tables columns (G.atKey v σ) = .ok row) :
    ∃ more, rowOf tables (G.sheet columns fields rel).added (G.inGroup m base v σ) = .ok more := by
  refine exists_mapM fun d hd => ?_
  obtain ⟨d', hd', i, fallback, asks⟩ := sound.asked_of_added hd
  obtain ⟨w, hw, -⟩ := (rowOf_spec h).2 d' hd'
  rw [groups.scalar_asked hv σ known fits fresh hd' asks] at hw
  exact ⟨(d.name, w), by rw [hw]; rfl⟩

variable {more : Row}
  (added : rowOf tables (G.sheet columns fields rel).added (G.inGroup m base v σ) = .ok more)
include added

omit groups hv known fits fresh sound in
/-- The row of a group has one value under each name. -/
theorem nodup_row : ((G.key.keyRow G.marks v ++ more).map (·.1)).Nodup := by
  have keyed : (G.key.keyRow G.marks v).map (·.1) = G.keys.columns.map (·.name) := by
    simp [Slot.keyRow, Slot.keyDecl, keys, grouped, Select.byKey, Select.plain]
  rw [List.map_append, keyed, (rowOf_spec added).1, ← List.map_append]
  exact GroupColumns.nodup_placements G.nullTest.nodup _

/-- What a column of a report computes, it reads from the row of the group. -/
theorem Over.scalar_reread {d : ColumnDecl Expr} (hd : d ∈ columns) :
    scalar tables (d.expr.reread (G.sheet columns fields rel).placed)
        (σ.bind G.owner (G.key.keyRow G.marks v ++ more))
      = scalar tables d.expr (G.atKey v σ) := by
  have inSight : ∀ row, (σ.bind G.owner row).rows.lookup G.owner = some (some row) := by
    simp [Scope.bind, Scope.extend]
  rcases sound.asked d hd with ⟨c, key⟩ | ⟨i, a, fallback, asks, -⟩
  -- the key is still found under its name, since the totals come after it
  · obtain rfl : c = G.key.ref G.owner := by
      rcases known d hd with eq | ⟨t, j, -, eq⟩
      · exact Expr.column.inj (key.symm.trans eq)
      · cases key.symm.trans eq
    have long : (G.key.keyRow G.marks v ++ more).get? G.key.column = some v := by simp [Slot.keyRow, Row.get?]
    have short : (G.key.keyRow G.marks v).get? G.key.column = some v := by simp [Slot.keyRow, Row.get?]
    rw [key, Expr.reread_column, Slot.ref, scalar_found (inSight _) long, scalar_found (inSight _) short]
  · obtain ⟨d', hd', rfl, lookup⟩ := sound.exists_added hd asks
    obtain ⟨w, hw, mem⟩ := (rowOf_spec added).2 d' hd'
    have found : Row.get? (G.key.keyRow G.marks v ++ more) d'.name = some w :=
      Row.get?_of_mem (nodup_row σ added) (List.mem_append_right _ mem)
    rw [groups.scalar_asked hv σ known fits fresh hd asks, hw, asks, Expr.reread_groupAggregate lookup]
    exact scalar_found (inSight _) found _

/-- The row of a report, with the totals read from the row of the group. -/
theorem Over.rowOf_reread : rowOf tables (G.sheet columns fields rel).settled.columns
      (σ.bind G.owner (G.key.keyRow G.marks v ++ more)) = rowOf tables columns (G.atKey v σ) := by
  rw [rowOf, GroupReport.settled, List.mapM_map]
  refine mapM_congr fun d hd => ?_
  rw [Function.comp_apply, ColumnDecl.reread, groups.scalar_reread hv σ known fits fresh sound added hd]

end Groups

/-- The columns of a report aggregate nothing themselves, and number no rows. -/
theorem unaggregated (known : ∀ d ∈ columns, G.Column totals n d) :
    (∀ d ∈ columns, (Part.expr d.expr).aggregates = false)
      ∧ ∀ d ∈ columns, ∀ orders, d.expr ≠ .rowNumber orders := by
  refine ⟨fun d hd => ?_, fun d hd => ?_⟩ <;> rcases known d hd with eq | ⟨t, i, -, eq⟩ <;> rw [eq]
  · rw [Part.aggregates_eq]
    rfl
  · rw [Part.aggregates_eq]
    rfl
  · simp
  · simp [total]

section Settled

variable (known : ∀ d ∈ columns, G.Column totals n d) (sound : (G.sheet columns fields rel).Sound)
include known sound

/-- The columns that the select that groups gets are totals of its rows. -/
theorem added_total {d : ColumnDecl Expr} (hd : d ∈ (G.sheet columns fields rel).added) :
    ∃ t : Total, d.expr = .aggregateOf t.kind (t.slot e.seen) G.rel := by
  obtain ⟨d', hd', i, fallback, asks⟩ := sound.asked_of_added hd
  rcases known d' hd' with eq | ⟨t, j, -, eq⟩
  · cases eq.symm.trans asks
  · exact ⟨t, (Expr.groupAggregate.inj (eq.symm.trans asks)).2.2.1.symm⟩

/-- A report has the same rows when its totals are read from the rows of the groups. -/
theorem Over.select_settled (groups : G.Over m base tables) (fits : ∀ t ∈ totals, t.Fits e p)
    (fresh : G.owner.id < n) (σ : Scope) :
    Alike (select tables (G.sheet columns fields rel).settled.outer σ)
      (select tables (G.sheet columns fields rel).outer σ) := by
  obtain ⟨name, mapped⟩ := groups.mapped
  obtain ⟨t, typed⟩ := groups.typed
  have bare := unaggregated known
  have keys : select tables G.keys σ = .ok ((m.keys base).map (G.key.keyRow G.marks)) := by
    have nullTest := G.nullTest
    simp only [Grouping.keys, groups.key] at nullTest ⊢
    exact select_grouped groups.stored groups.complete mapped typed nullTest
  have wider := groups.select_keys σ (G.sheet columns fields rel).added fun d hd => by
    obtain ⟨t, eq⟩ := added_total known sound hd
    simp [eq, Expr.aggregateOf]
  have rows : select tables (G.sheet columns fields rel).outer σ
      = (m.keys base).mapM fun v => rowOf tables columns (G.atKey v σ) := by
    refine (Select.select_over bare.1 bare.2).trans ?_
    rw [show (G.sheet columns fields rel).keys = G.keys from rfl, keys, ok_bind, List.mapM_map]
    rfl
  have rereads : select tables (G.sheet columns fields rel).settled.outer σ
      = ((m.keys base).mapM fun v => do
          return G.key.keyRow G.marks v ++ (← rowOf tables (G.sheet columns fields rel).added
            (G.inGroup m base v σ))) >>= fun rows => rows.mapM fun row =>
          rowOf tables (G.sheet columns fields rel).settled.columns (σ.bind G.owner row) := by
    refine (Select.select_over (fun d hd => ?_) fun d hd => ?_).trans (congrArg (· >>= _) wider)
    · obtain ⟨c, eq⟩ := sound.settled_column hd
      rw [eq, Part.aggregates_eq]
      rfl
    · obtain ⟨c, eq⟩ := sound.settled_column hd
      simp [eq]
  rw [rows, rereads]
  -- the wider select computes nothing that the report does not ask for, so it fails only where that does
  refine Alike.mapM_through (fun v hv row hrow => ?_) fun v hv row hrow => ?_
  · obtain ⟨more, hmore⟩ := groups.exists_row hv σ known fits fresh sound hrow
    exact ⟨_, by rw [hmore]; rfl⟩
  · obtain ⟨more, hmore, eq⟩ := bind_eq_ok.mp hrow
    obtain rfl := Except.ok.inj eq
    exact groups.rowOf_reread hv σ known fits fresh sound hmore

/-- Without such a table there are no rows on either side. -/
theorem settled_alike (key : G.key = e.slot m) {member : String} (mapped : e.member? member = some m)
    {k : KeyType} (typed : ∀ base, tables.get? e.table = some base → ∀ r ∈ base, k.admits (m.value r))
    (fits : ∀ t ∈ totals, t.Fits e p) (fresh : G.owner.id < n) (σ : Scope) :
    Alike (select tables (G.sheet columns fields rel).settled.outer σ)
      (select tables (G.sheet columns fields rel).outer σ) := by
  by_cases groups : ∃ base, G.Over m base tables
  · obtain ⟨base, groups⟩ := groups
    exact groups.select_settled known sound fits fresh σ
  · have fails : ∀ {s keys : Select Expr} {rows : List Row}, s.source = some (.select keys) →
        keys.source = some (.select (e.rows G.rel G.stored).select) → select tables s σ ≠ .ok rows := by
      intro s keys rows reads below hrows
      obtain ⟨_, hkeys⟩ := Select.exists_source reads hrows
      obtain ⟨_, hbase⟩ := Select.exists_source below hkeys
      obtain ⟨base, stored, complete, -⟩ := select_rows.mp hbase
      exact groups ⟨base, key, ⟨member, mapped⟩, stored, complete, k, typed base stored⟩
    exact Alike.of_fails (fun _ => fails rfl rfl) fun _ => fails rfl rfl

end Settled

end Mapping.Entity.Grouping

def Part.Subqueryless : Part → Prop
  | .expr (.scalar _) | .expr (.existsIn _) | .expr (.inSelect ..) | .expr (.groupAggregate ..) => False
  | _ => True

theorem Part.Subqueryless.of_tabular {D R : Alias → Prop} {p : Part} (h : p.Tabular D R) : p.Subqueryless := by
  cases p with
  | expr e => cases e <;> first | exact h.elim | trivial
  | _ => trivial

theorem Mapping.Entity.Grouping.settled_subqueryless {e : Entity} {G : e.Grouping} {totals : List Total} {n : Nat}
    {columns : List (ColumnDecl Expr)} (known : ∀ d ∈ columns, G.Column totals n d)
    {fields : List (Field Expr)} (read : ∀ f ∈ fields, ∃ c, f.expr = .column c) {rel : Alias}
    (sound : (G.sheet columns fields rel).Sound) :
    (Part.expr (G.sheet columns fields rel).settled.tree).Every Part.Subqueryless := by
  have keys : (Part.select (G.sheet columns fields rel).settled.keys).Every Part.Subqueryless := by
    refine .node trivial fun q hq => ?_
    have parts : (Part.select (G.sheet columns fields rel).settled.keys).parts = (Part.select G.keys).parts
        ++ (G.sheet columns fields rel).added.map fun d => .expr d.expr := by
      simp [Part.parts, Select.exprs, GroupReport.settled, sheet]
    rcases List.mem_append.mp (parts ▸ hq) with hq | hq
    · exact (G.every_keys q hq).mono fun _ => Part.Subqueryless.of_tabular
    · obtain ⟨d, hd, rfl⟩ := List.mem_map.mp hq
      obtain ⟨t, eq⟩ := added_total known sound hd
      have total : (Part.expr (.aggregateOf t.kind (t.slot e.seen) G.rel)).Every
          (Part.Tabular (fun _ => True) fun _ => True) := every_aggregateOf _ _ trivial
      rw [eq]
      exact total.mono fun _ => Part.Subqueryless.of_tabular
  have outer : (Part.select (G.sheet columns fields rel).settled.outer).Every Part.Subqueryless := by
    refine Part.every_over trivial trivial keys fun d hd => ?_
    obtain ⟨c, eq⟩ := sound.settled_column hd
    rw [eq]
    exact Part.every_column trivial
  refine .node trivial fun q hq => ?_
  obtain rfl := List.mem_singleton.mp hq
  refine .node trivial fun q hq => ?_
  simp only [Part.parts, List.mem_cons, List.not_mem_nil, or_false] at hq
  rcases hq with rfl | rfl
  · exact outer
  · exact every_fields read trivial fun _ => trivial

/-- Objects are the same when they are read from the same rows. -/
theorem Eval.execute_congr {tables : Tables} {p p' : Projection Expr} (rel : p.select.rel = p'.select.rel)
    (projector : p.projector = p'.projector) (pick : p.pick = p'.pick)
    (selects : Alike (select tables p.select .root) (select tables p'.select .root)) :
    Alike ((Expr.projection p).execute tables) ((Expr.projection p').execute tables) := by
  have runs : Alike.Runs (client tables (.projection p) .root) (client tables (.projection p') .root) := by
    rw [client, client, project_eq, project_eq, rel, projector, pick]
    exact (Alike.Runs.lift selects).bind fun _ _ => .refl _
  exact (runs []).bind fun _ => .refl _

/-- A report of keys and totals answers the same, or fails likewise, when the totals of the groups become
columns of the select that groups; and then no value is computed by a subquery. -/
theorem Expr.groupTotals_withGroupColumns {ctx : Context} {name member : String} {e : Mapping.Entity}
    {m : Mapping.Member} (resolved : ctx.mapping.resolve name = .ok e)
    (mapped : e.member? member = some m) (x : Param) (xs : List Param) {p : Param} (ps : List Param)
    (keyName : String) {totals : List Total} (fits : ∀ t ∈ totals, t.Fits e p) {tables : Tables} {k : KeyType}
    (typed : ∀ base, tables.get? e.table = some base → ∀ r ∈ base, k.admits (m.value r)) (supply : Supply) :
    ∃ bound after, ((groupTotals name x xs member p ps keyName totals).bind ctx).run supply = .ok (bound, after)
      ∧ (bound.withGroupColumns.execute tables).toOption = (bound.execute tables).toOption
      ∧ (Part.expr bound.withGroupColumns).Every Part.Subqueryless := by
  obtain ⟨G, n, rel, after, key, fresh, run⟩ := bind_groupTotals resolved mapped x xs ps keyName fits supply
  obtain ⟨columns, fields, report, known, read⟩ := G.report_eq ctx.affinity rel keyName totals n
  have sound := Mapping.Entity.Grouping.sheet_sound known read rel
  refine ⟨(G.sheet columns fields rel).tree, after, report ▸ run, ?_⟩
  rw [sound.withGroupColumns_eq]
  exact ⟨Eval.execute_congr rfl rfl rfl
      (Mapping.Entity.Grouping.settled_alike known sound key mapped typed fits fresh .root),
    Mapping.Entity.Grouping.settled_subqueryless known read sound⟩

/-- The customers by city, with their number and the last of their names. -/
theorem Sample.cities_in_numbers : ∃ bound after,
    ((Expr.groupTotals "Customer" ⟨0⟩ [] "City" ⟨1⟩ [] "City"
        [⟨"Customers", .count, none⟩, ⟨"Last", .max, some (⟨2⟩, "CompanyName")⟩]).bind
      (context .ansi .server)).run ⟨1⟩ = .ok (bound, after)
    ∧ (bound.withGroupColumns.execute Sample.tables).toOption = (bound.execute Sample.tables).toOption
    ∧ (Part.expr bound.withGroupColumns).Every Part.Subqueryless := by
  have resolved : (context .ansi .server).mapping.resolve "Customer" = .ok customer := rfl
  have mapped : customer.member? "City" = some (member "City" .text) := rfl
  have fits : ∀ t ∈ [(⟨"Customers", .count, none⟩ : Total), ⟨"Last", .max, some (⟨2⟩, "CompanyName")⟩],
      t.Fits customer ⟨1⟩ := by decide
  have typed : ∀ base, Sample.tables.get? customer.table = some base →
      ∀ r ∈ base, KeyType.text.admits ((member "City" .text).value r) := by
    intro base stored
    obtain rfl : customers = base := Option.some.inj stored
    decide
  exact Expr.groupTotals_withGroupColumns resolved mapped ⟨0⟩ [] [] "City" fits typed ⟨1⟩

end ObjectQuery
