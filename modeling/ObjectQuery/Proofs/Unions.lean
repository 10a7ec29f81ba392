import ObjectQuery.Bind.Sets
import ObjectQuery.Proofs.Layering
import ObjectQuery.Proofs.Narrowing
import ObjectQuery.Sample
import Mathlib.Data.List.Zip

/-!
Unions of sequences. Both operands are split into columns, and the elements of the union are read
through what is left of the left one. Where this is what is left of the right operand as well, a union
of all rows has the elements of the left operand and then those of the right one.
-/

namespace ObjectQuery

open Eval

variable {tables : Tables} {old new : Alias} {name : String → Option String}

def readAs (old new : Alias) (name : String → Option String) (c : Column) : Option Expr :=
  if c.rel = old then (name c.name).map fun n => .column ⟨new, n, c.type⟩ else none

abbrev Aside (old new a : Alias) : Prop := a ≠ old ∧ a ≠ new

namespace Correspondence

def renamed (old new : Alias) (name : String → Option String) : Correspondence where
  shared := Aside old new
  frame f f' := f = f' ∧ ∀ x ∈ f, Aside old new x.1
  rows r r' := (∃ row row', r.lookup old = some (some row) ∧ r'.lookup new = some (some row')
      ∧ ∀ n n', name n = some n' → row'.get? n' = row.get? n)
    ∧ r'.lookup old = none ∧ ∀ a, Aside old new a → r.lookup a = r'.lookup a
  nil := ⟨rfl, by simp⟩
  single h _ := ⟨rfl, by simpa using h⟩
  append := by
    rintro f _ g _ ⟨rfl, hf⟩ ⟨rfl, hg⟩
    exact ⟨rfl, fun x hx => (List.mem_append.mp hx).elim (hf x) (hg x)⟩
  extend := by
    rintro f _ r r' ⟨rfl, hf⟩ ⟨⟨row, row', hr, hr', names⟩, gone, same⟩
    have fresh : ∀ a, ¬ Aside old new a → ∀ x ∈ f.reverse, x.1 ≠ a := by
      rintro _ ha x hx rfl
      exact ha (hf x (List.mem_reverse.mp hx))
    have old' := fresh old fun h => h.1 rfl
    have new' := fresh new fun h => h.2 rfl
    refine ⟨⟨row, row', ?_, ?_, names⟩, ?_, fun a ha => ?_⟩
    · rw [Split.lookup_append_of_forall old', hr]
    · rw [Split.lookup_append_of_forall new', hr']
    · rw [Split.lookup_append_of_forall old', gone]
    · rw [List.lookup_append, List.lookup_append, same a ha]

theorem renamed_column {c : Column} (apart : c.rel ≠ new) :
    (renamed old new name).ObjectFollows tables (.column c)
      ((Expr.column c).substitute (readAs old new name)) := by
  rw [Expr.substitute, readAs]
  split
  · rename_i rel
    cases hn : name c.name with
    | none =>
      refine .of_column fun σ σ' hr => ?_
      rw [scalar, scalar, Scope.column, Scope.column, rel, hr.2.1]
      exact .error _ _
    | some n =>
      refine .of_column fun σ σ' scopes => ?_
      obtain ⟨⟨row, row', hr, hr', names⟩, -⟩ := scopes
      rw [scalar, scalar, Scope.column, Scope.column, rel, hr, hr']
      simp only [names c.name n hn]
      cases row.get? c.name with
      | none => exact .error _ _
      | some v => exact .refl _
  · rename_i other
    refine .of_column fun σ σ' hr => ?_
    rw [scalar, Scope.column, hr.2.2 c.rel ⟨other, apart⟩]
    rw [scalar, Scope.column]
    exact .refl _

/-- A row of the one select in sight, and one of the other. -/
theorem renamed_bind (apart : old ≠ new) {row row' : Row}
    (names : ∀ n n', name n = some n' → row'.get? n' = row.get? n) :
    (renamed old new name).rows (Scope.root.bind old row).rows (Scope.root.bind new row').rows := by
  simp only [renamed, Scope.bind, Scope.extend, Scope.root, List.reverse_singleton, List.append_nil]
  refine ⟨⟨row, row', by simp, by simp, names⟩, ?_, fun a ha => ?_⟩
  · simp [List.lookup_cons, beq_false_of_ne apart]
  · simp [List.lookup_cons, beq_false_of_ne ha.1, beq_false_of_ne ha.2]

/-- What a renaming makes of a tree follows. -/
theorem renamed_follows (tables : Tables) (name : String → Option String) {p : Part}
    (tame : p.Every (Part.Tame (Aside old new) (· ≠ new)))
    (unjoined : p.Every Part.Unjoined) :
    (∀ e, p = .expr e →
      (renamed old new name).ObjectFollows tables e (e.substitute (readAs old new name)))
    ∧ (∀ s, p = .select s →
      (renamed old new name).SelectFollows tables s (s.substitute (readAs old new name)))
    ∧ ∀ q, p = .projection q →
      (renamed old new name).ProjectionFollows tables q (q.substitute (readAs old new name)) := by
  induction tame with
  | @node p here parts ih =>
    have ih := fun q hq => ih q hq (unjoined.part hq)
    refine ⟨?_, ?_, ?_⟩
    · rintro e rfl
      by_cases column : ∃ c, e = .column c
      · obtain ⟨c, rfl⟩ := column
        exact renamed_column here
      · have noColumn : ∀ c, e ≠ .column c := fun c hc => column ⟨c, hc⟩
        refine .of_shaped here unjoined.here noColumn ((Expr.substitute_shaped _ noColumn).imp ?_ ?_ ?_)
        · rintro c _ hc rfl
          exact (ih _ hc).1 c rfl
        · rintro s _ hs rfl
          exact (ih _ hs).2.1 s rfl
        · rintro q _ hq rfl
          exact (ih _ hq).2.2 q rfl
    · rintro s rfl
      refine .of_shaped (.node here parts) ((Select.substitute_shaped _ s).imp ?_)
      rintro c _ hc rfl
      exact ((ih _ hc).1 c rfl).toExprFollows
    · rintro q rfl
      have shaped := Projection.substitute_shaped (readAs old new name) q
      refine .of_shaped ⟨?_, ?_, shaped.pick⟩
      · rw [← shaped.select]
        exact (ih _ Projection.select_mem).2.1 _ rfl
      · rw [← shaped.projector]
        exact (ih _ Projection.projector_mem).1 _ rfl

end Correspondence

def Row.moved (names : List String) (row : Row) : Row := names.zip row.values

def ColumnDecl.named (columns others : List (ColumnDecl Expr)) : List (ColumnDecl Expr) :=
  (columns.zip others).map fun (c, other) => { c with name := other.name }

theorem rowIn_named (columns others : List (ColumnDecl Expr)) (σ : Scope) (f : Frame) :
    rowIn tables σ (ColumnDecl.named columns others) f
      = (rowIn tables σ columns f).moved (others.map (·.name)) := by
  rw [rowIn, rowIn, Row.moved, Row.values, List.map_map, List.zip_map, ← List.zip_swap,
    ColumnDecl.named, List.map_map, List.map_map]
  rfl

theorem Row.names_moved {names : List String} {row : Row} (h : names.length = row.length) :
    (row.moved names).map (·.1) = names := by
  rw [moved, List.map_fst_zip (by simp [values, h])]

theorem Row.values_moved {names : List String} {row : Row} (h : names.length = row.length) :
    (row.moved names).values = row.values := by
  rw [moved, values, List.map_snd_zip (by simp [values, h])]

/-- What a row holds under one name, it holds under the name in its place when it is moved. -/
theorem Row.get?_moved {old new : List String} (nodup : new.Nodup) {values : List Value} {n n' : String}
    (h : (old.zip new).lookup n = some n') :
    Row.get? (new.zip values) n' = Row.get? (old.zip values) n := by
  induction old generalizing new values with
  | nil => simp at h
  | cons o old ih =>
    cases new with
    | nil => simp at h
    | cons m new =>
      cases values with
      | nil => rfl
      | cons v values =>
        rw [List.nodup_cons] at nodup
        rw [List.zip_cons_cons, List.lookup_cons] at h
        simp only [Row.get?, List.zip_cons_cons, List.lookup_cons] at ih ⊢
        split at h
        · rename_i same
          cases h
          simp
        · rename_i other
          have found : n' ∈ new := by
            obtain ⟨before, after, split, -⟩ := List.lookup_eq_some_iff.mp h
            exact (List.of_mem_zip (show (n, n') ∈ old.zip new by rw [split]; simp)).2
          rw [beq_false_of_ne fun same : n' = m => nodup.1 (same ▸ found)]
          exact ih nodup.2 h

/-- A row is told by its names and what it holds under them. -/
theorem Row.eq_of_names {row : Row} (nodup : (row.map (·.1)).Nodup) :
    (row.map (·.1)).map (fun n => (n, (row.get? n).getD .null)) = row := by
  rw [List.map_map]
  conv_rhs => rw [← List.map_id row]
  refine List.map_congr_left fun x hx => ?_
  simp [Row.get?_of_mem nodup hx]

namespace ColumnDecl

variable {columns others : List (ColumnDecl Expr)}

/-- The columns compute what they computed. -/
theorem forall_named (lengths : columns.length = others.length) (P : Expr → Prop) :
    (∀ d ∈ named columns others, P d.expr) ↔ ∀ d ∈ columns, P d.expr := by
  have exprs : (named columns others).map (fun d => d.expr) = columns.map fun d => d.expr := by
    calc (named columns others).map (fun d => d.expr)
        = ((columns.zip others).map Prod.fst).map fun d => d.expr := by
          rw [named, List.map_map, List.map_map]
          rfl
      _ = columns.map fun d => d.expr := by rw [List.map_fst_zip lengths.le]
  rw [← List.forall_mem_map, exprs, List.forall_mem_map]

theorem names_named (lengths : columns.length = others.length) :
    (named columns others).map (·.name) = others.map (·.name) := by
  calc (named columns others).map (·.name)
      = ((columns.zip others).map Prod.snd).map (·.name) := by
        rw [named, List.map_map, List.map_map]
        rfl
    _ = others.map (·.name) := by rw [List.map_snd_zip lengths.ge]

end ColumnDecl

/-- A row that is read under its own names. -/
theorem rowIn_forwarded {set : Alias} {columns : List (ColumnDecl Expr)} {row : Row}
    (nodup : (columns.map (·.name)).Nodup) (names : row.map (·.1) = columns.map (·.name)) (σ : Scope) :
    rowIn tables σ (columns.map fun c => ColumnDecl.of c.name (.column ⟨set, c.name, c.type⟩))
      [(set, some row)] = row := by
  have value : ∀ c : ColumnDecl Expr, valueIn tables σ (.column ⟨set, c.name, c.type⟩)
      [(set, some row)] = (row.get? c.name).getD .null := by
    intro c
    rw [valueIn, scalar, Scope.column, Scope.extend]
    simp only [List.reverse_singleton, List.singleton_append, List.lookup_cons_self]
    cases row.get? c.name <;> rfl
  have own : (row.map (·.1)).map (fun n => (n, (row.get? n).getD .null)) = row :=
    Row.eq_of_names (names ▸ nodup)
  rw [names, List.map_map] at own
  refine Eq.trans ?_ own
  rw [rowIn, List.map_map]
  exact List.map_congr_left fun c _ => congrArg (Prod.mk c.name) (value c)

namespace Projection

def union (p q : Projection Expr) (kind : SetKind) (set rel : Alias) : Projection Expr where
  select := .plain rel
    (p.select.columns.map fun c => ColumnDecl.of c.name (.column ⟨set, c.name, c.type⟩))
    (some (.setOp set kind p.select
      { q.select with columns := ColumnDecl.named q.select.columns p.select.columns })) none
  projector := p.projector.repoint rel [p.select.rel]
  pick := none

/-- The rows of a union of all rows: those of the left operand, and those of the right one under the
names of the left one. -/
theorem union_rows {p q : Projection Expr} {columns : List (ColumnDecl Expr)} {base : Expr}
    {set rel right : Alias} {σ : Scope} (nodup : p.select.columnNames.Nodup)
    (single : ∀ d ∈ columns, d.Single) (hq : q.select = .plain right columns (some base) none)
    (lengths : columns.length = p.select.columns.length) {rows : List Row}
    (h : Eval.select tables (p.union q .unionAll set rel).select σ = .ok rows) :
    ∃ lefts rights, Eval.select tables p.select σ = .ok lefts
      ∧ Eval.select tables q.select σ = .ok rights
      ∧ rows = lefts ++ rights.map (Row.moved p.select.columnNames) := by
  have forwards : ∀ d ∈ p.select.columns.map
      (fun c => ColumnDecl.of c.name (.column ⟨set, c.name, c.type⟩)), d.Single := by
    intro d hd
    obtain ⟨c, -, rfl⟩ := List.mem_map.mp hd
    exact ⟨by simp [ColumnDecl.of, Part.aggregates_eq, Part.isAggregate, Part.parts],
      by simp [ColumnDecl.of]⟩
  obtain ⟨frames, hframes, -, rfl⟩ := Select.of_plain_rows forwards h
  rw [source] at hframes
  obtain ⟨lefts, hlefts, hframes⟩ := bind_eq_ok.mp hframes
  obtain ⟨moved, hmoved, hframes⟩ := bind_eq_ok.mp hframes
  obtain rfl := Except.ok.inj hframes
  rw [hq] at hmoved
  have single' : ∀ d ∈ ColumnDecl.named columns p.select.columns, d.Single :=
    (ColumnDecl.forall_named lengths fun e =>
      (Part.expr e).aggregates = false ∧ ∀ orders, e ≠ .rowNumber orders).mpr single
  obtain ⟨frames, hbase, computed, rfl⟩ := Select.of_plain_rows single' hmoved
  have computed' : Select.Computed tables columns σ frames := fun f hf =>
    (ColumnDecl.forall_named lengths fun e =>
      scalar tables e (σ.extend f) = .ok (valueIn tables σ e f)).mp (computed f hf)
  refine ⟨lefts, _, hlefts, hq ▸ Select.plain_rows single hbase computed', ?_⟩
  simp only [combine, List.map_append, List.map_map]
  congr 1
  · conv_rhs => rw [← List.map_id lefts]
    exact List.map_congr_left fun row hrow =>
      rowIn_forwarded nodup (names_of_select hlefts row hrow) σ
  · refine List.map_congr_left fun f _ => ?_
    have length : p.select.columnNames.length = (rowIn tables σ columns f).length := by
      simp [Select.columnNames, rowIn, lengths]
    have names : ((rowIn tables σ columns f).moved p.select.columnNames).map (·.1)
        = p.select.columnNames := Row.names_moved length
    simp only [Function.comp_def, rowIn_named]
    change rowIn tables σ _ [(set, some (Row.moved p.select.columnNames
      ((rowIn tables σ columns f).moved p.select.columnNames)))] = _
    rw [Row.moved, Row.values_moved length]
    exact rowIn_forwarded nodup names σ

def Alike (p q : Projection Expr) : Prop :=
  q.projector.substitute (readAs q.select.rel p.select.rel fun n =>
    (q.select.columnNames.zip p.select.columnNames).lookup n) = p.projector

section Elements

variable {p q : Projection Expr} {set rel : Alias}

theorem repoint_eq (e : Expr) (old new : Alias) :
    e.repoint new [old] = e.substitute (readAs old new some) := by
  rw [Expr.repoint]
  congr 1
  funext c
  by_cases h : c.rel = old <;> simp [readAs, h]

variable (tame : (Part.expr p.projector).Every (Part.Tame (Aside p.select.rel rel) (· ≠ rel)))
  (unjoined : (Part.expr p.projector).Every Part.Unjoined) (apart : p.select.rel ≠ rel)
include tame unjoined apart

/-- The elements of the left operand. -/
theorem union_left (q : Projection Expr) (kind : SetKind) (row : Row) :
    FollowsRun (client tables p.projector (Scope.root.bind p.select.rel row))
      (client tables (p.union q kind set rel).projector (Scope.root.bind rel row)) := by
  rw [union, repoint_eq]
  have follows := (Correspondence.renamed_follows tables some tame unjoined).1 _ rfl
  exact follows.objects _ _ (Correspondence.renamed_bind apart fun n n' h => by
    rw [Option.some.inj h])

/-- The elements of the right operand. -/
theorem union_right (nodup : p.select.columnNames.Nodup)
    (tame' : (Part.expr q.projector).Every
      (Part.Tame (Aside q.select.rel p.select.rel) (· ≠ p.select.rel)))
    (unjoined' : (Part.expr q.projector).Every Part.Unjoined)
    (apart' : q.select.rel ≠ p.select.rel) (alike : p.Alike q) (kind : SetKind) {row : Row}
    (names : row.map (·.1) = q.select.columnNames) :
    FollowsRun (client tables q.projector (Scope.root.bind q.select.rel row))
      (client tables (p.union q kind set rel).projector
        (Scope.root.bind rel (row.moved p.select.columnNames))) := by
  refine FollowsRun.trans ?_ (union_left tame unjoined apart q kind _)
  have follows := (Correspondence.renamed_follows tables
    (fun n => (q.select.columnNames.zip p.select.columnNames).lookup n) tame' unjoined').1 _ rfl
  rw [alike] at follows
  refine follows.objects _ _ (Correspondence.renamed_bind apart' fun n n' h => ?_)
  have whole : q.select.columnNames.zip row.values = row := by
    rw [← names, Row.values, List.zip_map']
    exact List.map_id _
  rw [Row.moved, Row.get?_moved nodup h, whole]

/-- The elements of a union of all rows are those of the left operand, and then those of the right
one. -/
theorem union_elements (tables : Tables) (set : Alias) {columns : List (ColumnDecl Expr)}
    {base : Expr} {right : Alias}
    (nodup : p.select.columnNames.Nodup) (single : ∀ d ∈ columns, d.Single)
    (hq : q.select = .plain right columns (some base) none)
    (lengths : columns.length = p.select.columns.length)
    (tame' : (Part.expr q.projector).Every
      (Part.Tame (Aside q.select.rel p.select.rel) (· ≠ p.select.rel)))
    (unjoined' : (Part.expr q.projector).Every Part.Unjoined)
    (apart' : q.select.rel ≠ p.select.rel) (alike : p.Alike q) :
    FollowsRun (do return (← elements tables p .root) ++ (← elements tables q .root))
      (elements tables (p.union q .unionAll set rel) .root) := by
  intro s r hr
  obtain ⟨rows, hrows, hr⟩ := elements_run.mp hr
  obtain ⟨lefts, rights, hlefts, hrights, rfl⟩ := union_rows nodup single hq lengths hrows
  rw [List.mapM_append, StateT.run_bind] at hr
  obtain ⟨⟨xs, s₁⟩, hxs, hr⟩ := bind_eq_ok.mp hr
  rw [StateT.run_bind] at hr
  obtain ⟨⟨ys, s₂⟩, hys, hr⟩ := bind_eq_ok.mp hr
  have left : FollowsRun
      (lefts.mapM fun row => client tables p.projector (Scope.root.bind p.select.rel row))
      (lefts.mapM fun row => client tables (p.union q .unionAll set rel).projector
        (Scope.root.bind rel row)) := by
    refine FollowsRun.mapM (List.forall₂_same.mpr fun _ _ => rfl) ?_
    rintro row _ rfl
    exact union_left tame unjoined apart q .unionAll row
  have right : FollowsRun
      (rights.mapM fun row => client tables q.projector (Scope.root.bind q.select.rel row))
      ((rights.map (Row.moved p.select.columnNames)).mapM fun row =>
        client tables (p.union q .unionAll set rel).projector (Scope.root.bind rel row)) := by
    have named : List.Forall₂ (fun row row' => row.map (·.1) = q.select.columnNames
        ∧ row' = row.moved p.select.columnNames) rights (rights.map (Row.moved p.select.columnNames)) :=
      List.forall₂_map_right_iff.mpr (List.forall₂_same.mpr fun row hrow =>
        ⟨names_of_select hrights row hrow, rfl⟩)
    refine FollowsRun.mapM named ?_
    rintro row _ ⟨names, rfl⟩
    exact union_right tame unjoined apart nodup tame' unjoined' apart' alike .unionAll names
  refine ⟨r, ?_, rfl⟩
  rw [StateT.run_bind, elements_run.mpr ⟨lefts, hlefts, (left s).eq_ok hxs⟩, ok_bind, StateT.run_bind,
    elements_run.mpr ⟨rights, hrights, (right s₁).eq_ok hys⟩, ok_bind]
  exact hr

end Elements

end Projection

structure Projection.Ready (p : Projection Expr) (supply : Supply) : Prop where
  all : p.pick = none
  splits : p.projector.Splits (fun a => a ≠ p.select.rel ∧ a.id < supply.next) (·.id < supply.next)

namespace Binding

variable {ctx : Context} {left right : Binding Expr} {s s₁ s₂ s' : BindState} {p q : Projection Expr}
  {u : Expr}

/-- What a set operation is bound to. -/
theorem union_run {kind : SetKind} (hp : (sequence ctx left).run s = .ok (p, s₁))
    (hq : (sequence ctx right).run s₁ = .ok (q, s₂))
    (h : (union ctx kind left right).run s = .ok (u, s')) :
    (q.layered ctx.affinity ⟨s₂.supply.next + 1⟩).select.columns.length
        = (p.layered ctx.affinity ⟨s₂.supply.next⟩).select.columns.length
      ∧ u = .projection ((p.layered ctx.affinity ⟨s₂.supply.next⟩).union
        (q.layered ctx.affinity ⟨s₂.supply.next + 1⟩) kind ⟨s₂.supply.next + 2⟩
        ⟨s₂.supply.next + 3⟩) := by
  rw [union, StateT.run_bind, hp, ok_bind, StateT.run_bind, hq, ok_bind] at h
  have selects : ∀ (p : Projection Expr) (s : BindState),
      (selectOver ctx (.select p.select) [p.select.rel] p.projector).run s
        = .ok (p.layered ctx.affinity ⟨s.supply.next⟩, { s with supply := ⟨s.supply.next + 1⟩ }) :=
    fun _ _ => rfl
  rw [StateT.run_bind, selects, ok_bind, StateT.run_bind, selects, ok_bind] at h
  dsimp only at h
  split at h
  · cases h
  · rename_i lengths
    exact ⟨(not_not.mp lengths).symm, (Prod.mk.inj (Except.ok.inj h)).1.symm⟩

/-- The operands of a set operation have columns of the same names, one by one. -/
theorem union_aligned {kind : SetKind} (h : (union ctx kind left right).run s = .ok (u, s')) :
    ∃ set l r rest, u = .projection rest ∧ rest.select.source = some (.setOp set kind l r)
      ∧ r.columnNames = l.columnNames := by
  have sequences := h
  rw [union, StateT.run_bind] at sequences
  obtain ⟨⟨p, s₁⟩, hp, sequences⟩ := bind_eq_ok.mp sequences
  rw [StateT.run_bind] at sequences
  obtain ⟨⟨q, s₂⟩, hq, -⟩ := bind_eq_ok.mp sequences
  obtain ⟨lengths, rfl⟩ := union_run hp hq h
  exact ⟨_, _, _, _, rfl, rfl, ColumnDecl.names_named lengths⟩

end Binding

namespace Projection.Ready

variable {p : Projection Expr} {supply : Supply} (ready : p.Ready supply) {rel : Alias}
  (fresh : supply.next ≤ rel.id) (affinity : Affinity)

omit ready in
include fresh in
theorem ne_fresh (a : Alias) (h : a.id < supply.next) : a ≠ rel := by
  rintro rfl
  omega

include fresh in
theorem declared_fresh (a : Alias) (h : a ≠ p.select.rel ∧ a.id < supply.next) :
    a ∉ [p.select.rel] ∧ a ≠ rel :=
  ⟨by simpa using h.1, ne_fresh fresh a h.2⟩

include ready fresh

/-- The columns of a layer over the sequence. -/
theorem columns : (∀ d ∈ (p.layered affinity rel).select.columns, d.Single)
    ∧ (p.layered affinity rel).select.columnNames.Nodup :=
  ready.splits.columns affinity (.select p.select) (declared_fresh fresh) (ne_fresh fresh)

/-- What is left of the element leaves a second name alone. -/
theorem rest {other : Alias} (fresh' : supply.next ≤ other.id) (ne : rel ≠ other) :
    (Part.expr (p.layered affinity rel).projector).Every (Part.Tame (Aside rel other) (· ≠ other))
      ∧ (Part.expr (p.layered affinity rel).projector).Every Part.Unjoined := by
  obtain ⟨tame, unjoined⟩ := ready.splits.rest affinity (.select p.select)
    (declared_fresh fresh) (ne_fresh fresh)
  refine ⟨tame.names (fun a ha => ?_) fun c hc => ?_, unjoined⟩
  · have drawn := (tame.declared a ha).2
    exact ⟨ne_fresh fresh a drawn, ne_fresh fresh' a drawn⟩
  · rcases tame.reads c hc with drawn | own
    · exact ne_fresh fresh' _ drawn
    · exact own ▸ ne

theorem follows (tables : Tables) (σ : Scope) :
    FollowsRun (elements tables p σ) (elements tables (p.layered affinity rel) σ) :=
  Projection.layered_follows affinity ready.splits (declared_fresh fresh) (ne_fresh fresh) tables σ

end Projection.Ready

/-- Where what is left of the two elements is the same, a union of all rows answers what its operands
answer, one after the other. -/
theorem Binding.execute_concat {ctx : Context} {left right : Binding Expr} {s s₁ s₂ s' : BindState}
    {p q : Projection Expr} {u : Expr} (hp : (sequence ctx left).run s = .ok (p, s₁))
    (hq : (sequence ctx right).run s₁ = .ok (q, s₂))
    (hu : (union ctx .unionAll left right).run s = .ok (u, s'))
    (ready : p.Ready s₂.supply) (ready' : q.Ready s₂.supply)
    (alike : (p.layered ctx.affinity ⟨s₂.supply.next⟩).Alike
      (q.layered ctx.affinity ⟨s₂.supply.next + 1⟩))
    {tables : Tables} {v : ClientValue} (hv : u.execute tables = .ok v) :
    ∃ xs ys, (Expr.projection p).execute tables = .ok (.list xs)
      ∧ (Expr.projection q).execute tables = .ok (.list ys) ∧ v = .list (xs ++ ys) := by
  obtain ⟨lengths, rfl⟩ := union_run hp hq hu
  obtain ⟨values, joined, run, rfl⟩ := (execute_elements rfl).mp hv
  generalize hn : s₂.supply.next = n at ready ready' alike lengths run
  have first : s₂.supply.next ≤ (Alias.mk n).id := hn.le
  have second : s₂.supply.next ≤ (Alias.mk (n + 1)).id := hn.le.trans (Nat.le_succ n)
  have last : s₂.supply.next ≤ (Alias.mk (n + 3)).id := hn.le.trans (Nat.le_add_right n 3)
  have apart : Alias.mk n ≠ ⟨n + 3⟩ := by simp
  have apart' : Alias.mk (n + 1) ≠ ⟨n⟩ := by simp
  obtain ⟨tame, unjoined⟩ := ready.rest first ctx.affinity last apart
  obtain ⟨tame', unjoined'⟩ := ready'.rest second ctx.affinity first apart'
  have follows := Projection.union_elements tame unjoined apart tables ⟨n + 2⟩
    (ready.columns first ctx.affinity).2 (ready'.columns second ctx.affinity).1 rfl lengths tame'
    unjoined' apart' alike
  have run := (follows []).eq_ok run
  rw [StateT.run_bind] at run
  obtain ⟨⟨xs, s₃⟩, hxs, run⟩ := bind_eq_ok.mp run
  rw [StateT.run_bind] at run
  obtain ⟨⟨ys, s₄⟩, hys, run⟩ := bind_eq_ok.mp run
  obtain ⟨rfl, rfl⟩ := Prod.mk.inj (Except.ok.inj run)
  have hxs := (ready.follows first ctx.affinity tables .root []).eq_ok hxs
  have hys := (ready'.follows second ctx.affinity tables .root s₃).eq_ok hys
  -- The left operand leaves no rows of client joins behind that the right one could use.
  have alone := (elements_lifted ready'.splits.unjoined tables .root).run hys []
  exact ⟨xs, ys, (execute_elements ready.all).mpr ⟨xs, _, hxs, rfl⟩,
    (execute_elements ready'.all).mpr ⟨ys, _, alone, rfl⟩, rfl⟩

namespace Sample

def staffBy (number : String) (table rel : Alias) : Projection Expr where
  select := .plain rel [⟨number, .column ⟨table, number, .int⟩, .int⟩,
      ⟨"Name", .column ⟨table, "Name", .text⟩, .text⟩]
    (some (.table ⟨table, "Employee", "Staff"⟩)) none
  projector := .construct none [⟨"ID", .column ⟨rel, number, .int⟩⟩,
    ⟨"Name", .column ⟨rel, "Name", .text⟩⟩]
  pick := none

theorem staffBy_ready (number : String) {table rel : Alias} {supply : Supply}
    (drawn : rel.id < supply.next) : (staffBy number table rel).Ready supply where
  all := rfl
  splits := by
    refine ⟨?_, ?_, ?_⟩
    · simp [staffBy, Part.every_iff (p := .expr _), Part.parts, Part.Tame, Select.plain, drawn]
    · simp [staffBy, Part.aggregates_eq, Part.isAggregate, Part.parts]
    · simp [staffBy, Part.every_iff (p := .expr _), Part.parts, Part.Unjoined]

def staffThenBosses : Binding Expr :=
  Binding.union (context .ansi .server) .unionAll (pure (.projection (staffBy "ID" ⟨1⟩ ⟨2⟩)))
    (pure (.projection (staffBy "boss_id" ⟨3⟩ ⟨4⟩)))

/-- What is left of both operands is the same under the names of the left one. -/
theorem alike_staff : ((staffBy "ID" ⟨1⟩ ⟨2⟩).layered .server ⟨5⟩).Alike
    ((staffBy "boss_id" ⟨3⟩ ⟨4⟩).layered .server ⟨6⟩) := by
  have ready : (staffBy "ID" ⟨1⟩ ⟨2⟩).Ready ⟨5⟩ := staffBy_ready "ID" (by decide)
  have apart : Alias.mk 5 ≠ ⟨6⟩ := by decide
  obtain ⟨tame, -⟩ := ready.rest le_rfl .server (by decide) apart
  exact Expr.eq_of_same (tame.mono fun _ => Part.Tame.exact) (by decide +kernel)

/-- The union of the two is bound, and answers one after the other. -/
theorem execute_staffThenBosses : ∃ u s xs ys,
    staffThenBosses.run ⟨⟨5⟩, [], [], none, []⟩ = .ok (u, s)
      ∧ (Expr.projection (staffBy "ID" ⟨1⟩ ⟨2⟩)).execute Sample.tables = .ok (.list xs)
      ∧ (Expr.projection (staffBy "boss_id" ⟨3⟩ ⟨4⟩)).execute Sample.tables = .ok (.list ys)
      ∧ u.execute Sample.tables = .ok (.list (xs ++ ys)) := by
  have all : (staffThenBosses.run ⟨⟨5⟩, [], [], none, []⟩).toOption.any (fun r =>
      (r.1.execute Sample.tables).toOption.any fun _ => true) = true := by
    decide +kernel
  obtain ⟨⟨u, s⟩, binds, all⟩ := exists_ok_of_any all
  obtain ⟨v, executes, -⟩ := exists_ok_of_any all
  obtain ⟨xs, ys, hxs, hys, rfl⟩ := Binding.execute_concat rfl rfl binds
    (staffBy_ready "ID" (by decide)) (staffBy_ready "boss_id" (by decide)) alike_staff executes
  exact ⟨u, s, xs, ys, binds, hxs, hys, executes⟩

end Sample

end ObjectQuery
