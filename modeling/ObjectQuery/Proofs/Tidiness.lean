import ObjectQuery.OuterJoin
import ObjectQuery.Proofs.Keeping
import ObjectQuery.Proofs.Splitting
import ObjectQuery.Tree.Traverse

/-!
Tidy trees: no select of theirs has two columns of the same name. The columns of a select stay apart
when an expression is provided under a name that is free, when a shape is split over them and when some
of them are dropped. Replacing columns, taking members, wrapping a select and testing a join keep a
tree tidy.
-/

namespace ObjectQuery

def Part.NamesOnce : Part → Prop
  | .select s => s.columnNames.Nodup
  | _ => True

def Part.Tidy (p : Part) : Prop := p.Every Part.NamesOnce

abbrev Expr.Tidy (e : Expr) : Prop := (Part.expr e).Tidy

abbrev Select.Tidy (s : Select Expr) : Prop := (Part.select s).Tidy

abbrev Projection.Tidy (p : Projection Expr) : Prop := (Part.projection p).Tidy

theorem Select.Shaped.columnNames {Q : Expr → Expr → Prop} {s s' : Select Expr} (h : s.Shaped Q s') :
    s'.columnNames = s.columnNames :=
  (eq_of_forall₂ (List.forall₂_map_left_iff.mpr (List.forall₂_map_right_iff.mpr
    (h.columns.imp fun _ _ h => h.1))) fun _ _ h => h).symm

namespace Part

theorem lasting_namesOnce : Lasting NamesOnce where
  expr _ _ := trivial
  select shaped h := by
    rw [NamesOnce, shaped.columnNames]
    exact h
  projection _ _ := trivial

theorem tidy_iff_selects {p : Part} : p.Tidy ↔ ∀ s ∈ p.selects, s.columnNames.Nodup := by
  refine ⟨fun h => Every.of_mem_gather (h.mono fun q here s hs => ?_), fun h =>
    (every_of_gather p h).mono fun q here => ?_⟩
  · split at hs
    · rw [List.mem_singleton.mp hs]
      exact here
    · cases hs
  · cases q with
    | select s => exact here s (by simp)
    | expr _ | projection _ => trivial

theorem Tidy.part {p q : Part} (h : p.Tidy) (hq : q ∈ p.parts) : q.Tidy := Every.part h hq

theorem tidy_iff_parts {p : Part} : p.Tidy ↔ p.NamesOnce ∧ ∀ q ∈ p.parts, q.Tidy := every_iff

/-- A tree that is tidy is so at every node. -/
theorem Tidy.everywhere {p : Part} (h : p.Tidy) : p.Every Tidy := by
  induction h with
  | node here parts ih => exact .node (.node here parts) ih

end Part

namespace Expr

variable {a b c : Expr}

theorem tidy_iff {e : Expr} : e.Tidy ↔ ∀ q ∈ (Part.expr e).parts, q.Tidy :=
  Part.tidy_iff_parts.trans (and_iff_right trivial)

@[simp] theorem tidy_const (v : Value) : (const v).Tidy := tidy_iff.mpr (by simp [Part.parts])

@[simp] theorem tidy_column (c : Column) : (column c).Tidy := tidy_iff.mpr (by simp [Part.parts])

@[simp] theorem tidy_table (t : Table) : (table t).Tidy := tidy_iff.mpr (by simp [Part.parts])

@[simp] theorem tidy_member {name : String} : (member a name).Tidy ↔ a.Tidy :=
  tidy_iff.trans (by simp [Part.parts])

@[simp] theorem tidy_binary {op : BinaryOp} : (binary op a b).Tidy ↔ a.Tidy ∧ b.Tidy :=
  tidy_iff.trans (by simp [Part.parts])

@[simp] theorem tidy_unary {op : UnaryOp} : (unary op a).Tidy ↔ a.Tidy :=
  tidy_iff.trans (by simp [Part.parts])

@[simp] theorem tidy_isNull : (isNull a).Tidy ↔ a.Tidy := tidy_iff.trans (by simp [Part.parts])

@[simp] theorem tidy_between : (between a b c).Tidy ↔ a.Tidy ∧ b.Tidy ∧ c.Tidy :=
  tidy_iff.trans (by simp [Part.parts])

@[simp] theorem tidy_cond : (cond a b c).Tidy ↔ a.Tidy ∧ b.Tidy ∧ c.Tidy :=
  tidy_iff.trans (by simp [Part.parts])

@[simp] theorem tidy_construct {typeName : Option String} {fields : List (Field Expr)} :
    (construct typeName fields).Tidy ↔ ∀ f ∈ fields, f.expr.Tidy :=
  tidy_iff.trans (by simp [Part.parts])

@[simp] theorem tidy_entity {name : String} : (entity name a).Tidy ↔ a.Tidy :=
  tidy_iff.trans (by simp [Part.parts])

@[simp] theorem tidy_outerJoined : (outerJoined a b).Tidy ↔ a.Tidy ∧ b.Tidy :=
  tidy_iff.trans (by simp [Part.parts])

@[simp] theorem tidy_grouping : (grouping a b).Tidy ↔ a.Tidy ∧ b.Tidy :=
  tidy_iff.trans (by simp [Part.parts])

@[simp] theorem tidy_lambda {params : List Param} : (lambda ⟨params, a⟩).Tidy ↔ a.Tidy :=
  tidy_iff.trans (by simp [Part.parts])

@[simp] theorem tidy_groupAggregate {n : Nat} {owner : Alias} {fallback : Select Expr} :
    (groupAggregate n owner a fallback).Tidy ↔ a.Tidy ∧ fallback.Tidy :=
  tidy_iff.trans (by simp [Part.parts])

@[simp] theorem tidy_command {c : Command Expr} : (command c).Tidy ↔ ∀ e ∈ c.exprs, e.Tidy :=
  tidy_iff.trans (by simp [Part.parts])

@[simp] theorem tidy_rowNumber {orders : List (Order Expr)} :
    (rowNumber orders).Tidy ↔ ∀ o ∈ orders, o.expr.Tidy :=
  tidy_iff.trans (by simp [Part.parts])

@[simp] theorem tidy_select {s : Select Expr} : (select s).Tidy ↔ s.Tidy :=
  tidy_iff.trans (by simp [Part.parts])

@[simp] theorem tidy_scalar {s : Select Expr} : (scalar s).Tidy ↔ s.Tidy :=
  tidy_iff.trans (by simp [Part.parts])

@[simp] theorem tidy_setOp {rel : Alias} {kind : SetKind} {s t : Select Expr} :
    (setOp rel kind s t).Tidy ↔ s.Tidy ∧ t.Tidy :=
  tidy_iff.trans (by simp [Part.parts])

@[simp] theorem tidy_join {kind : JoinKind} {on : Option Expr} :
    (join kind a b on).Tidy ↔ a.Tidy ∧ b.Tidy ∧ ∀ c ∈ on, c.Tidy :=
  tidy_iff.trans (by simp [Part.parts])

@[simp] theorem tidy_projection {p : Projection Expr} : (projection p).Tidy ↔ p.Tidy :=
  tidy_iff.trans (by simp [Part.parts])

@[simp] theorem tidy_clientJoin {p : Projection Expr} {outer inner : List Expr} :
    (clientJoin p outer inner).Tidy ↔ (∀ k ∈ outer, k.Tidy) ∧ p.Tidy ∧ ∀ k ∈ inner, k.Tidy := by
  refine tidy_iff.trans ⟨fun h => ⟨fun k hk => h _ ?_, h _ ?_, fun k hk => h _ ?_⟩, ?_⟩
  · simp [Part.parts, hk]
  · simp [Part.parts]
  · simp [Part.parts, hk]
  · rintro ⟨ho, hp, hi⟩ q hq
    simp only [Part.parts, List.mem_append, List.mem_map, List.mem_cons] at hq
    rcases hq with ⟨k, hk, rfl⟩ | rfl | ⟨k, hk, rfl⟩
    exacts [ho k hk, hp, hi k hk]

theorem tidy_foldl_both {es : List Expr} (ha : a.Tidy) (h : ∀ e ∈ es, e.Tidy) :
    (es.foldl both a).Tidy := by
  induction es generalizing a with
  | nil => exact ha
  | cons e rest ih =>
    exact ih (tidy_binary.mpr ⟨ha, h e (by simp)⟩) fun e he => h e (by simp [he])

theorem tidy_conjoin? {es : List Expr} (h : ∀ e ∈ es, e.Tidy) : ∀ e ∈ conjoin? es, e.Tidy := by
  cases es with
  | nil => simp [conjoin?]
  | cons e rest =>
    rintro _ ⟨⟩
    exact tidy_foldl_both (h e (by simp)) fun e he => h e (by simp [he])

/-- A member of a shape is part of it, or the access itself. -/
theorem tidy_bindMember {e : Expr} (name : String) (h : e.Tidy) : (e.bindMember name).Tidy := by
  fun_induction bindMember name e with
  | case1 => simpa using h
  | case2 _ _ _ _ bound _ ih =>
    rw [bound] at ih
    exact ih (tidy_entity.mp h)
  | case3 _ _ _ ih => exact ih (tidy_entity.mp h)
  | case4 typeName fields =>
    cases found : fieldNamed? name fields with
    | none => simpa using h
    | some e =>
      obtain ⟨f, hf, rfl⟩ := mem_of_fieldNamed? found
      exact tidy_construct.mp h f hf
  | case5 s projector pick ih =>
    have parts := tidy_projection.mp h
    have projector : projector.Tidy := parts.part Projection.projector_mem
    refine tidy_projection.mpr (Part.tidy_iff_parts.mpr ⟨trivial, fun q hq => ?_⟩)
    simp only [Part.parts, List.mem_cons, List.not_mem_nil, or_false] at hq
    rcases hq with rfl | rfl
    · exact parts.part Projection.select_mem
    · exact ih projector
  | case6 => exact tidy_column _
  | case7 _ _ _ ih => exact tidy_outerJoined.mpr ⟨(tidy_outerJoined.mp h).1, ih (tidy_outerJoined.mp h).2⟩
  | case8 _ _ _ ihTrue ihFalse =>
    obtain ⟨test, onTrue, onFalse⟩ := tidy_cond.mp h
    exact tidy_cond.mpr ⟨test, ihTrue onTrue, ihFalse onFalse⟩
  | case9 => exact (tidy_grouping.mp h).1
  | case10 => simpa using h
  | case11 => exact h
  | case12 => simpa using h

end Expr

theorem Projection.tidy_iff {p : Projection Expr} : p.Tidy ↔ p.select.Tidy ∧ p.projector.Tidy :=
  Part.tidy_iff_parts.trans ((and_iff_right trivial).trans (by simp [Part.parts]))

theorem ColumnDecl.nodup_concat {columns : List (ColumnDecl Expr)} {d : ColumnDecl Expr}
    (nodup : (columns.map (·.name)).Nodup) (free : d.name ∉ columns.map (·.name)) :
    ((columns ++ [d]).map (·.name)).Nodup := by
  rw [List.map_append, List.nodup_append]
  refine ⟨nodup, by simp, fun a ha b hb => ?_⟩
  rw [List.map_singleton, List.mem_singleton] at hb
  rintro rfl
  exact free (hb ▸ ha)

structure TidyColumns (columns : List (ColumnDecl Expr)) : Prop where
  nodup : (columns.map (·.name)).Nodup
  exprs : ∀ d ∈ columns, d.expr.Tidy

namespace TidyColumns

variable {columns : List (ColumnDecl Expr)} {e : Expr}

theorem nil : TidyColumns [] := ⟨List.nodup_nil, by simp⟩

theorem sublist {columns' : List (ColumnDecl Expr)} (h : TidyColumns columns)
    (sub : columns'.Sublist columns) : TidyColumns columns' :=
  ⟨h.nodup.sublist (sub.map _), fun d hd => h.exprs d (sub.subset hd)⟩

theorem concat (h : TidyColumns columns) {d : ColumnDecl Expr} (free : d.name ∉ columns.map (·.name))
    (tidy : d.expr.Tidy) : TidyColumns (columns ++ [d]) where
  nodup := ColumnDecl.nodup_concat h.nodup free
  exprs d' hd' := by
    rcases List.mem_append.mp hd' with hd' | hd'
    · exact h.exprs d' hd'
    · rwa [List.mem_singleton.mp hd']

theorem available (h : TidyColumns columns) (base : String) (tidy : e.Tidy) :
    TidyColumns (columns ++ [ColumnDecl.of (Names.available (columns.map (·.name)) base) e]) :=
  h.concat (Names.available_spec (columns.map (·.name)) base).choose_spec.2 tidy

theorem provide (h : TidyColumns columns) (base : String) (tidy : e.Tidy) :
    TidyColumns (ColumnDecl.provide columns base e).2 := by
  rw [ColumnDecl.provide]
  split
  · exact h
  · exact h.available base tidy

/-- Columns that read others under the same names. -/
theorem renamed (h : TidyColumns columns) (f : ColumnDecl Expr → Expr) (tidy : ∀ d ∈ columns, (f d).Tidy) :
    TidyColumns (columns.map fun d => { d with expr := f d }) where
  nodup := by
    rw [List.map_map]
    exact h.nodup
  exprs d hd := by
    obtain ⟨d, hd', rfl⟩ := List.mem_map.mp hd
    exact tidy d hd'

end TidyColumns

structure Select.TidyClauses (s : Select Expr) : Prop where
  columns : TidyColumns s.columns
  source : ∀ e ∈ s.source, e.Tidy
  filter : ∀ e ∈ s.filter, e.Tidy
  orderBy : ∀ o ∈ s.orderBy, o.expr.Tidy
  groupBy : ∀ e ∈ s.groupBy, e.Tidy
  skip : ∀ e ∈ s.skip, e.Tidy
  take : ∀ e ∈ s.take, e.Tidy

namespace Select

variable {s : Select Expr}

theorem tidy_iff : s.Tidy ↔ s.TidyClauses := by
  refine ⟨fun h => ⟨⟨h.here, fun d hd => h.part (columns_mem hd)⟩, fun e he => h.part (source_mem he),
    fun e he => h.part (filter_mem he), fun o ho => h.part (orderBy_mem ho),
    fun e he => h.part (groupBy_mem he), fun e he => h.part (skip_mem he),
    fun e he => h.part (take_mem he)⟩, fun h => .node h.columns.nodup fun q hq => ?_⟩
  obtain ⟨e, he, rfl⟩ := List.mem_map.mp hq
  simp only [exprs, List.append_assoc, List.mem_append, List.mem_map, Option.mem_toList] at he
  rcases he with he | he | ⟨o, ho, rfl⟩ | he | he | he | ⟨d, hd, rfl⟩
  exacts [h.source e he, h.filter e he, h.orderBy o ho, h.groupBy e he, h.skip e he, h.take e he,
    h.columns.exprs d hd]

theorem tidy_plain {rel : Alias} {columns : List (ColumnDecl Expr)} {source filter : Option Expr}
    (hc : TidyColumns columns) (hs : ∀ e ∈ source, e.Tidy) (hf : ∀ e ∈ filter, e.Tidy) :
    (plain rel columns source filter).Tidy :=
  tidy_iff.mpr ⟨hc, hs, hf, by simp [plain], by simp [plain], by simp [plain], by simp [plain]⟩

theorem TidyClauses.tidy (h : s.TidyClauses) : s.Tidy := tidy_iff.mpr h

theorem Tidy.clauses (h : s.Tidy) : s.TidyClauses := tidy_iff.mp h

theorem TidyClauses.wrapped (h : s.TidyClauses) (inner : Alias) : (s.wrapped inner).TidyClauses := by
  have inside : Select.Tidy { s with rel := inner } := tidy_iff.mpr { h with }
  exact tidy_iff.mp (tidy_plain (h.columns.renamed _ fun _ _ => Expr.tidy_column _)
    (by simpa using inside) (by simp))

theorem tidy_joinTest (s : Select Expr) : s.joinTest.Tidy := by
  unfold joinTest
  simp only
  split
  · exact Expr.tidy_column _
  · split
    · exact Expr.tidy_column _
    · exact Expr.tidy_const _

end Select

theorem Projection.Tidy.withJoinTest {p : Projection Expr} (h : p.Tidy) : p.withJoinTest.Tidy := by
  obtain ⟨select, projector⟩ := tidy_iff.mp h
  have clauses := select.clauses
  refine tidy_iff.mpr ⟨Select.TidyClauses.tidy { clauses with columns := ?_ }, ?_⟩
  · exact clauses.columns.provide _ p.select.tidy_joinTest
  · exact Expr.tidy_outerJoined.mpr ⟨Expr.tidy_column _, projector⟩

namespace Part

variable {f : Column → Option Expr} {p : Part}

/-- What holds at every node of a tree, but for its columns, holds of the tree with the columns
replaced if it holds of the replacements. -/
theorem Every.substituted {P R : Part → Prop} (lasting : Lasting R)
    (other : ∀ q, P q → (∀ c, q ≠ .expr (.column c)) → R q)
    (column : ∀ c, P (.expr (.column c)) → (Part.expr ((f c).getD (.column c))).Every R)
    (h : p.Every P) : (p.substitute f).Every R := by
  induction h with
  | @node p here _ ih =>
    cases p with
    | expr e =>
      by_cases isColumn : ∃ c, e = .column c
      · obtain ⟨c, rfl⟩ := isColumn
        rw [substitute, Expr.substitute.eq_1]
        exact column c here
      · have notColumn : ∀ c, e ≠ .column c := fun c hc => isColumn ⟨c, hc⟩
        have shaped := e.substitute_shaped f notColumn
        have here := lasting.expr shaped (other _ here fun c hc => notColumn c (Part.expr.inj hc))
        exact Expr.Shaped.every (shaped.imp (fun c _ hc h => h ▸ ih (.expr c) hc)
          (fun s _ hs h => h ▸ ih (.select s) hs) fun p _ hp h => h ▸ ih (.projection p) hp) here
    | select s =>
      have shaped := s.substitute_shaped f
      exact Select.Shaped.every (shaped.imp fun c _ hc h => h ▸ ih (.expr c) hc)
        (lasting.select shaped (other _ here (by simp)))
    | projection p =>
      have shaped := p.substitute_shaped f
      exact Projection.Shaped.every ⟨shaped.select ▸ ih (.select p.select) Projection.select_mem,
        shaped.projector ▸ ih (.expr p.projector) Projection.projector_mem, shaped.pick⟩
        (lasting.projection shaped (other _ here (by simp)))

theorem Tidy.substituted (h : p.Tidy) (tidy : ∀ c e, f c = some e → e.Tidy) : (p.substitute f).Tidy := by
  refine Every.substituted lasting_namesOnce (fun _ h _ => h) (fun c _ => ?_) h
  cases found : f c with
  | none => exact Expr.tidy_column c
  | some e => exact tidy c e found

/-- Columns of one relation are read from another. -/
theorem Tidy.reread (h : p.Tidy) (rel rel' : Alias) :
    (p.substitute fun c => if c.rel = rel then some (.column { c with rel := rel' }) else none).Tidy := by
  refine h.substituted fun c e found => ?_
  split at found
  · exact Option.some.inj found ▸ Expr.tidy_column _
  · cases found

end Part

namespace Split

/-- A reference to a column that computes the expression, under the name and the type it has. -/
theorem column_read (split : Split) {fits : ColumnDecl Expr → Prop} {e : Expr}
    (new : ∀ name, fits (ColumnDecl.of name e)) :
    (Yields.ofState State).Makes (growth fits) (fun s e' =>
      ∃ d ∈ s.columns, e' = .column ⟨split.rel, d.name, d.type⟩) (split.column e) := by
  intro s
  rcases column_cases split s e with ⟨d, found, run⟩ | ⟨name, next, run, free, -⟩
  · refine ⟨_, _, run, (growth fits).refl s, ?_⟩
    rintro s' ⟨added, grown, -⟩
    exact ⟨d, grown ▸ List.mem_append_left _ (List.mem_of_find?_eq_some found), rfl⟩
  · refine ⟨_, _, run, ⟨[ColumnDecl.of name e], rfl, fun names => ColumnDecl.nodup_concat names free,
      by simpa using new name⟩, ?_⟩
    rintro s' ⟨added, grown, -⟩
    exact ⟨ColumnDecl.of name e, by simp [grown], rfl⟩

variable {N : State → Part → Prop} (split : Split)

def spreading (N : State → Part → Prop) : Growth State :=
  growth fun d => (Part.expr d.expr).Every fun q => ∀ s, N s q

def Leaves (N : State → Part → Prop) (nested : Bool) : Part → Prop
  | .expr e => (Yields.ofState State).Makes (spreading N) (fun s e' => (Part.expr e').Every (N s))
    (split.expr nested e)
  | .select q => (Yields.ofState State).Makes (spreading N) (fun s q' => (Part.select q').Every (N s))
    (split.select q)
  | .projection p => (Yields.ofState State).Makes (spreading N)
    (fun s p' => (Part.projection p').Every (N s)) (split.projection nested p)

/-- What holds at every node, whatever the columns, is left where it also holds of references to the
columns. -/
theorem leaves_every (lasting : ∀ s, Part.Lasting (N s))
    (reads : ∀ s, ∀ d ∈ s.columns, N s (.expr (.column ⟨split.rel, d.name, d.type⟩)))
    {p : Part} (h : p.Every fun q => ∀ s, N s q) (nested : Bool) : split.Leaves N nested p := by
  induction h generalizing nested with
  | @node p here parts ih =>
    cases p with
    | expr e =>
      rw [Leaves, expr_eq]
      split
      · refine (column_read split fun _ => .node here parts).mono ?_
        rintro s _ ⟨d, hd, rfl⟩
        exact .node (reads s d hd) (by simp [Part.parts])
      · exact (Expr.traverse_makes e (fun c hc => ih (.expr c) hc _) (fun q hq => ih (.select q) hq nested)
          fun p hp => ih (.projection p) hp _).mono fun s _ shaped =>
            Expr.Shaped.every shaped ((lasting s).expr shaped (here s))
    | select q =>
      rw [Leaves, Split.select]
      exact (Select.traverse_makes q fun e he => ih (.expr e) he true).mono fun s _ shaped =>
        Select.Shaped.every shaped ((lasting s).select shaped (here s))
    | projection p =>
      rw [Leaves, Split.projection]
      exact (Projection.traverse_makes p (fun e he => ih (.expr e) he nested)
        fun q hq => ih (.select q) hq nested).mono fun s _ shaped =>
          Projection.Shaped.every shaped ((lasting s).projection shaped (here s))

end Split

/-- Splitting a tidy shape over tidy columns. -/
theorem Expr.Tidy.split {e : Expr} (h : e.Tidy) (affinity : Affinity) {existing : List (ColumnDecl Expr)}
    (tidy : TidyColumns existing) (rel : Alias) (sources : List Alias) :
    (e.split affinity existing rel sources).projector.Tidy
      ∧ TidyColumns (e.split affinity existing rel sources).columns := by
  have made := Split.leaves_every (N := fun _ => Part.NamesOnce) ⟨affinity, rel, sources⟩
    (fun _ => Part.lasting_namesOnce) (fun _ _ _ => trivial) (h.mono fun _ h _ => h) false
  obtain ⟨next, ⟨added, grown, names, new⟩, projector⟩ := Expr.split_of_makes made existing
  refine ⟨projector, names tidy.nodup, fun d hd => ?_⟩
  have columns : (e.split affinity existing rel sources).columns = existing ++ added := grown
  rw [columns] at hd
  rcases List.mem_append.mp hd with hd | hd
  · exact tidy.exprs d hd
  · exact (new d hd).mono fun _ h => h ⟨[], 0⟩

def Finish.walker {m : Type → Type} [Monad m] (finish : Finish m) : Walker m :=
  ⟨Expr.bottomUp finish, Select.bottomUp finish, Projection.bottomUp finish⟩

/-- Rewriting from the leaves up makes a tidy tree of one whose nodes have a property that asks nothing
of their parts, if the last step at a node makes a tidy node of one that has it, over tidy parts. -/
theorem Finish.keeps_tidy_of {m : Type → Type} [Monad m] [LawfulMonad m] {σ : Type} {O : Outcomes m σ}
    {I : σ → Prop} {finish : Finish m} {G : Part → Prop} (lasting : Part.Lasting G)
    (names : ∀ p, G p → p.NamesOnce)
    (expr : ∀ e : Expr, G (.expr e) → e.Tidy → O.Keeps I Expr.Tidy (finish.expr e))
    (select : ∀ s : Select Expr, G (.select s) → s.Tidy → O.Keeps I Select.Tidy (finish.select s))
    {p : Part} (h : p.Every G) : finish.walker.Keeps O I Part.NamesOnce p := by
  refine .of_steps (fun p here parts => ?_) h
  cases p with
  | expr e =>
    change O.Keeps I Expr.Tidy (e.bottomUp finish)
    rw [Expr.bottomUp]
    refine (Walker.Keeps.shaped parts).bind fun e' shaped => ?_
    exact expr e' (lasting.expr shaped here) (shaped.every (names _ (lasting.expr shaped here)))
  | select s =>
    change O.Keeps I Select.Tidy (s.bottomUp finish)
    rw [Select.bottomUp]
    refine (Walker.Keeps.shapedSelect parts).bind fun s' shaped => ?_
    exact select s' (lasting.select shaped here) (shaped.every (names _ (lasting.select shaped here)))
  | projection p =>
    change O.Keeps I Projection.Tidy (p.bottomUp finish)
    rw [Projection.bottomUp]
    exact Walker.Keeps.traverseProjection parts Part.lasting_namesOnce (names _ here)

theorem Finish.keeps_tidy {m : Type → Type} [Monad m] [LawfulMonad m] {σ : Type} {O : Outcomes m σ}
    {I : σ → Prop} {finish : Finish m}
    (expr : ∀ e : Expr, e.Tidy → O.Keeps I Expr.Tidy (finish.expr e))
    (select : ∀ s : Select Expr, s.Tidy → O.Keeps I Select.Tidy (finish.select s))
    {p : Part} (h : p.Tidy) : finish.walker.Keeps O I Part.NamesOnce p :=
  keeps_tidy_of Part.lasting_namesOnce (fun _ => id) (fun e _ => expr e) (fun s _ => select s) h

end ObjectQuery
