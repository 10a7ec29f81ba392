import ObjectQuery.Proofs.Splitting
import ObjectQuery.Sample

/-!
A split loses nothing. With every reference to a column of the new select replaced by what the column
computes, what is left of an expression is the expression again. What is left reads none of the
sources, and the columns that were added read nothing else.
-/

namespace ObjectQuery

variable {affinity : Affinity} {sources : List Alias} {nested : Bool} {e : Expr}

def Expr.needs (e : Expr) : List Alias :=
  match e with
  | .groupAggregate _ _ _ fallback => (Part.select fallback).free
  | e =>
    if e.canBeColumn then
      (Part.expr e).parts.attach.flatMap fun
        | ⟨.expr c, _⟩ => c.needs
        | _ => []
    else e.free
termination_by (Part.expr e).weight
decreasing_by exact Part.weight_lt ‹_›

theorem Expr.needs_of_canBeColumn (can : e.canBeColumn = true) {a : Alias} :
    a ∈ e.needs ↔ ∃ c, Part.expr c ∈ (Part.expr e).parts ∧ a ∈ c.needs := by
  have single : ∀ n owner inGroup fallback, e ≠ .groupAggregate n owner inGroup fallback := by
    rintro n owner inGroup fallback rfl
    cases can
  rw [needs.eq_2 e single, if_pos can]
  simp only [List.mem_flatMap, List.mem_attach, true_and, Subtype.exists]
  constructor
  · rintro ⟨q, hq, ha⟩
    cases q with
    | expr c => exact ⟨c, hq, ha⟩
    | select _ | projection _ => cases ha
  · rintro ⟨c, hc, ha⟩
    exact ⟨.expr c, hc, ha⟩

/-- What a node that is no column leaves free, one of its parts does. -/
theorem Part.exists_free {p : Part} (noColumn : ∀ c, p ≠ .expr (.column c)) {a : Alias}
    (h : a ∈ p.free) : ∃ q ∈ p.parts, a ∈ q.free := by
  obtain ⟨⟨c, hc, rfl⟩, outside⟩ := mem_free.mp h
  rcases mem_gather.mp hc with here | ⟨q, hq, under⟩
  · split at here
    · exact absurd rfl (noColumn _)
    · cases here
  · exact ⟨q, hq, mem_free.mpr ⟨⟨c, under, rfl⟩, fun inside => outside (declared_subset hq inside)⟩⟩

/-- Without aggregates of a group, an expression needs all that it leaves free. -/
theorem Expr.free_subset_needs {p : Part} (groupless : p.Every Part.Groupless) :
    ∀ e, p = .expr e → e.free ⊆ e.needs := by
  induction groupless with
  | @node p here parts ih =>
    rintro e rfl a ha
    by_cases can : e.canBeColumn = true
    · obtain ⟨q, hq, under⟩ := Part.exists_free (by rintro c ⟨⟩; cases can) ha
      obtain ⟨c, rfl⟩ := exists_expr_of_canBeColumn can hq
      exact (needs_of_canBeColumn can).mpr ⟨c, hq, ih _ hq c rfl under⟩
    · rw [needs.eq_2 e (by rintro n owner inGroup fallback rfl; exact here), if_neg can]
      exact ha

/-- What becomes a column needs nothing but the sources. -/
theorem Expr.needs_of_nominated (e : Expr)
    (h : (e.nominate affinity sources nested).allowsParent = true) : ∀ a ∈ e.needs, a ∈ sources := by
  intro a ha
  rcases nominate_cases h with ⟨v, rfl⟩ | ⟨c, rfl, inside⟩ | ⟨_, _, _, fallback, rfl, -, free⟩
    | ⟨single, must, -, free⟩ | ⟨can, allowed⟩
  · rw [needs_of_canBeColumn rfl] at ha
    simp [Part.parts] at ha
  · rw [needs.eq_2 (.column c) (by simp), if_neg (by simp [canBeColumn])] at ha
    obtain ⟨⟨c', hc, rfl⟩, -⟩ := Part.mem_free.mp ha
    obtain rfl : c' = c := by
      rw [Part.columnRefs, Part.gather_eq] at hc
      simpa [Part.parts] using hc
    exact inside
  · rw [needs] at ha
    exact free a ha
  · rw [needs.eq_2 e single, if_neg (by cases e <;> simp_all [mustBeColumn, canBeColumn])] at ha
    exact free a ha
  · obtain ⟨c, hc, ha⟩ := (needs_of_canBeColumn can).mp ha
    exact needs_of_nominated c (allowed c hc) a ha
termination_by (Part.expr e).weight
decreasing_by exact Part.weight_lt ‹_›

def declaration? (rel : Alias) (columns : List (ColumnDecl Expr)) (c : Column) : Option Expr :=
  if c.rel = rel then (columns.find? (·.name == c.name)).map (·.expr) else none

def SplitColumns.restored (s : SplitColumns) (rel : Alias) : Expr :=
  s.projector.substitute (declaration? rel s.columns)

namespace Split

variable {split : Split} {columns : List (ColumnDecl Expr)}

structure Restores (split : Split) (columns : List (ColumnDecl Expr)) (p p' : Part) : Prop where
  restored : (columns.map (·.name)).Nodup → p'.substitute (declaration? split.rel columns) = p
  apart : p'.Every fun q => ∀ c, q = .expr (.column c) → c.rel ∉ split.sources

/-- A reference to the column that computes the expression. -/
theorem Restores.of_column (outside : split.rel ∉ split.sources) {d : ColumnDecl Expr}
    (hd : d ∈ columns) (type : ColumnType) :
    split.Restores columns (.expr d.expr) (.expr (.column ⟨split.rel, d.name, type⟩)) where
  restored nodup := by
    rw [Part.substitute, Expr.substitute, declaration?, if_pos rfl, ColumnDecl.find?_name nodup hd]
    rfl
  apart := by
    refine .node ?_ (by simp [Part.parts])
    rintro c ⟨⟩
    exact outside

/-- A node over parts that can be restored. -/
theorem Restores.of_shaped {e' : Expr}
    (shaped : e.Shaped (fun c c' => split.Restores columns (.expr c) (.expr c'))
      (fun s s' => split.Restores columns (.select s) (.select s'))
      (fun p p' => split.Restores columns (.projection p) (.projection p')) e')
    (noCommand : ∀ c, e ≠ .command c)
    (kept : ∀ c, e = .column c → c.rel ≠ split.rel ∧ c.rel ∉ split.sources) :
    split.Restores columns (.expr e) (.expr e') where
  restored nodup := by
    by_cases column : ∃ c, e' = .column c
    · obtain ⟨c, rfl⟩ := column
      cases shaped
      rw [Part.substitute, Expr.substitute, declaration?, if_neg (kept c rfl).1]
      rfl
    · have back := shaped.comp (Expr.substitute_shaped (declaration? split.rel columns)
        fun c hc => column ⟨c, hc⟩)
      rw [Part.substitute, ← Expr.Shaped.eq (back.imp ?_ ?_ ?_) noCommand]
      · rintro c c'' - ⟨c', h, rfl⟩
        exact (Part.expr.inj (h.restored nodup)).symm
      · rintro s s'' - ⟨s', h, rfl⟩
        exact (Part.select.inj (h.restored nodup)).symm
      · rintro p p'' - ⟨p', h, rfl⟩
        exact (Part.projection.inj (h.restored nodup)).symm
  apart := by
    refine .of_matches ?_ shaped.parts (fun _ _ h => h.apart) (fun _ _ h => h.apart)
      fun _ _ h => h.apart
    rintro c ⟨⟩
    cases shaped
    exact (kept c rfl).2

theorem Restores.of_shaped_select {s s' : Select Expr}
    (shaped : s.Shaped (fun c c' => split.Restores columns (.expr c) (.expr c')) s') :
    split.Restores columns (.select s) (.select s') where
  restored nodup := by
    have back := shaped.comp (Select.substitute_shaped (declaration? split.rel columns) s')
    rw [Part.substitute, ← Select.Shaped.eq (back.imp ?_)]
    rintro c c'' - ⟨c', h, rfl⟩
    exact (Part.expr.inj (h.restored nodup)).symm
  apart := .of_matches (by rintro c ⟨⟩) shaped.parts (fun _ _ h => h.apart) (fun _ _ h => h.elim)
    fun _ _ h => h.elim

theorem Restores.of_shaped_projection {p p' : Projection Expr}
    (shaped : p.Shaped (fun c c' => split.Restores columns (.expr c) (.expr c'))
      (fun s s' => split.Restores columns (.select s) (.select s')) p') :
    split.Restores columns (.projection p) (.projection p') where
  restored nodup := by
    obtain ⟨⟨s, hs, select⟩, ⟨c, hc, projector⟩, pick⟩ :=
      shaped.comp (Projection.substitute_shaped (declaration? split.rel columns) p')
    rw [Part.substitute, ← Projection.Shaped.eq ⟨?_, ?_, pick⟩]
    · rw [← select]
      exact (Part.select.inj (hs.restored nodup)).symm
    · rw [← projector]
      exact (Part.expr.inj (hc.restored nodup)).symm
  apart := .of_matches (by rintro c ⟨⟩) shaped.parts (fun _ _ h => h.apart) (fun _ _ h => h.apart)
    fun _ _ h => h.elim

def Local (sources : List Alias) (d : ColumnDecl Expr) : Prop := ∀ a ∈ d.expr.needs, a ∈ sources

/-- What the walk leaves of a tree. -/
theorem walk_restores (split : Split) (outside : split.rel ∉ split.sources) {p : Part}
    (exact : p.Every Part.Exact) (fresh : p.Every fun q => ∀ c, q = .expr (.column c) → c.rel ≠ split.rel) :
    (∀ e nested, p = .expr e → (Yields.ofState State).Makes (growth (Local split.sources))
      (fun s e' => split.Restores s.columns (.expr e) (.expr e')) (split.expr nested e))
    ∧ (∀ s, p = .select s → (Yields.ofState State).Makes (growth (Local split.sources))
      (fun st s' => split.Restores st.columns (.select s) (.select s')) (split.select s))
    ∧ ∀ q nested, p = .projection q → (Yields.ofState State).Makes (growth (Local split.sources))
      (fun s q' => split.Restores s.columns (.projection q) (.projection q'))
      (split.projection nested q) := by
  induction exact with
  | @node p here parts ih =>
    have ih := fun q hq => ih q hq (fresh.part hq)
    refine ⟨?_, ?_, ?_⟩
    · rintro e nested rfl
      rw [expr_eq]
      split
      · rename_i chosen
        refine Yields.Makes.mono (declared_makes split (.node here parts) fun _ =>
          e.needs_of_nominated (allowsParent_of_chosen chosen)) ?_
        rintro s e' ⟨d, hd, rfl, type, rfl⟩
        exact .of_column outside hd type
      · rename_i kept
        refine Yields.Makes.mono (Expr.traverse_makes e (fun c hc => (ih _ hc).1 c _ rfl)
          (fun s hs => (ih _ hs).2.1 s rfl) fun q hq => (ih _ hq).2.2 q _ rfl) fun s e' shaped => ?_
        refine .of_shaped shaped (by rintro c rfl; exact here) ?_
        rintro c rfl
        exact ⟨fresh.here c rfl, fun inside => kept (nominate_column inside)⟩
    · rintro s rfl
      rw [Split.select]
      exact Yields.Makes.mono (Select.traverse_makes s fun e he => (ih _ he).1 e true rfl)
        fun st s' shaped => .of_shaped_select shaped
    · rintro q nested rfl
      rw [Split.projection]
      exact Yields.Makes.mono (Projection.traverse_makes q (fun e he => (ih _ he).1 e nested rfl)
        fun s hs => (ih _ hs).2.1 s rfl) fun st q' shaped => .of_shaped_projection shaped

end Split

/-- What a split of an expression promises. -/
structure SplitColumns.Faithful (s : SplitColumns) (e : Expr) (existing : List (ColumnDecl Expr))
    (rel : Alias) (sources : List Alias) : Prop where
  columns : ∃ added, s.columns = existing ++ added ∧ ∀ d ∈ added,
    (∀ a ∈ d.expr.needs, a ∈ sources)
      ∧ ((Part.expr d.expr).Every Part.Groupless → ∀ a ∈ d.expr.free, a ∈ sources)
  names : (s.columns.map (·.name)).Nodup
  restored : s.restored rel = e
  apart : ∀ c ∈ (Part.expr s.projector).columnRefs, c.rel ∉ sources

/-- An expression without floats, query operators and commands is split without loss. -/
theorem Expr.split_faithful (affinity : Affinity) {e : Expr} {existing : List (ColumnDecl Expr)}
    {rel : Alias} {sources : List Alias} (exact : (Part.expr e).Every Part.Exact)
    (names : (existing.map (·.name)).Nodup) (outside : rel ∉ sources)
    (fresh : ∀ c ∈ (Part.expr e).columnRefs, c.rel ≠ rel) :
    (e.split affinity existing rel sources).Faithful e existing rel sources := by
  have fresh : (Part.expr e).Every fun q => ∀ c, q = .expr (.column c) → c.rel ≠ rel :=
    (Part.every_of_gather _ fresh).mono fun q h c hc => h c (by simp [hc])
  obtain ⟨_, ⟨added, columns, kept, fits⟩, restores⟩ := split_of_makes
    ((Split.walk_restores ⟨affinity, rel, sources⟩ outside exact fresh).1 e false rfl) existing
  refine ⟨⟨added, columns, fun d hd => ⟨fits d hd, fun groupless a ha => ?_⟩⟩, kept names,
    Part.expr.inj (restores.restored (kept names)), ?_⟩
  · exact fits d hd a (Expr.free_subset_needs groupless _ rfl ha)
  · refine Part.Every.of_mem_gather (restores.apart.mono fun q h c hc => ?_)
    split at hc
    · rw [List.mem_singleton.mp hc]
      exact h _ rfl
    · cases hc

namespace Sample

def reportCount : Expr :=
  let count := Expr.aggregate .count none false
  let reports := Select.plain ⟨4⟩ [⟨"c0", count, .int⟩] (some (.table ⟨⟨3⟩, "Employee", "Staff"⟩))
    (some (.equals (.column ⟨⟨3⟩, "boss_id", .int⟩) (.column ⟨⟨1⟩, "ID", .int⟩)))
  .groupAggregate 0 ⟨5⟩ count reports

def employeeCard : Expr :=
  let reports := Select.plain ⟨7⟩ [⟨"Name", .column ⟨⟨6⟩, "Name", .text⟩, .text⟩]
    (some (.table ⟨⟨6⟩, "Employee", "Staff"⟩))
    (some (.equals (.column ⟨⟨6⟩, "boss_id", .int⟩) (.column ⟨⟨1⟩, "ID", .int⟩)))
  .construct none [⟨"Name", .column ⟨⟨1⟩, "Name", .text⟩⟩,
    ⟨"Next", .binary .add (.column ⟨⟨1⟩, "ID", .int⟩) (.int 1)⟩, ⟨"Count", reportCount⟩,
    ⟨"Reports", .projection ⟨reports, .column ⟨⟨7⟩, "Name", .text⟩, none⟩⟩]

def employeeName : List (ColumnDecl Expr) := [⟨"c0", .column ⟨⟨1⟩, "Name", .text⟩, .text⟩]

/-- Three columns are added to the name. -/
theorem split_employeeCard :
    (employeeCard.split .server employeeName ⟨9⟩ [⟨1⟩]).columns.map (·.name) = ["c0", "c1", "c2", "ID"]
    ∧ (employeeCard.split .server employeeName ⟨9⟩ [⟨1⟩]).Faithful employeeCard employeeName ⟨9⟩
      [⟨1⟩] := by
  have exact : (Part.expr employeeCard).Every Part.Exact := by
    simp [employeeCard, reportCount, Part.every_iff (p := .expr _), Part.every_iff (p := .select _),
      Part.every_iff (p := .projection _), Part.parts, Part.Exact, Select.exprs, Select.plain,
      Expr.equals, Expr.int, Value.Exact.int]
  exact ⟨by decide +kernel, Expr.split_faithful .server exact (by decide) (by decide)
    (by decide +kernel)⟩

end Sample

end ObjectQuery
