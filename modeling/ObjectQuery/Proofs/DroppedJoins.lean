import ObjectQuery.Proofs.GroupJoins
import ObjectQuery.Proofs.TrimmedRows
import ObjectQuery.Sample

/-!
Dropping joins that repeat others does not change what a tree answers, where the dropped ones meet one row
at most. The walk drops a join when its parts are done, so that an alias in sight of a part is replaced
by then or never, and a column is read under what stands in for its alias in the end.
-/

namespace ObjectQuery

open Eval

namespace RepeatedJoins

variable {α β : Type} {ps qs : List Part} {t t' final : Replaced} {V : List Alias}

def Replaced.standIn (t : Replaced) (a : Alias) : Alias := (t.lookup a).getD a

def Replaced.Blank (t : Replaced) (a : Alias) : Prop := t.lookup a = none ∧ ∀ x ∈ t, x.2 ≠ a

structure Replaced.Ready (t : Replaced) (ps : List Part) : Prop where
  nodup : (ps.flatMap Part.declared).Nodup
  blank : ∀ a ∈ ps.flatMap Part.declared, t.Blank a

structure Replaced.Until (t t' : Replaced) (ps : List Part) (V : List Alias) (final : Replaced) : Prop where
  declared : ∀ a ∈ ps.flatMap Part.declared, final.lookup a = t'.lookup a
  seen : ∀ a ∈ V, final.lookup a = t.lookup a

theorem Replaced.Until.here (t t' : Replaced) (ps : List Part) : t.Until t' ps [] t' :=
  ⟨fun _ _ => rfl, by simp⟩

/-- A walk through parts replaces aliases that these declare, by such aliases. It leads to what is wanted in
the end. -/
structure Dropping (ps : List Part) (R : Replaced × List Alias → α → Prop) (t : Replaced) (r : α × Replaced) :
    Prop where
  kept : ∀ a ∉ ps.flatMap Part.declared, r.2.lookup a = t.lookup a
  blank : ∀ a ∉ ps.flatMap Part.declared, t.Blank a → r.2.Blank a
  makes : ∀ (final : Replaced) (V : List Alias), t.Until r.2 ps V final → R (final, V) r.1

def Drops (ps : List Part) (R : Replaced × List Alias → α → Prop) (act : StateM Replaced α) : Prop :=
  ∀ t : Replaced, t.Ready ps → Dropping ps R t (act.run t)

theorem Replaced.Ready.append (h : t.Ready (ps ++ qs)) : t.Ready ps ∧ t.Ready qs
    ∧ ∀ a ∈ ps.flatMap Part.declared, a ∉ qs.flatMap Part.declared := by
  have nodup := h.nodup
  have blank := h.blank
  rw [List.flatMap_append] at nodup blank
  obtain ⟨left, right, disjoint⟩ := List.nodup_append.mp nodup
  exact ⟨⟨left, fun a ha => blank a (List.mem_append_left _ ha)⟩,
    ⟨right, fun a ha => blank a (List.mem_append_right _ ha)⟩, fun a ha hq => disjoint a ha a hq rfl⟩

theorem Drops.pure {R : Replaced × List Alias → α → Prop} {a : α} (h : ∀ w, R w a) :
    Drops [] R (Pure.pure a) :=
  fun _ _ => ⟨fun _ _ => rfl, fun _ _ => id, fun _ _ _ => h _⟩

/-- What comes later in a walk sees what was declared before. -/
theorem Drops.bind {R : Replaced × List Alias → α → Prop} {S : α → Replaced × List Alias → β → Prop}
    {R' : Replaced × List Alias → β → Prop} {act : StateM Replaced α} {next : α → StateM Replaced β}
    (first : Drops ps R act) (rest : ∀ a, Drops qs (S a) (next a))
    (both : ∀ final V a b, R (final, V) a →
      (∀ W : List Alias, (∀ x ∈ W, x ∈ V ∨ x ∈ ps.flatMap Part.declared) → S a (final, W) b) →
      R' (final, V) b) :
    Drops (ps ++ qs) R' (act >>= next) := by
  intro t ready
  obtain ⟨left, right, apart⟩ := ready.append
  have one := first t left
  have blank : ∀ a ∈ qs.flatMap Part.declared, (act.run t).2.Blank a := fun a ha =>
    one.blank a (fun h => apart a h ha) (right.blank a ha)
  have two := rest (act.run t).1 (act.run t).2 ⟨right.nodup, blank⟩
  refine ⟨fun a ha => ?_, fun a ha h => ?_, fun final V later => ?_⟩
  · rw [List.flatMap_append, List.mem_append, not_or] at ha
    exact (two.kept a ha.2).trans (one.kept a ha.1)
  · rw [List.flatMap_append, List.mem_append, not_or] at ha
    exact two.blank a ha.2 (one.blank a ha.1 h)
  · have declared := later.declared
    rw [List.flatMap_append] at declared
    -- What the first action declared is as it is in the end when the second one starts.
    have between : ∀ a ∈ ps.flatMap Part.declared, final.lookup a = (act.run t).2.lookup a := fun a ha =>
      (declared a (List.mem_append_left _ ha)).trans (two.kept a (apart a ha))
    have seen : ∀ a ∈ V, final.lookup a = (act.run t).2.lookup a := by
      intro a ha
      by_cases own : a ∈ ps.flatMap Part.declared
      · exact between a own
      · exact (later.seen a ha).trans (one.kept a own).symm
    refine both final V _ _ (one.makes final V ⟨between, later.seen⟩) fun W hW => ?_
    exact two.makes final W ⟨fun a ha => declared a (List.mem_append_right _ ha), fun a ha =>
      (hW a ha).elim (seen a) (between a)⟩

def dropping : Sequence (StateM Replaced) Part (Replaced × List Alias) where
  does ps R act := Drops ps R act
  pure h := .pure h
  bind first rest := Drops.bind first rest fun _ V _ _ ha hb => hb V (fun _ => .inl) ha

/-- What replaces aliases elsewhere makes no difference. -/
theorem Drops.elsewhere {R : Replaced × List Alias → α → Prop} {act : StateM Replaced α}
    (h : Drops ps R act) :
    Drops ps (fun w a => ∀ final : Replaced,
      (∀ x, x ∈ ps.flatMap Part.declared ∨ x ∈ w.2 → final.lookup x = w.1.lookup x) →
      R (final, w.2) a) act := fun t ready =>
  have walked := h t ready
  ⟨walked.kept, walked.blank, fun _ V later final' same => walked.makes final' V
    ⟨fun a ha => (same a (.inl ha)).trans (later.declared a ha),
      fun a ha => (same a (.inr ha)).trans (later.seen a ha)⟩⟩

/-- A last step that leaves everything as it is. -/
theorem Drops.thenSame {R : Replaced × List Alias → α → Prop} {act : StateM Replaced α}
    {next : α → StateM Replaced α} (h : Drops ps R act) (same : ∀ w a, R w a → next a = Pure.pure a) :
    Drops ps R (act >>= next) := by
  intro t ready
  have walked := h t ready
  have last := same _ _ (walked.makes _ [] (.here _ _ _))
  rw [StateT.run_bind]
  change Dropping ps R t ((next (act.run t).1).run (act.run t).2)
  rw [last]
  exact walked

theorem Replaced.Ready.under {p : Part} (h : t.Ready [p]) : t.Ready p.parts
    ∧ (∀ a ∈ p.binds, a ∉ p.parts.flatMap Part.declared) ∧ ∀ a ∈ p.declared, t.Blank a := by
  have nodup := h.nodup
  have blank := h.blank
  rw [List.flatMap_singleton] at nodup blank
  have within := nodup
  rw [p.declared_eq] at within
  obtain ⟨-, under, disjoint⟩ := List.nodup_append.mp within
  refine ⟨⟨under, fun a ha => blank a ?_⟩, fun a ha hp => disjoint a ha a hp rfl, blank⟩
  rw [p.declared_eq]
  exact List.mem_append_right _ ha

structure Replaced.Around (final : Replaced) (V : List Alias) (p : Part) : Prop where
  own : ∀ b ∈ p.binds, final.lookup b = none
  away : ∀ x ∈ V, ∀ b ∈ p.declared, final.lookup x ≠ some b

/-- A walk through the parts of a part. -/
theorem Drops.close {p : Part} {R R' : Replaced × List Alias → α → Prop} {act : StateM Replaced α}
    (walk : Drops p.parts R act) (wanted : ∀ (final : Replaced) (V : List Alias) (a : α),
      final.Around V p → R (final, V) a → R' (final, V) a) : Drops [p] R' act := by
  intro t ready
  obtain ⟨under, apart, blank⟩ := ready.under
  have walked := walk t under
  have inside : ∀ a, a ∉ [p].flatMap Part.declared → a ∉ p.parts.flatMap Part.declared := fun a ha h => ha (by
    rw [List.flatMap_singleton, p.declared_eq]
    exact List.mem_append_right _ h)
  refine ⟨fun a ha => walked.kept a (inside a ha), fun a ha => walked.blank a (inside a ha),
    fun final V later => ?_⟩
  have declared := later.declared
  rw [List.flatMap_singleton] at declared
  refine wanted final V _ ⟨fun b hb => ?_, fun x hx b hb same => ?_⟩
    (walked.makes final V ⟨fun a ha => ?_, later.seen⟩)
  · rw [declared b (p.binds_subset hb), walked.kept b (apart b hb)]
    exact (blank b (p.binds_subset hb)).1
  · exact (blank b hb).2 _ (Partners.mem_of_lookup ((later.seen x hx).symm.trans same)) rfl
  · refine declared a ?_
    rw [p.declared_eq]
    exact List.mem_append_right _ ha

end RepeatedJoins

open RepeatedJoins

/-- A join that another one stands in for meets one row at most. Its condition reads nothing under the other
one's alias, and nothing that is read under it but the row of the join; nothing in the join aggregates. -/
structure RepeatedJoins.Steady (tables : Tables) (final : RepeatedJoins.Replaced) (kind : JoinKind)
    (right : Expr) (on : Option Expr) (a b : Alias) : Prop where
  one : ∀ env f others, met tables kind right on env f = .ok others → others.length ≤ 1
  unread : ∀ e ∈ on, ∀ x ∈ (Part.expr e).references, x ≠ b ∧ (final.lookup x = some b → x = a)
  apart : ∀ q ∈ Part.expr right :: on.toList.map .expr, q.aggregates = false

def Part.Steady (tables : Tables) (final : RepeatedJoins.Replaced) : Part → Prop
  | .expr (.join kind _ right on) => ∀ a b, sourceAlias? right = some a → final.lookup a = some b →
    RepeatedJoins.Steady tables final kind right on a b
  | _ => True

/-- Fewer joins are dropped. -/
theorem Part.Steady.mono {tables : Tables} {final final' : RepeatedJoins.Replaced} {p : Part}
    (h : p.Steady tables final)
    (fewer : ∀ x y, final'.lookup x = some y → final.lookup x = some y) : p.Steady tables final' := by
  unfold Part.Steady at h ⊢
  split
  · intro a b named found
    have steady := h a b named (fewer a b found)
    exact ⟨steady.one, fun e he x hx => ⟨(steady.unread e he x hx).1, fun same =>
      (steady.unread e he x hx).2 (fewer x b same)⟩, steady.apart⟩
  · trivial

structure Part.Given (tables : Tables) (final : RepeatedJoins.Replaced) (V : List Alias) (p : Part) :
    Prop where
  nodes : p.Every fun q => q.Lucid ∧ q.Steady tables final
  sees : p.InScope V
  fresh : p.Fresh V

namespace Part.Given

variable {tables : Tables} {final final' : RepeatedJoins.Replaced} {V W : List Alias} {p q : Part}

theorem view (h : p.Given tables final V) (hv : (W, q) ∈ p.views V) : q.Given tables final W where
  nodes := h.nodes.part ((Part.views_perm V p).mem_iff.mp (List.mem_map_of_mem hv))
  sees := (Part.inScope_iff.mp h.sees).2 _ hv
  fresh := h.fresh.views.2 _ hv

theorem mono (h : p.Given tables final V)
    (fewer : ∀ x y, final'.lookup x = some y → final.lookup x = some y) : p.Given tables final' V :=
  ⟨h.nodes.mono fun _ hq => ⟨hq.1, hq.2.mono fewer⟩, h.sees, h.fresh⟩

theorem away (h : p.Given tables final V) (around : final.Around V p) : p.Away final.standIn V := by
  intro x hx
  refine ⟨h.fresh.apart x hx, fun inside => ?_⟩
  rw [RepeatedJoins.Replaced.standIn] at inside
  cases found : final.lookup x with
  | none => exact h.fresh.apart x hx (by simpa [found] using inside)
  | some b => exact around.away x hx b (by simpa [found] using inside) found

end Part.Given

theorem RepeatedJoins.Replaced.Around.standIn {final : RepeatedJoins.Replaced} {V : List Alias} {p : Part}
    (h : final.Around V p) {b : Alias} (hb : b ∈ p.binds) : final.standIn b = b := by
  rw [RepeatedJoins.Replaced.standIn, h.own b hb]
  rfl

structure Expr.Dropped (tables : Tables) (w : RepeatedJoins.Replaced × List Alias) (e e' : Expr) : Prop where
  declared : (Part.expr e').declared ⊆ (Part.expr e).declared
  named : sourceAlias? e' = sourceAlias? e
  own : ∀ a, sourceAlias? e = some a → w.1.lookup a = none
  trims : (Part.expr e).Given tables w.1 w.2 → e'.Trims tables w.1.standIn w.2 e

structure Select.Dropped (tables : Tables) (w : RepeatedJoins.Replaced × List Alias)
    (s s' : Select Expr) : Prop where
  declared : (Part.select s').declared ⊆ (Part.select s).declared
  rel : s'.rel = s.rel
  own : w.1.lookup s.rel = none
  trims : (Part.select s).Given tables w.1 w.2 → s'.Trims tables w.1.standIn w.2 s

structure Projection.Dropped (tables : Tables) (w : RepeatedJoins.Replaced × List Alias)
    (p p' : Projection Expr) : Prop where
  declared : (Part.projection p').declared ⊆ (Part.projection p).declared
  trims : (Part.projection p).Given tables w.1 w.2 → p'.Trims tables w.1.standIn w.2 p

section Declared

theorem Part.declared_subset_of_parts {p p' : Part} (binds : p'.binds = p.binds)
    (parts : List.Forall₂ (fun q q' => q'.declared ⊆ q.declared) p.parts p'.parts) :
    p'.declared ⊆ p.declared := by
  intro a ha
  rw [Part.declared_eq, List.mem_append, List.mem_flatMap] at ha
  rw [Part.declared_eq, List.mem_append, List.mem_flatMap]
  rw [← binds]
  refine ha.imp id fun ⟨q', hq', inside⟩ => ?_
  obtain ⟨q, hq, sub⟩ := exists_of_forall₂_right parts q' hq'
  exact ⟨q, hq, sub inside⟩

variable {tables : Tables} {w : RepeatedJoins.Replaced × List Alias} {Q : Expr → Expr → Prop}
  {QS : Select Expr → Select Expr → Prop} {QP : Projection Expr → Projection Expr → Prop}

theorem Expr.Shaped.declared_subset {e e' : Expr} (shaped : e.Shaped Q QS QP e')
    (hQ : ∀ c c', Q c c' → (Part.expr c').declared ⊆ (Part.expr c).declared)
    (hQS : ∀ s s', QS s s' → (Part.select s').declared ⊆ (Part.select s).declared)
    (hQP : ∀ p p', QP p p' → (Part.projection p').declared ⊆ (Part.projection p).declared) :
    (Part.expr e').declared ⊆ (Part.expr e).declared := by
  refine Part.declared_subset_of_parts ?_ (shaped.parts.imp fun q q' related => ?_)
  · cases shaped <;> rfl
  · cases related with
    | expr h => exact hQ _ _ h
    | select h => exact hQS _ _ h
    | projection h => exact hQP _ _ h

end Declared

abbrev Expr.DropsTo (tables : Tables) (e : Expr) : Prop :=
  Drops [.expr e] (fun w e' => e.Dropped tables w e') (e.bottomUp ⟨finish, pure⟩)

abbrev Select.DropsTo (tables : Tables) (s : Select Expr) : Prop :=
  Drops [.select s] (fun w s' => s.Dropped tables w s') (s.bottomUp ⟨finish, pure⟩)

abbrev Projection.DropsTo (tables : Tables) (p : Projection Expr) : Prop :=
  Drops [.projection p] (fun w p' => p.Dropped tables w p') (p.bottomUp ⟨finish, pure⟩)

section Walking

variable {tables : Tables} {final : RepeatedJoins.Replaced} {V : List Alias} {e e' : Expr}

/-- A column is read under what stands in for its alias in the end, if this is in sight. -/
theorem Expr.DropsTo.column (c : Column) : (Expr.column c).DropsTo tables := by
  intro t ready
  have run : ((Expr.column c).bottomUp ⟨finish, pure⟩).run t
      = (.column { c with rel := t.standIn c.rel }, t) := by
    rw [Expr.bottomUp]
    change (finish (.column c)).run t = _
    cases found : t.lookup c.rel <;> simp [finish, RepeatedJoins.Replaced.standIn, found] <;> rfl
  have bare : ∀ c : Column, (Part.expr (.column c)).declared = [] := fun c => by
    rw [Part.declared_eq]
    rfl
  rw [run]
  refine ⟨fun _ _ => rfl, fun _ _ => id, fun final V later => ⟨by simp [bare], rfl, ?_, fun given => ?_⟩⟩
  · rintro _ ⟨⟩
  have visible : c.rel ∈ V := (Part.inScope_iff.mp given.sees).1 c rfl
  have same : t.standIn c.rel = final.standIn c.rel := by
    rw [RepeatedJoins.Replaced.standIn, RepeatedJoins.Replaced.standIn, later.seen c.rel visible]
  change Expr.Trims tables final.standIn V (.column { c with rel := t.standIn c.rel }) (.column c)
  rw [same]
  exact .column visible

/-- The last step of the walk changes columns and joins alone. -/
theorem RepeatedJoins.finish_pure {e : Expr} (noColumn : ∀ c, e ≠ .column c)
    (noJoin : ∀ k l r c, e ≠ .join k l r c) : finish e = pure e := by
  cases e with
  | column c => exact absurd rfl (noColumn c)
  | join k l r c => exact absurd rfl (noJoin k l r c)
  | _ => rfl

/-- Nodes that are walked as they stand, with what is asked of the parts. -/
theorem Expr.Dropped.of_shaped (level : e.Level) (around : final.Around V (.expr e))
    (shaped : e.Shaped (Expr.Dropped tables (final, V)) (Select.Dropped tables (final, V))
      (Projection.Dropped tables (final, V)) e') : e.Dropped tables (final, V) e' where
  declared :=
    shaped.declared_subset (fun _ _ h => h.declared) (fun _ _ h => h.declared) fun _ _ h => h.declared
  named := by
    cases shaped with
    | select h => simp [sourceAlias?, h.rel]
    | table _ | setOp _ _ _ _ => exact level.elim
    | _ => rfl
  own a ha := by
    cases shaped with
    | select h =>
      cases ha
      exact h.own
    | table _ | setOp _ _ _ _ => exact level.elim
    | _ => cases ha
  trims given := by
    have view : ∀ q ∈ (Part.expr e).parts, q.Given tables final V := fun q hq =>
      given.view (by simpa [level.views] using hq)
    exact .of_shaped (shaped.imp (fun _ _ hc h => h.trims (view _ hc)) (fun _ _ hs h => h.trims (view _ hs))
      fun _ _ hp h => h.trims (view _ hp)).flip level given.nodes.here.1 (given.away around)

theorem Expr.DropsTo.level (level : e.Level)
    (onExpr : ∀ c, Part.expr c ∈ (Part.expr e).parts → c.DropsTo tables)
    (onSelect : ∀ s, Part.select s ∈ (Part.expr e).parts → s.DropsTo tables)
    (onProjection : ∀ p, Part.projection p ∈ (Part.expr e).parts → p.DropsTo tables) : e.DropsTo tables := by
  have walk := dropping.expr (V := id) e onExpr onSelect onProjection
  rw [List.map_id] at walk
  rw [Expr.DropsTo, Expr.bottomUp]
  refine Drops.close (walk.thenSame fun w e' shaped => ?_) fun final V e' around shaped =>
    .of_shaped level around shaped
  refine finish_pure ?_ ?_
  · rintro c rfl
    cases shaped
    exact level
  · rintro k l r c rfl
    cases shaped
    exact level

theorem Expr.DropsTo.table (t : Table) : (Expr.table t).DropsTo tables := by
  have walk : Drops (Part.expr (.table t)).parts (fun _ e' => e' = .table t)
      ((Expr.table t).bottomUp ⟨finish, pure⟩) := by
    rw [Expr.bottomUp]
    exact .pure fun _ => rfl
  refine Drops.close walk fun final V e' around same => ?_
  subst same
  have own : t.rel ∈ (Part.expr (.table t)).binds := by simp [Part.binds]
  refine ⟨List.Subset.refl _, rfl, ?_, fun given => .table (around.standIn own) (given.away around)⟩
  rintro a ⟨⟩
  exact around.own _ own

theorem Expr.DropsTo.setOp {rel : Alias} {kind : SetKind} {s t : Select Expr} (hs : s.DropsTo tables)
    (ht : t.DropsTo tables) : (Expr.setOp rel kind s t).DropsTo tables := by
  have onExpr : ∀ c, Part.expr c ∈ (Part.expr (.setOp rel kind s t)).parts → c.DropsTo tables := by
    simp [Part.parts]
  have onSelect : ∀ q, Part.select q ∈ (Part.expr (.setOp rel kind s t)).parts → q.DropsTo tables := by
    simpa [Part.parts] using ⟨hs, ht⟩
  have onProjection : ∀ p, Part.projection p ∈ (Part.expr (.setOp rel kind s t)).parts →
      p.DropsTo tables := by
    simp [Part.parts]
  have walk := dropping.expr (V := id) (.setOp rel kind s t) onExpr onSelect onProjection
  rw [List.map_id] at walk
  rw [Expr.DropsTo, Expr.bottomUp]
  refine Drops.close (walk.thenSame fun w e' shaped => ?_) fun final V e' around shaped => ?_
  · cases shaped
    rfl
  · have own : rel ∈ (Part.expr (.setOp rel kind s t)).binds := by simp [Part.binds]
    have declared :=
      shaped.declared_subset (fun _ _ h => h.declared) (fun _ _ h => h.declared) fun _ _ h => h.declared
    cases shaped with
    | setOp _ _ hs ht =>
      refine ⟨declared, rfl, ?_, fun given => .setOp (around.standIn own) (given.away around)
        (hs.trims (given.view (by simp [Part.views, Part.parts])))
        (ht.trims (given.view (by simp [Part.views, Part.parts])))⟩
      rintro a ⟨⟩
      exact around.own _ own

/-- The clauses of a select are walked when its source is done. -/
theorem Select.DropsTo.of_parts {s : Select Expr}
    (parts : ∀ e, Part.expr e ∈ (Part.select s).parts → e.DropsTo tables) : s.DropsTo tables := by
  have split : (Part.select s).parts
      = s.source.toList.map .expr ++ (Part.select { s with source := none }).parts := by
    simp [Part.parts, Select.exprs]
  have clauses : ∀ e, Part.expr e ∈ (Part.select { s with source := none }).parts → e.DropsTo tables :=
    fun e he => parts e (by rw [split]; exact List.mem_append_right _ he)
  have walk := dropping.select (V := id) { s with source := none } clauses
  rw [List.map_id] at walk
  have walked : Drops (Part.select s).parts (fun w s' => ∃ source' rest,
      Option.Rel (Expr.Dropped tables w) s.source source' ∧ { s with source := none }.Shaped
        (Expr.Dropped tables (w.1, s.sourceAliases ++ w.2)) rest ∧ s' = { rest with source := source' })
      (s.traverse fun e _ => e.bottomUp ⟨finish, pure⟩) := by
    rw [Select.traverse_source, split]
    refine Drops.bind (S := fun source' w s' => ∃ rest,
        { s with source := none }.Shaped (Expr.Dropped tables w) rest ∧ s' = { rest with source := source' })
      (dropping.option fun e he => parts e (Select.source_mem he))
      (fun source' => dropping.finish walk fun rest w shaped => ⟨rest, shaped, rfl⟩) ?_
    intro final V source' s' hsource clauses
    obtain ⟨rest, shaped, rfl⟩ := clauses (s.sourceAliases ++ V) fun a ha =>
      (List.mem_append.mp ha).symm.imp id fun own => by
        rw [Select.sourceAliases] at own
        cases given : s.source with
        | none => simp [given] at own
        | some e =>
          rw [given] at own
          simpa using Part.declares_subset_declared e own
    exact ⟨source', rest, hsource, shaped, rfl⟩
  rw [Select.DropsTo, Select.bottomUp, bind_pure]
  refine Drops.close walked ?_
  rintro final V _ around ⟨source', rest, hsource, shaped, rfl⟩
  have own : s.rel ∈ (Part.select s).binds := by simp [Part.binds]
  have rel : rest.rel = s.rel := shaped.rel.symm
  refine ⟨Part.declared_subset_of_parts (by simp [Part.binds, rel]) ?_, rel, around.own _ own,
    fun given => ?_⟩
  · have akin : s.Akin (fun c c' => (Part.expr c').declared ⊆ (Part.expr c).declared)
        { rest with source := source' } :=
      { (shaped.imp fun _ _ _ h => h.declared).akin with
        source := optionRel_imp_mem hsource fun _ _ _ h => h.declared }
    exact List.forall₂_map_left_iff.mpr (List.forall₂_map_right_iff.mpr akin.exprs)
  · have sources : Option.Rel (fun e e' => e'.Trims tables final.standIn V e) s.source source' :=
      optionRel_imp_mem hsource fun e he e' h => h.trims
        (given.view (by simp [Part.views, Option.mem_def.mp he]))
    have clauses : { s with source := none }.Shaped
        (fun c c' => c'.Trims tables final.standIn (s.sourceAliases ++ V) c) rest := by
      refine shaped.imp fun c c' hc h => h.trims (given.view ?_)
      have reader : c ∈ ({ s with source := none } : Select Expr).readers := by
        have within : c ∈ { s with source := none }.exprs := by simpa [Part.parts] using hc
        simpa using (Select.readers_perm { s with source := none }).mem_iff.mpr within
      exact List.mem_append_left _ (List.mem_map_of_mem
        (f := fun e => (s.sourceAliases ++ V, Part.expr e)) reader)
    exact .of_clauses (flip_optionRel sources) { clauses.flip.akin with } rel (around.standIn own)
      (given.away around)

/-- The projector is walked when the select is done. -/
theorem Projection.DropsTo.of_parts {p : Projection Expr} (hs : p.select.DropsTo tables)
    (hprojector : p.projector.DropsTo tables) : p.DropsTo tables := by
  have walk : Drops (Part.projection p).parts (fun w p' => p.select.Dropped tables w p'.select
      ∧ p.projector.Dropped tables (w.1, p.select.rel :: w.2) p'.projector ∧ p.pick = p'.pick)
      (p.bottomUp ⟨finish, pure⟩) := by
    rw [Projection.bottomUp]
    change Drops ([.select p.select] ++ [.expr p.projector]) _ _
    refine Drops.bind (S := fun s' w p' => p'.select = s' ∧ p.projector.Dropped tables w p'.projector
        ∧ p.pick = p'.pick) hs
      (fun s' => dropping.finish hprojector fun _ _ h => ⟨rfl, h, rfl⟩) ?_
    intro final V s' p' hselect rest
    obtain ⟨rfl, projector, pick⟩ := rest (p.select.rel :: V) fun x hx =>
      (List.mem_cons.mp hx).symm.imp id fun own => by
        simp [own, Part.declared_eq (.select p.select), Part.binds]
    exact ⟨hselect, projector, pick⟩
  refine Drops.close walk ?_
  rintro final V p' - ⟨select, projector, pick⟩
  refine ⟨Part.declared_subset_of_parts rfl (.cons select.declared (.cons projector.declared .nil)),
    fun given => ?_⟩
  exact ⟨select.trims (given.view (by simp [Part.views])),
    projector.trims (given.view (by simp [Part.views])), pick.symm⟩

/-- The inner keys of a client join are walked when the projection is done. -/
theorem Expr.DropsTo.clientJoin {p : Projection Expr} {outer inner : List Expr} (hp : p.DropsTo tables)
    (houter : ∀ k ∈ outer, k.DropsTo tables) (hinner : ∀ k ∈ inner, k.DropsTo tables) :
    (Expr.clientJoin p outer inner).DropsTo tables := by
  have walk : Drops (outer.map .expr ++ ([.projection p] ++ inner.map .expr))
      (fun w e' => ∃ p' outer' inner', e' = .clientJoin p' outer' inner' ∧ p.Dropped tables w p'
        ∧ List.Forall₂ (Expr.Dropped tables w) outer outer'
        ∧ List.Forall₂ (Expr.Dropped tables (w.1, p.select.rel :: w.2)) inner inner')
      ((Expr.clientJoin p outer inner).traverse (fun c _ => c.bottomUp ⟨finish, pure⟩)
        (fun c _ => c.bottomUp ⟨finish, pure⟩) fun c _ => c.bottomUp ⟨finish, pure⟩) := by
    refine dropping.bind (dropping.attach houter) fun outer' => ?_
    refine Drops.bind (S := fun p' w e' => ∃ inner', e' = Expr.clientJoin p' outer' inner'
        ∧ List.Forall₂ (Expr.Dropped tables w) inner inner')
      hp (fun p' => dropping.finish (dropping.attach hinner) fun inner' _ h => ⟨inner', rfl, h⟩) ?_
    intro final V p' e' hprojection rest houter
    obtain ⟨inner', rfl, hkeys⟩ := rest (p.select.rel :: V) fun x hx =>
      (List.mem_cons.mp hx).symm.imp id fun own => by
        simp [own, Part.declared_eq (.projection p), Part.declared_eq (.select p.select), Part.parts,
          Part.binds]
    exact ⟨p', outer', inner', rfl, hprojection, houter, hkeys⟩
  have parts : (Part.expr (.clientJoin p outer inner)).parts
      = outer.map .expr ++ ([.projection p] ++ inner.map .expr) := by
    simp [Part.parts]
  rw [← parts] at walk
  rw [Expr.DropsTo, Expr.bottomUp]
  refine Drops.close (walk.thenSame ?_) ?_
  · rintro w _ ⟨p', outer', inner', rfl, -⟩
    rfl
  rintro final V _ around ⟨p', outer', inner', rfl, projection, houter, hinner⟩
  have shaped : (Expr.clientJoin p outer inner).Shaped
      (fun c c' => (Part.expr c').declared ⊆ (Part.expr c).declared)
      (fun s s' => (Part.select s').declared ⊆ (Part.select s).declared)
      (fun p p' => (Part.projection p').declared ⊆ (Part.projection p).declared)
      (.clientJoin p' outer' inner') :=
    .clientJoin projection.declared (houter.imp fun _ _ h => h.declared) (hinner.imp fun _ _ h => h.declared)
  refine ⟨shaped.declared_subset (fun _ _ => id) (fun _ _ => id) fun _ _ => id, rfl, ?_, fun given => ?_⟩
  · rintro _ ⟨⟩
  have keys : ∀ {visible : List Alias} {ks ks' : List Expr},
      List.Forall₂ (Expr.Dropped tables (final, visible)) ks ks' →
      (∀ k ∈ ks, (visible, Part.expr k) ∈ (Part.expr (.clientJoin p outer inner)).views V) →
      List.Forall₂ (Expr.Trims tables final.standIn visible) ks' ks := fun related views =>
    (forall₂_imp_mem related fun k hk _ h => h.trims (given.view (views k hk))).flip
  exact .clientJoin (projection.trims (given.view (by simp [Part.views])))
    (keys houter fun k hk => by simp [Part.views, hk]) (keys hinner fun k hk => by simp [Part.views, hk])
    (given.away around)

namespace RepeatedJoins

theorem lookup_erase (final : Replaced) (a x : Alias) :
    (final.filter (·.1 != a)).lookup x = if x = a then none else final.lookup x := by
  induction final with
  | nil => simp
  | cons entry rest ih =>
    rw [List.filter_cons, List.lookup_cons]
    by_cases same : entry.1 = a
    · rw [if_neg (by simp [same]), ih]
      by_cases here : x = a
      · rw [if_pos here, if_pos here]
      · rw [if_neg here, if_neg here, beq_false_of_ne (same ▸ here)]
    · rw [if_pos (by simpa using same), List.lookup_cons, ih]
      by_cases here : x = entry.1
      · simp [here, same]
      · rw [beq_false_of_ne here]

/-- What is found is a part of the tree. -/
theorem find?_declared {kind : JoinKind} {right r : Expr} {on : Option Expr} : (tree : Expr) →
    find? kind right on tree = some r → (Part.expr r).declared ⊆ (Part.expr tree).declared
  | .join k l r' c, h => by
    have left : (Part.expr l).declared ⊆ (Part.expr (.join k l r' c)).declared :=
      Part.declared_subset (by simp [Part.parts])
    have side : (Part.expr r').declared ⊆ (Part.expr (.join k l r' c)).declared :=
      Part.declared_subset (by simp [Part.parts])
    rw [find?] at h
    split at h
    · cases h
      exact side
    · rcases Option.or_eq_some_iff.mp h with h | ⟨-, h⟩
      · exact List.Subset.trans (find?_declared l h) left
      · exact List.Subset.trans (find?_declared r' h) side
  | .table _, h | .select _, h | .setOp _ _ _ _, h | .const _, h | .param _, h | .member _ _, h
  | .binary _ _ _, h | .unary _ _, h | .cond _ _ _, h | .call _ _, h | .construct _ _, h | .lambda _, h
  | .operator _, h | .column _, h | .aggregate _ _ _, h | .groupAggregate _ _ _ _, h | .scalar _, h
  | .existsIn _, h | .inSelect _ _, h | .inValues _ _, h | .isNull _, h | .between _ _ _, h
  | .rowNumber _, h | .projection _, h | .clientJoin _ _ _, h | .entity _ _, h | .outerJoined _ _, h
  | .grouping _ _, h | .command _, h => by cases h

end RepeatedJoins

structure Expr.JoinDropped (tables : Tables) (w : RepeatedJoins.Replaced × List Alias) (left right : Expr)
    (on : Option Expr) (left' right' : Expr) (on' : Option Expr) : Prop where
  onLeft : ∀ final : RepeatedJoins.Replaced,
    (∀ x, x ∈ (Part.expr left).declared ∨ x ∈ w.2 → final.lookup x = w.1.lookup x) →
    left.Dropped tables (final, w.2) left'
  onRight : ∀ W : List Alias, (∀ x ∈ W, x ∈ w.2 ∨ x ∈ (Part.expr left).declared) →
    right.Dropped tables (w.1, W) right'
  onCondition : Option.Rel (Expr.Dropped tables (w.1, left.declares ++ right.declares ++ w.2)) on on'

section Joins

variable {kind : JoinKind} {left right left' right' : Expr} {on on' : Option Expr}

/-- The right side of a join is walked when the left one is done, and the condition when both are. -/
theorem Expr.drops_joined (hl : left.DropsTo tables) (hr : right.DropsTo tables)
    (hon : ∀ c ∈ on, c.DropsTo tables) :
    Drops (Part.expr (.join kind left right on)).parts (fun w e' => ∃ left' right' on',
        e' = .join kind left' right' on' ∧ JoinDropped tables w left right on left' right' on')
      ((Expr.join kind left right on).traverse (fun c _ => c.bottomUp ⟨finish, pure⟩)
        (fun c _ => c.bottomUp ⟨finish, pure⟩) fun c _ => c.bottomUp ⟨finish, pure⟩) := by
  change Drops ([.expr left] ++ ([.expr right] ++ on.toList.map .expr)) _ _
  refine Drops.bind (S := fun left' w e' => ∃ right' on', e' = Expr.join kind left' right' on'
      ∧ right.Dropped tables w right'
      ∧ ∀ W : List Alias, (∀ x ∈ W, x ∈ w.2 ∨ x ∈ (Part.expr right).declared) →
        Option.Rel (Expr.Dropped tables (w.1, W)) on on')
    (Drops.elsewhere hl) (fun left' => ?_) ?_
  · refine Drops.bind (S := fun right' w e' => ∃ on', e' = Expr.join kind left' right' on'
        ∧ Option.Rel (Expr.Dropped tables w) on on')
      hr (fun right' => dropping.finish (dropping.attachOption hon) fun on' _ h => ⟨on', rfl, h⟩) ?_
    intro final V right' e' hright rest
    obtain ⟨on', rfl, -⟩ := rest V fun _ => .inl
    refine ⟨right', on', rfl, hright, fun W hW => ?_⟩
    obtain ⟨_, ⟨⟩, hcond⟩ := rest W (by simpa using hW)
    exact hcond
  · intro final V left' e' hleft rest
    have shown : ∀ x ∈ left.declares ++ V, x ∈ V ∨ x ∈ [Part.expr left].flatMap Part.declared := fun x hx =>
      (List.mem_append.mp hx).symm.imp id fun here => by simpa using Part.declares_subset_declared left here
    obtain ⟨right', on', rfl, -, hcond⟩ := rest (left.declares ++ V) shown
    refine ⟨left', right', on', rfl, by simpa using hleft, fun W hW => ?_, hcond _ fun x hx => ?_⟩
    · obtain ⟨_, _, ⟨⟩, hright, -⟩ := rest W (by simpa using hW)
      exact hright
    · simp only [List.mem_append] at hx ⊢
      exact hx.elim (Or.imp .inl fun h => Part.declares_subset_declared right h) fun h => .inl (.inr h)

namespace Expr.JoinDropped

section Sides

variable (parts : JoinDropped tables (final, V) left right on left' right' on')
include parts

theorem declared : (Part.expr (.join kind left' right' on')).declared
    ⊆ (Part.expr (.join kind left right on)).declared := by
  refine Part.declared_subset_of_parts rfl (.cons (parts.onLeft final fun _ _ => rfl).declared
    (.cons (parts.onRight V fun _ => .inl).declared ?_))
  exact List.forall₂_map_left_iff.mpr (List.forall₂_map_right_iff.mpr
    ((forall₂_toList parts.onCondition).imp fun _ _ h => h.declared))

variable (given : (Part.expr (.join kind left right on)).Given tables final V)
include given

theorem left_trims : left'.Trims tables final.standIn V left :=
  (parts.onLeft final fun _ _ => rfl).trims (given.view (by simp [Part.views]))

theorem right_trims :
    right'.Trims tables final.standIn (if kind.isApply then left.declares ++ V else V) right := by
  refine (parts.onRight (if kind.isApply then left.declares ++ V else V) fun x hx => ?_).trims
    (given.view (by simp [Part.views]))
  split at hx
  · exact (List.mem_append.mp hx).symm.imp id fun h => Part.declares_subset_declared left h
  · exact .inl hx

theorem condition_trims :
    Option.Rel (Expr.Trims tables final.standIn (left.declares ++ right.declares ++ V)) on' on := by
  have related : Option.Rel
      (fun c c' => c'.Trims tables final.standIn (left.declares ++ right.declares ++ V) c) on on' :=
    optionRel_imp_mem parts.onCondition fun c hc _ h =>
      h.trims (given.view (by simp [Part.views, Option.mem_def.mp hc]))
  exact flip_optionRel related

omit parts in
theorem disjoint : ∀ x ∈ right.declares, x ∉ left.declares := by
  have nodup := given.fresh.nodup
  rw [Part.declared_join] at nodup
  intro x hr hl
  exact (List.nodup_append.mp nodup).2.2 x (Part.declares_subset_declared left hl) x
    (List.mem_append_left _ (Part.declares_subset_declared right hr)) rfl

theorem trims (around : final.Around V (.expr (.join kind left right on))) :
    Expr.Trims tables final.standIn V (.join kind left' right' on') (.join kind left right on) :=
  .join (parts.left_trims given) (parts.right_trims given) (parts.condition_trims given) (disjoint given)
    given.nodes.here.1.2.2 (given.away around)

end Sides

/-- A join that is kept. -/
theorem kept (parts : JoinDropped tables (final, V) left right on left' right' on')
    (around : final.Around V (.expr (.join kind left right on))) :
    (Expr.join kind left right on).Dropped tables (final, V) (.join kind left' right' on') :=
  ⟨parts.declared, rfl, by rintro _ ⟨⟩, fun given => parts.trims given around⟩

variable {a b : Alias} {r : Expr}

/-- A join that is dropped: its parts were walked when its alias had not been replaced. -/
theorem missing (parts : JoinDropped tables (final.filter (·.1 != a), V) left right on left' right' on')
    (around : RepeatedJoins.Replaced.Around (final.filter (·.1 != a)) V (.expr (.join kind left right on)))
    (given : (Part.expr (.join kind left right on)).Given tables final V)
    (dropped : sourceAlias? right' = some a) (found : find? kind right' on' left' = some r)
    (kept : sourceAlias? r = some b) (last : final.lookup a = some b) :
    Expr.Missing tables final.standIn (RepeatedJoins.Replaced.standIn (final.filter (·.1 != a))) V kind
      left' left right' right on' on a b := by
  let before := final.filter (·.1 != a)
  have erased : ∀ x, x ≠ a → before.lookup x = final.lookup x := fun x other => by
    rw [lookup_erase, if_neg other]
  have stays : RepeatedJoins.Replaced.standIn before a = a := by
    rw [RepeatedJoins.Replaced.standIn, lookup_erase, if_pos rfl]
    rfl
  have given' : (Part.expr (.join kind left right on)).Given tables before V := given.mono fun x y h => by
    rw [lookup_erase] at h
    split at h
    · cases h
    · exact h
  have hl := parts.left_trims given'
  have hr := parts.right_trims given'
  have joined := parts.trims given' around
  have alone : ∀ k l r c, right ≠ .join k l r c := by
    rintro _ _ _ _ rfl
    exact given.nodes.here.1.2.2
  have named : sourceAlias? right = some a := (hr.alone alone).1.symm.trans dropped
  have shown := declares_of_sourceAlias? named
  have inRight : a ∈ (Part.expr right).declared := Part.declares_subset_declared right (by simp [shown])
  have inJoin : a ∈ (Part.expr (.join kind left right on)).declared :=
    Part.declared_subset (by simp [Part.parts]) inRight
  have steady := given.nodes.here.2 a b named last
  have notLeft : ∀ x ∈ left.declares ++ V, x ≠ a := by
    rintro x hx rfl
    rcases List.mem_append.mp hx with inside | seen
    · exact disjoint given x (by simp [shown]) inside
    · exact given.fresh.apart x seen inJoin
  obtain ⟨l, c, spine, alike, same⟩ := find?_spec left' (hl.remains.nodes.mono fun _ h => h.2.2) found
  refine ⟨hl, hr, parts.condition_trims given', disjoint given, shown, fun x hx => ?_, ?_, stays,
    ⟨l, r, c, ?_⟩, steady.one⟩
  · rw [RepeatedJoins.Replaced.standIn, RepeatedJoins.Replaced.standIn, erased x (notLeft x hx)]
  · rw [RepeatedJoins.Replaced.standIn, last]
    rfl
  · refine ⟨spine, kept, dropped, alike, same,
      ⟨given.fresh.nodup.sublist joined.remains.declared, fun x hx => ?_⟩,
      joined.sees _ fun x hx => List.mem_append_left _ (List.mem_map_of_mem hx),
      joined.remains.nodes.mono fun _ h => h.2.1, hl.remains.nodes.mono fun _ h => h.1,
      fun e' he' inside => ?_⟩
    · refine fun inside => ?_
      have inside := joined.remains.declared.subset inside
      rcases List.mem_append.mp hx with stood | seen
      · obtain ⟨y, hy, rfl⟩ := List.mem_map.mp stood
        exact (given'.away around y hy).2 inside
      · exact given.fresh.apart x seen inside
    · -- What the condition reads as the other row it read so before.
      have conditions := forall₂_toList (parts.condition_trims given')
      obtain ⟨e, he, trims⟩ := exists_of_forall₂_right conditions.flip e' (by simpa using he')
      obtain ⟨x, hx, stood⟩ := trims.remains.refs b inside
      obtain ⟨notKept, only⟩ := steady.unread e (by simpa using he) x hx
      have stood : (before.lookup x).getD x = b := stood
      cases replaced : before.lookup x with
      | none =>
        rw [replaced] at stood
        exact notKept stood
      | some y =>
        rw [replaced] at stood
        obtain rfl : y = b := stood
        have own : x ≠ a := by
          rintro rfl
          rw [lookup_erase, if_pos rfl] at replaced
          cases replaced
        exact own (only (erased x own ▸ replaced))

end Expr.JoinDropped

theorem RepeatedJoins.sourceAlias?_of_find? {r tree : Expr} (h : find? kind right on tree = some r) :
    sourceAlias? tree = none := by
  cases tree <;> first | rfl | cases h

/-- What is left where a join is dropped. -/
theorem Expr.Dropped.of_missing {t t' : RepeatedJoins.Replaced}
    (later : t.Until ((a, b) :: t') [.expr (.join kind left right on)] V final)
    (unreplaced : t'.lookup a = none) (blank : t.Blank a) (named : sourceAlias? right = some a)
    (dropped : sourceAlias? right' = some a) (found : find? kind right' on' left' = some r)
    (kept : sourceAlias? r = some b)
    (makes : ∀ (final : RepeatedJoins.Replaced) (V : List Alias),
      t.Until t' [.expr (.join kind left right on)] V final →
      final.Around V (.expr (.join kind left right on))
        ∧ JoinDropped tables (final, V) left right on left' right' on') :
    (Expr.join kind left right on).Dropped tables (final, V) left' := by
  have declared := later.declared
  rw [List.flatMap_singleton] at declared
  have inRight : a ∈ (Part.expr right).declared :=
    Part.declares_subset_declared right (by simp [declares_of_sourceAlias? named])
  have inJoin : a ∈ (Part.expr (.join kind left right on)).declared :=
    Part.declared_subset (by simp [Part.parts]) inRight
  have last : final.lookup a = some b := by
    rw [declared a inJoin]
    simp
  have part : Part.expr left ∈ (Part.expr (.join kind left right on)).parts := by simp [Part.parts]
  have earlier : t.Until t' [.expr (.join kind left right on)] V (final.filter (·.1 != a)) := by
    refine ⟨fun x hx => ?_, fun x hx => ?_⟩ <;> rw [lookup_erase] <;> split <;> rename_i here
    · rw [here, unreplaced]
    · rw [declared x (by simpa using hx), List.lookup_cons, beq_false_of_ne here]
    · rw [here, blank.1]
    · exact later.seen x hx
  obtain ⟨around, parts⟩ := makes _ V earlier
  refine ⟨List.Subset.trans (parts.onLeft _ fun _ _ => rfl).declared (Part.declared_subset part),
    sourceAlias?_of_find? found, by rintro _ ⟨⟩, fun given => ?_⟩
  have seen : ∀ x ∈ V, x ≠ a := by
    rintro x hx rfl
    exact given.fresh.apart x hx inJoin
  have around' : final.Around V (.expr (.join kind left right on)) := by
    refine ⟨by simp [Part.binds], fun x hx y hy same => around.away x hx y hy ?_⟩
    rwa [lookup_erase, if_neg (seen x hx)]
  have missing := parts.missing around given dropped found kept last
  have notLeft : ∀ x ∈ (Part.expr left).declared, x ≠ a := by
    rintro x hx rfl
    have nodup := given.fresh.nodup
    rw [Part.declared_join] at nodup
    exact (List.nodup_append.mp nodup).2.2 x hx x (List.mem_append_left _ inRight) rfl
  refine missing.trims ?_ (given.away around') (given.nodes.here.2 a b named last).apart
  refine (parts.onLeft final fun x hx => ?_).trims (given.view (by simp [Part.views]))
  rw [lookup_erase, if_neg (hx.elim (notLeft x) (seen x))]

/-- A join is dropped when its parts are done. -/
theorem Expr.DropsTo.join (hl : left.DropsTo tables) (hr : right.DropsTo tables)
    (hon : ∀ c ∈ on, c.DropsTo tables) : (Expr.join kind left right on).DropsTo tables := by
  have closed : Drops [.expr (.join kind left right on)]
      (fun w e' => RepeatedJoins.Replaced.Around w.1 w.2 (.expr (.join kind left right on))
        ∧ ∃ left' right' on',
        e' = Expr.join kind left' right' on' ∧ JoinDropped tables w left right on left' right' on') _ :=
    (drops_joined hl hr hon).close fun final V e' around made => ⟨around, made⟩
  intro t ready
  have walked := closed t ready
  have run : ((Expr.join kind left right on).bottomUp ⟨finish, pure⟩).run t = (do
      finish (← (Expr.join kind left right on).traverse (fun c _ => c.bottomUp ⟨finish, pure⟩)
        (fun c _ => c.bottomUp ⟨finish, pure⟩) fun c _ => c.bottomUp ⟨finish, pure⟩)).run t := by
    rw [Expr.bottomUp]
  rw [run, StateT.run_bind]
  generalize ((Expr.join kind left right on).traverse (fun c _ => c.bottomUp ⟨finish, pure⟩)
    (fun c _ => c.bottomUp ⟨finish, pure⟩) fun c _ => c.bottomUp ⟨finish, pure⟩).run t = made at walked
  obtain ⟨_, t'⟩ := made
  obtain ⟨-, left', right', on', rfl, first⟩ := walked.makes t' [] (.here _ _ _)
  change Dropping _ _ t ((finish (.join kind left' right' on')).run t')
  by_cases repeated : ∃ a b r, sourceAlias? right' = some a ∧ find? kind right' on' left' = some r
    ∧ sourceAlias? r = some b
  · obtain ⟨a, b, r, dropped, found, kept⟩ := repeated
    have last : (finish (.join kind left' right' on')).run t' = (left', (a, b) :: t') := by
      simp only [finish, dropped, found, kept, Option.bind_some]
      rfl
    rw [last]
    have side := first.onRight [] (by simp)
    have named : sourceAlias? right = some a := side.named.symm.trans dropped
    have inJoin : a ∈ (Part.expr (.join kind left right on)).declared :=
      Part.declared_subset (by simp [Part.parts])
        (Part.declares_subset_declared right (by simp [declares_of_sourceAlias? named]))
    have keptIn : b ∈ (Part.expr (.join kind left right on)).declared := by
      have inside : b ∈ (Part.expr left').declared := find?_declared left' found
        (Part.declares_subset_declared r (by simp [declares_of_sourceAlias? kept]))
      exact Part.declared_subset (by simp [Part.parts]) ((first.onLeft t' fun _ _ => rfl).declared inside)
    refine ⟨fun x hx => ?_, fun x hx h => ?_, fun final V later => ?_⟩
    · rw [List.flatMap_singleton] at hx
      have other : x ≠ a := fun same => hx (same ▸ inJoin)
      rw [List.lookup_cons, beq_false_of_ne other]
      exact walked.kept x (by rwa [List.flatMap_singleton])
    · have blank := walked.blank x hx h
      rw [List.flatMap_singleton] at hx
      have other : x ≠ a := fun same => hx (same ▸ inJoin)
      refine ⟨?_, List.forall_mem_cons.mpr ⟨fun same => hx (same ▸ keptIn), blank.2⟩⟩
      rw [List.lookup_cons, beq_false_of_ne other]
      exact blank.1
    · refine .of_missing later (side.own a named) (ready.blank a (by simpa using inJoin)) named dropped
        found kept fun final V later => ?_
      obtain ⟨around, _, _, _, ⟨⟩, parts⟩ := walked.makes final V later
      exact ⟨around, parts⟩
  · have last : (finish (.join kind left' right' on')).run t' = (.join kind left' right' on', t') := by
      have same : finish (.join kind left' right' on') = pure (.join kind left' right' on') := by
        simp only [finish]
        split
        · rename_i a b dropped kept
          obtain ⟨r, found, kept⟩ := Option.bind_eq_some_iff.mp kept
          exact absurd ⟨a, b, r, dropped, found, kept⟩ repeated
        · rfl
      rw [same]
      rfl
    rw [last]
    refine ⟨walked.kept, walked.blank, fun final V later => ?_⟩
    obtain ⟨around, _, _, _, ⟨⟩, parts⟩ := walked.makes final V later
    exact parts.kept around

end Joins

def Part.DropsTo (tables : Tables) : Part → Prop
  | .expr e => e.DropsTo tables
  | .select s => s.DropsTo tables
  | .projection p => p.DropsTo tables

theorem Part.dropsTo (p : Part) : p.DropsTo tables := by
  induction p.every_trivial with
  | @node p _ _ ih =>
    cases p with
    | expr e =>
      change e.DropsTo tables
      cases e with
      | column c => exact .column c
      | table t => exact .table t
      | setOp rel kind s t =>
        exact .setOp (ih (.select s) (by simp [parts])) (ih (.select t) (by simp [parts]))
      | join kind left right on =>
        exact .join (ih (.expr left) (by simp [parts])) (ih (.expr right) (by simp [parts])) fun c hc =>
          ih (.expr c) (by simp [parts, Option.mem_def.mp hc])
      | clientJoin q outer inner =>
        exact .clientJoin (ih (.projection q) (by simp [parts]))
          (fun k hk => ih (.expr k) (by simp [parts, hk])) fun k hk => ih (.expr k) (by simp [parts, hk])
      | _ => exact .level trivial (fun c hc => ih _ hc) (fun s hs => ih _ hs) fun q hq => ih _ hq
    | select s => exact Select.DropsTo.of_parts fun e he => ih _ he
    | projection q =>
      exact Projection.DropsTo.of_parts (ih (.select q.select) (by simp [parts]))
        (ih (.expr q.projector) (by simp [parts]))

end Walking

def Expr.replacedJoins (e : Expr) : RepeatedJoins.Replaced := ((e.bottomUp ⟨finish, pure⟩).run []).2

/-- A tree answers what it answers when joins that repeat others are dropped, where each of these meets one row
at most. -/
theorem Expr.execute_dropRepeatedJoins {tables : Tables} {e : Expr} (sees : (Part.expr e).InScope [])
    (apart : (Part.expr e).declared.Nodup)
    (nodes : (Part.expr e).Every fun q => q.Lucid ∧ q.Steady tables e.replacedJoins) {v : ClientValue}
    (run : e.execute tables = .ok v) : e.dropRepeatedJoins.execute tables = .ok v := by
  have walk : e.DropsTo tables := Part.dropsTo (.expr e)
  have dropped := (walk [] ⟨by simpa using apart, fun a _ => ⟨rfl, by simp⟩⟩).makes _ [] (.here _ _ _)
  have trims := dropped.trims ⟨nodes, sees, ⟨apart, by simp⟩⟩
  exact (Expr.execute_follows (trims.objects _ _ .root)).eq_ok run

def Tables.Keyed (tables : Tables) (table key : String) : Prop :=
  ∀ rows, tables.get? table = some rows → rows.Pairwise fun row row' => ∀ k k' v,
    row.get? key = some k → row'.get? key = some k' → k.isEqual v = true → k'.isEqual v = false

theorem Tables.Keyed.of_texts {tables : Tables} {table key : String} {rows : List Row} {keys : List String}
    (found : tables.get? table = some rows) (texts : rows.map (·.get? key) = keys.map fun k => some (.text k))
    (distinct : keys.Nodup) : tables.Keyed table key := by
  have only : ∀ {s : String} {v : Value}, (Value.text s).isEqual v = true → v = .text s := by
    intro s v equal
    cases v with
    | text s' =>
      unfold Value.isEqual at equal
      rw [Value.compare] at equal
      split at equal
      · rename_i same
        have same : Ord.compare s s' = .eq := by simpa using same
        rw [compare_eq_iff_eq.mp same]
      · cases equal
    | _ => cases equal
  intro rows' found'
  obtain rfl := Option.some.inj (found.symm.trans found')
  have pairs : (rows.map (·.get? key)).Pairwise (· ≠ ·) := by
    rw [texts]
    exact distinct.map fun s s' same => by simpa using same
  refine (List.pairwise_map.mp pairs).imp_of_mem fun {row row'} hrow hrow' differ k k' v hk hk' equal => ?_
  have text : ∀ {row : Row} {k : Value}, row ∈ rows → row.get? key = some k → ∃ s, k = .text s := by
    intro row k hrow hk
    have mem : row.get? key ∈ rows.map (·.get? key) := List.mem_map_of_mem hrow
    rw [texts, hk] at mem
    obtain ⟨s, -, same⟩ := List.mem_map.mp mem
    exact ⟨s, (Option.some.inj same).symm⟩
  obtain ⟨s, rfl⟩ := text hrow hk
  obtain ⟨s', rfl⟩ := text hrow' hk'
  obtain rfl := only equal
  refine Bool.eq_false_iff.mpr fun equal' => differ ?_
  rw [hk, hk', only equal']

section Keys

variable {tables : Tables} {kind : JoinKind} {t : Table} {key other : Column} {σ : Scope}

theorem sublist_of_filterM {ε α : Type} {p : α → Except ε Bool} {l l' : List α} (h : l.filterM p = .ok l') :
    l'.Sublist l := by
  have kept : l' = l.filter fun a => (p a).toOption.getD false := eq_filter_of_filterM h fun a _ b hb => by
    rw [hb]
    rfl
  rw [kept]
  exact List.filter_sublist

/-- A row that meets another column has a key that equals the value of this column. -/
theorem Eval.isEqual_of_meets (own : key.rel = t.rel) (outside : other.rel ≠ t.rel) {row : Row}
    (h : meets tables (some (.equals (.column key) (.column other))) (σ.extend [(t.rel, some row)])
      = .ok true) :
    ∃ k v, row.get? key.name = some k ∧ σ.column other = .ok v ∧ k.isEqual v = true := by
  obtain ⟨k, v, hk, hv, equal⟩ := exists_of_meets_equals h
  refine ⟨k, v, ?_, ?_, equal.symm⟩
  · simp only [Eval.scalar, Scope.column, Scope.extend, List.reverse_singleton, List.singleton_append, own,
      List.lookup_cons, beq_self_eq_true] at hk
    split at hk
    · cases hk
      assumption
    · cases hk
  · simpa [Eval.scalar, Scope.column, Scope.extend, List.lookup_cons, beq_false_of_ne outside] using hv

/-- A join on a key of a table meets one row at most. -/
theorem Eval.met_of_key (own : key.rel = t.rel) (outside : other.rel ≠ t.rel)
    (keyed : tables.Keyed t.name key.name) {f : Frame} {others : List Frame}
    (h : met tables kind (.table t) (some (.equals (.column key) (.column other))) σ f = .ok others) :
    others.length ≤ 1 := by
  obtain ⟨rights, hr, hmet⟩ := bind_eq_ok.mp h
  rw [source] at hr
  split at hr
  · rename_i rows found
    cases hr
    obtain ⟨kept, hkept, rfl⟩ := filterM_map hmet
    have distinct : kept.Pairwise _ := (keyed rows found).sublist (sublist_of_filterM hkept)
    have passes := fun row hrow => (kept_of_filterM hkept row hrow).2
    rcases kept with _ | ⟨row, _ | ⟨row', rest⟩⟩
    · simp
    · simp
    · obtain ⟨k, v, hk, hv, equal⟩ := isEqual_of_meets own outside (passes row (by simp))
      obtain ⟨k', v', hk', hv', equal'⟩ := isEqual_of_meets own outside (passes row' (by simp))
      obtain rfl := Except.ok.inj (hv.symm.trans hv')
      have apart := (List.pairwise_cons.mp distinct).1 row' (by simp) k k' v hk hk' equal
      rw [apart] at equal'
      cases equal'
  · cases hr

/-- A join on a key of a table may be dropped, when its condition reads nothing under the alias of the join
that is kept. -/
theorem RepeatedJoins.Steady.of_key {final : RepeatedJoins.Replaced} {b : Alias} (own : key.rel = t.rel)
    (outside : other.rel ≠ t.rel) (keyed : tables.Keyed t.name key.name) (apart : t.rel ≠ b)
    (unread : other.rel ≠ b) (unreplaced : final.lookup other.rel ≠ some b) :
    Steady tables final kind (.table t) (some (.equals (.column key) (.column other))) t.rel b where
  one _ _ _ h := met_of_key own outside keyed h
  unread e he x hx := by
    cases he
    have read : x = t.rel ∨ x = other.rel := by
      simpa [Expr.equals, Part.references_eq (.expr _), Part.reads, Part.parts, own] using hx
    rcases read with rfl | rfl
    · exact ⟨apart, fun _ => rfl⟩
    · exact ⟨unread, fun same => absurd same unreplaced⟩
  apart q hq := by
    have parts : q = .expr (.table t) ∨ q = .expr (.equals (.column key) (.column other)) := by simpa using hq
    rcases parts with rfl | rfl <;>
      simp [Expr.equals, Part.aggregates_eq (.expr _), Part.isAggregate, Part.aggregatesApart, Part.parts]

end Keys

namespace Sample

def customersOfOrders : Expr :=
  let ofOrder (customer : Alias) : Expr :=
    .equals (.column ⟨customer, "CustomerID", .text⟩) (.column ⟨⟨1⟩, "CustomerID", .text⟩)
  .projection ⟨.plain ⟨4⟩ [⟨"Name", .column ⟨⟨2⟩, "CompanyName", .text⟩, .text⟩,
      ⟨"City", .column ⟨⟨3⟩, "City", .text⟩, .text⟩]
    (some (.join .leftOuter (.join .leftOuter (.table ⟨⟨1⟩, "Order", "Orders"⟩)
      (.table ⟨⟨2⟩, "Customer", "Customers"⟩) (some (ofOrder ⟨2⟩)))
      (.table ⟨⟨3⟩, "Customer", "Customers"⟩) (some (ofOrder ⟨3⟩)))) none,
    .construct none [⟨"Name", .column ⟨⟨4⟩, "Name", .text⟩⟩, ⟨"City", .column ⟨⟨4⟩, "City", .text⟩⟩], none⟩

theorem replacedJoins_customersOfOrders : customersOfOrders.replacedJoins = [(⟨3⟩, ⟨2⟩)] := by
  decide +kernel

theorem keyed_customers : Sample.tables.Keyed "Customers" "CustomerID" := by
  have texts : customers.map (·.get? "CustomerID")
      = ["C1", "C2", "C3", "C4", "C5", "C6", "C7"].map fun k => some (.text k) := rfl
  exact .of_texts rfl texts (by decide)

/-- Where customers have keys, the second join is dropped, and the answer is the same. -/
theorem execute_customersOfOrders {tables : Tables} (keyed : tables.Keyed "Customers" "CustomerID")
    {v : ClientValue} (run : customersOfOrders.execute tables = .ok v) :
    customersOfOrders.dropRepeatedJoins.execute tables = .ok v := by
  refine Expr.execute_dropRepeatedJoins ?_ ?_ ?_ run
  · simp [customersOfOrders, Part.inScope_iff (p := .expr _), Part.inScope_iff (p := .select _),
      Part.inScope_iff (p := .projection _), Part.views, Part.parts, Select.readers, Select.plain,
      Select.sourceAliases, Expr.declares, Expr.equals]
  · have declared : (Part.expr customersOfOrders).declared = [⟨4⟩, ⟨1⟩, ⟨2⟩, ⟨3⟩] := by
      decide +kernel
    rw [declared]
    decide
  · rw [replacedJoins_customersOfOrders]
    simp [customersOfOrders, Part.every_iff (p := .expr _), Part.every_iff (p := .select _),
      Part.every_iff (p := .projection _), Part.parts, Select.exprs, Select.plain, Expr.equals, Part.Lucid,
      Part.Floatless, Part.Groupless, Part.LeftDeep, Part.Steady, sourceAlias?]
    exact .of_key rfl (by decide) keyed (by decide) (by decide) (by decide)

end Sample

end ObjectQuery
