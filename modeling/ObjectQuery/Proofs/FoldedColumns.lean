import ObjectQuery.Proofs.EqualColumns
import ObjectQuery.Proofs.Mirroring
import ObjectQuery.Proofs.TidyRewrites

/-!
Computing the same expression once per select does not change what a tree answers, and there is nothing
to do a second time. The walk leaves a select before it comes to what reads its rows: when it meets a
column of an alias in sight, the replacements of this alias are those of the end. A column of any other
alias has no value in either tree.
-/

namespace ObjectQuery

open Eval RepeatedColumns

def Part.Still : Part → Prop
  | .expr e => e.foldColumns.run [] = (e, [])
  | .select s => s.foldColumns.run [] = (s, [])
  | .projection p => p.foldColumns.run [] = (p, [])

section Still

theorem Expr.still_column (c : Column) : (Part.expr (.column c)).Still := by
  rw [Part.Still, Expr.foldColumns]
  rfl

theorem Expr.still_of_parts {e : Expr} (noColumn : ∀ c, e ≠ .column c)
    (noSet : ∀ rel kind s t, e ≠ .setOp rel kind s t) (parts : ∀ q ∈ (Part.expr e).parts, q.Still) :
    (Part.expr e).Still := by
  have walked := Expr.traverse_gives (Yields.ofState RepeatedColumns.Replaced) (s := []) e
    (f := fun c _ => pure c) (g := fun s _ => pure s) (k := fun p _ => pure p)
    (fun _ hc => parts _ hc) (fun _ hs => parts _ hs) fun _ hp => parts _ hp
  rw [Part.Still, Expr.foldColumns.eq_3 e noColumn noSet]
  exact walked.trans (congrArg (·, []) e.traverse_pure)

theorem Select.traverse_still {s : Select Expr} (parts : ∀ q ∈ (Part.select s).parts, q.Still) :
    (s.traverse fun e _ => e.foldColumns).run [] = (s, []) := by
  have walked := Select.traverse_gives (Yields.ofState RepeatedColumns.Replaced) (s := []) s
    (f := fun e _ => pure e) fun _ he => parts _ he
  exact walked.trans (congrArg (·, []) s.traverse_pure)

/-- The operands of a set operation are walked without being settled. -/
theorem Expr.still_setOp {rel : Alias} {kind : SetKind} {s t : Select Expr}
    (hs : ∀ q ∈ (Part.select s).parts, q.Still) (ht : ∀ q ∈ (Part.select t).parts, q.Still) :
    (Part.expr (.setOp rel kind s t)).Still := by
  let Y := Yields.ofState RepeatedColumns.Replaced
  have left : Y.gives [] (s.traverse fun e _ => e.foldColumns) s [] := Select.traverse_still hs
  have right : Y.gives [] (t.traverse fun e _ => e.foldColumns) t [] := Select.traverse_still ht
  rw [Part.Still, Expr.foldColumns]
  exact Y.bind left (Y.bind right (Y.pure _ _))

theorem Projection.still_of_parts {p : Projection Expr} (parts : ∀ q ∈ (Part.projection p).parts, q.Still) :
    (Part.projection p).Still := by
  let Y := Yields.ofState RepeatedColumns.Replaced
  have select : Y.gives [] p.select.foldColumns p.select [] := parts _ Projection.select_mem
  have projector : Y.gives [] p.projector.foldColumns p.projector [] := parts _ Projection.projector_mem
  rw [Part.Still, Projection.foldColumns]
  exact Y.bind select (Y.bind projector (Y.pure _ _))

end Still

namespace RepeatedColumns

variable {rel : Alias} {kept rest : List (ColumnDecl Expr)} {replaced : Replaced}

def Apart (columns : List (ColumnDecl Expr)) : Prop :=
  columns.Pairwise fun d d' => (d.expr == d'.expr) = false

theorem fold_apart (apart : Apart kept) : Apart (fold rel kept rest replaced).1 := by
  fun_induction fold rel kept rest replaced with
  | case1 => exact apart
  | case2 _ _ _ _ _ _ ih => exact ih apart
  | case3 kept d rest replaced missing ih =>
    refine ih (List.pairwise_append.mpr ⟨apart, List.pairwise_singleton _ _, fun d' hd' => ?_⟩)
    simpa using List.find?_eq_none.mp missing d' hd'

theorem fold_of_apart (apart : Apart (kept ++ rest)) :
    fold rel kept rest replaced = (kept ++ rest, replaced) := by
  fun_induction fold rel kept rest replaced with
  | case1 => simp
  | case2 kept d rest replaced first found =>
    have differ := (List.pairwise_append.mp apart).2.2 first (List.mem_of_find?_eq_some found) d (by simp)
    have same := List.find?_some found
    rw [differ] at same
    cases same
  | case3 _ _ _ _ _ ih => simpa using ih (by simpa using apart)

/-- Settling a select leaves out some of its columns. -/
theorem parts_settle (s : Select Expr) (replaced : Replaced) :
    (Part.select ((settle s).run replaced).1).parts ⊆ (Part.select s).parts := by
  have fewer : (fold s.rel [] s.columns replaced).1 ⊆ s.columns := fold_sublist.subset
  exact List.map_subset _ (List.append_subset.mpr ⟨List.subset_append_left _ _,
    List.Subset.trans (List.map_subset _ fewer) (List.subset_append_right _ _)⟩)

/-- A settled select whose parts are still is so itself. -/
theorem still_settled {s : Select Expr} (parts : ∀ q ∈ (Part.select s).parts, q.Still) (replaced : Replaced) :
    (Part.select ((settle s).run replaced).1).Still := by
  let columns := (fold s.rel [] s.columns replaced).1
  have folded : fold s.rel [] columns [] = (columns, []) := fold_of_apart (fold_apart .nil)
  have walked := Select.traverse_still fun q hq => parts q (parts_settle s replaced hq)
  have settled : (settle { s with columns }).run [] = ({ s with columns }, []) := by
    change ({ s with columns := (fold s.rel [] columns []).1 }, (fold s.rel [] columns []).2) = _
    rw [folded]
  change (Part.select { s with columns }).Still
  rw [Part.Still, Select.foldColumns]
  exact (Yields.ofState Replaced).bind walked settled

end RepeatedColumns

section Walked

open Outcomes (ofState)

def Part.FoldsStill : Part → Prop
  | .expr e => (ofState RepeatedColumns.Replaced).Keeps (fun _ => True)
    (fun e' => (Part.expr e').Still) e.foldColumns
  | .select s => (ofState RepeatedColumns.Replaced).Keeps (fun _ => True)
    (fun s' => ∀ q ∈ (Part.select s').parts, q.Still) (s.traverse fun e _ => e.foldColumns)
  | .projection p => (ofState RepeatedColumns.Replaced).Keeps (fun _ => True)
    (fun p' => (Part.projection p').Still) p.foldColumns

theorem Select.keeps_still {s : Select Expr} (h : (Part.select s).FoldsStill) :
    (ofState RepeatedColumns.Replaced).Keeps (fun _ => True) (fun s' => (Part.select s').Still)
      s.foldColumns := by
  rw [Select.foldColumns]
  refine Outcomes.Keeps.bind h fun s' parts => ?_
  rintro replaced _ _ - ⟨⟩
  exact ⟨still_settled parts replaced, trivial⟩

theorem still_of_matches {QS : Select Expr → Select Expr → Prop}
    {QP : Projection Expr → Projection Expr → Prop} {ps ps' : List Part}
    (h : List.Forall₂ (Part.Matches (fun _ c => (Part.expr c).Still) QS QP) ps ps')
    (selects : ∀ s s', QS s s' → (Part.select s').Still)
    (projections : ∀ p p', QP p p' → (Part.projection p').Still) : ∀ q ∈ ps', q.Still := by
  intro q' hq'
  obtain ⟨q, -, related⟩ := exists_of_forall₂_right h q' hq'
  cases related with
  | expr h => exact h
  | select h => exact selects _ _ h
  | projection h => exact projections _ _ h

theorem Part.foldsStill (p : Part) : p.FoldsStill := by
  let S : Sequence (StateM RepeatedColumns.Replaced) Part Unit :=
    (ofState RepeatedColumns.Replaced).keeping fun _ => True
  have parts : ∀ q ∈ p.parts, q.FoldsStill := fun q hq => foldsStill q
  have onExpr : ∀ c, Part.expr c ∈ p.parts →
      S.does [.expr c] (fun _ c' => (Part.expr c').Still) c.foldColumns := fun c hc => parts _ hc
  have onSelect : ∀ s, Part.select s ∈ p.parts →
      S.does [.select s] (fun _ s' => (Part.select s').Still) s.foldColumns := fun s hs =>
    Select.keeps_still (parts _ hs)
  have onProjection : ∀ q, Part.projection q ∈ p.parts →
      S.does [.projection q] (fun _ q' => (Part.projection q').Still) q.foldColumns := fun q hq => parts _ hq
  cases p with
  | expr e =>
    by_cases column : ∃ c, e = .column c
    · obtain ⟨c, rfl⟩ := column
      rw [Part.FoldsStill, Expr.foldColumns]
      exact Outcomes.Keeps.anything.bind fun _ _ => .pure (Expr.still_column _)
    by_cases set : ∃ rel kind s t, e = .setOp rel kind s t
    · obtain ⟨rel, kind, s, t, rfl⟩ := set
      have left := parts (.select s) (by simp [Part.parts])
      have right := parts (.select t) (by simp [Part.parts])
      rw [Part.FoldsStill, Expr.foldColumns]
      exact Outcomes.Keeps.bind left fun s' hs => Outcomes.Keeps.bind right fun t' ht =>
        .pure (Expr.still_setOp hs ht)
    have noColumn : ∀ c, e ≠ .column c := fun c h => column ⟨c, h⟩
    have noSet : ∀ rel kind s t, e ≠ .setOp rel kind s t := fun rel kind s t h => set ⟨rel, kind, s, t, h⟩
    rw [Part.FoldsStill, Expr.foldColumns.eq_3 e noColumn noSet]
    refine Outcomes.Keeps.mono (S.expr (V := id) e onExpr onSelect onProjection) fun e' shaped => ?_
    refine Expr.still_of_parts ?_ ?_ (still_of_matches shaped.parts (fun _ _ h => h) fun _ _ h => h)
    · rintro c rfl
      cases shaped
      exact noColumn _ rfl
    · rintro rel kind s t rfl
      cases shaped
      exact noSet _ _ _ _ rfl
  | select s =>
    exact Outcomes.Keeps.mono (S.select (V := id) s onExpr) fun s' shaped =>
      still_of_matches shaped.parts (fun _ _ => False.elim) fun _ _ => False.elim
  | projection q =>
    rw [Part.FoldsStill, Projection.foldColumns]
    exact Outcomes.Keeps.mono (S.projection (V := id) q onExpr onSelect) fun q' shaped =>
      Projection.still_of_parts (still_of_matches shaped.parts (fun _ _ h => h) fun _ _ => False.elim)
termination_by p.weight
decreasing_by exact weight_lt hq

end Walked

namespace RepeatedColumns

variable {α β : Type} {ps qs : List Part} {t final : Replaced}

def Replaced.Settled (final t : Replaced) (a : Alias) : Prop :=
  ∀ name, t.lookup (a, name) = final.lookup (a, name)

theorem Replaced.Settled.standIn {a : Alias} (h : final.Settled t a) : t.standIn a = final.standIn a := by
  funext name
  rw [Replaced.standIn, Replaced.standIn, h name]

structure Replaced.Ready (t : Replaced) (ps : List Part) : Prop where
  sound : t.Sound
  nodup : (ps.flatMap Part.declared).Nodup
  fresh : ∀ a ∈ ps.flatMap Part.declared, ∀ name, t.lookup (a, name) = none

structure Folding (ps : List Part) (R : Replaced × List Alias → α → Prop) (t : Replaced)
    (r : α × Replaced) : Prop where
  sound : r.2.Sound
  kept : ∀ a ∉ ps.flatMap Part.declared, ∀ name, r.2.lookup (a, name) = t.lookup (a, name)
  makes : ∀ (final : Replaced) (V : List Alias), (∀ a ∈ ps.flatMap Part.declared, final.Settled r.2 a) →
    (∀ a ∈ V, final.Settled t a) → R (final, V) r.1

def Folds (ps : List Part) (R : Replaced × List Alias → α → Prop) (act : StateM Replaced α) : Prop :=
  ∀ t : Replaced, t.Ready ps → Folding ps R t (act.run t)

theorem Replaced.Ready.append (h : t.Ready (ps ++ qs)) : t.Ready ps ∧ t.Ready qs
    ∧ ∀ a ∈ ps.flatMap Part.declared, a ∉ qs.flatMap Part.declared := by
  have nodup := h.nodup
  have fresh := h.fresh
  rw [List.flatMap_append] at nodup fresh
  obtain ⟨left, right, disjoint⟩ := List.nodup_append.mp nodup
  exact ⟨⟨h.sound, left, fun a ha => fresh a (List.mem_append_left _ ha)⟩,
    ⟨h.sound, right, fun a ha => fresh a (List.mem_append_right _ ha)⟩,
    fun a ha hq => disjoint a ha a hq rfl⟩

theorem Folds.pure {R : Replaced × List Alias → α → Prop} {a : α} (h : ∀ w, R w a) :
    Folds [] R (Pure.pure a) :=
  fun _ ready => ⟨ready.sound, fun _ _ _ => rfl, fun _ _ _ _ => h _⟩

/-- What comes later in a walk sees what was declared before. -/
theorem Folds.bind {R : Replaced × List Alias → α → Prop} {S : α → Replaced × List Alias → β → Prop}
    {R' : Replaced × List Alias → β → Prop} {act : StateM Replaced α} {next : α → StateM Replaced β}
    (first : Folds ps R act) (rest : ∀ a, Folds qs (S a) (next a))
    (both : ∀ final V a b, R (final, V) a →
      (∀ W : List Alias, (∀ x ∈ W, x ∈ V ∨ x ∈ ps.flatMap Part.declared) → S a (final, W) b) →
      R' (final, V) b) :
    Folds (ps ++ qs) R' (act >>= next) := by
  intro t ready
  obtain ⟨left, right, apart⟩ := ready.append
  have one := first t left
  have fresh : ∀ a ∈ qs.flatMap Part.declared, ∀ name, (act.run t).2.lookup (a, name) = none :=
    fun a ha name => (one.kept a (fun h => apart a h ha) name).trans (right.fresh a ha name)
  have two := rest (act.run t).1 (act.run t).2 ⟨one.sound, right.nodup, fresh⟩
  refine ⟨two.sound, fun a ha name => ?_, fun final V later seen => ?_⟩
  · rw [List.flatMap_append, List.mem_append, not_or] at ha
    exact (two.kept a ha.2 name).trans (one.kept a ha.1 name)
  · rw [List.flatMap_append] at later
    -- What the first action declared is as it is in the end when the second one starts.
    have between : ∀ a ∈ ps.flatMap Part.declared, final.Settled (act.run t).2 a := fun a ha name =>
      (two.kept a (apart a ha) name).symm.trans (later a (List.mem_append_left _ ha) name)
    have seen' : ∀ a ∈ V, final.Settled (act.run t).2 a := by
      intro a ha
      by_cases own : a ∈ ps.flatMap Part.declared
      · exact between a own
      · exact fun name => (one.kept a own name).trans (seen a ha name)
    exact both final V _ _ (one.makes final V between seen) fun W hW =>
      two.makes final W (fun a ha => later a (List.mem_append_right _ ha)) fun a ha =>
        (hW a ha).elim (seen' a) (between a)

def folding : Sequence (StateM Replaced) Part (Replaced × List Alias) where
  does ps R act := Folds ps R act
  pure h := .pure h
  bind first rest := Folds.bind first rest fun _ V _ _ ha hb => hb V (fun _ => .inl) ha

theorem Replaced.Ready.under {p : Part} (h : t.Ready [p]) : t.Ready p.parts
    ∧ (∀ a ∈ p.binds, a ∉ p.parts.flatMap Part.declared)
    ∧ ∀ a ∈ p.binds, ∀ name, t.lookup (a, name) = none := by
  have nodup := h.nodup
  have fresh := h.fresh
  rw [List.flatMap_singleton, p.declared_eq] at nodup fresh
  obtain ⟨-, under, disjoint⟩ := List.nodup_append.mp nodup
  exact ⟨⟨h.sound, under, fun a ha => fresh a (List.mem_append_right _ ha)⟩,
    fun a ha hp => disjoint a ha a hp rfl, fun a ha => fresh a (List.mem_append_left _ ha)⟩

/-- A walk through the parts of a part, under whose own aliases no column is replaced. -/
theorem Folds.close {p : Part} {R R' : Replaced × List Alias → α → Prop} {act : StateM Replaced α}
    (walk : Folds p.parts R act) (wanted : ∀ (final : Replaced) (V : List Alias) (a : α),
      (∀ b ∈ p.binds, ∀ name, final.lookup (b, name) = none) → R (final, V) a → R' (final, V) a) :
    Folds [p] R' act := by
  intro t ready
  obtain ⟨under, apart, fresh⟩ := ready.under
  have walked := walk t under
  refine ⟨walked.sound, fun a ha => walked.kept a fun h => ha ?_, fun final V later seen => ?_⟩
  · rw [List.flatMap_singleton, p.declared_eq]
    exact List.mem_append_right _ h
  · rw [List.flatMap_singleton, p.declared_eq] at later
    refine wanted final V _ (fun b hb name => ?_)
      (walked.makes final V (fun a ha => later a (List.mem_append_right _ ha)) seen)
    rw [← later b (List.mem_append_left _ hb) name, walked.kept b (apart b hb) name, fresh b hb name]

end RepeatedColumns

theorem Part.lasting_floatless : Lasting Floatless where
  expr shaped h := by
    cases shaped <;> exact h
  select _ _ := trivial
  projection _ _ := trivial

structure Expr.Folded (tables : Tables) (final : RepeatedColumns.Replaced) (V : List Alias)
    (e e' : Expr) : Prop where
  forth : e.Mirrors tables final.Stands V e'
  back : e'.Mirrors tables (fun a => flip (final.Stands a)) V e
  floatless : (Part.expr e').Every Part.Floatless

structure Select.Folded (tables : Tables) (final : RepeatedColumns.Replaced) (V : List Alias)
    (s s' : Select Expr) : Prop where
  forth : s.Mirrors tables final.Stands V s'
  back : s'.Mirrors tables (fun a => flip (final.Stands a)) V s
  floatless : (Part.select s').Every Part.Floatless

structure Select.Rebuilt (tables : Tables) (final : RepeatedColumns.Replaced) (V : List Alias)
    (s s' : Select Expr) : Prop where
  rel : s'.rel = s.rel
  forth : s.Echoes tables final.Stands V s'
  back : s'.Echoes tables (fun a => flip (final.Stands a)) V s
  floatless : (Part.select s').Every Part.Floatless

structure Projection.Folded (tables : Tables) (final : RepeatedColumns.Replaced) (V : List Alias)
    (p p' : Projection Expr) : Prop where
  forth : p.Mirrors tables final.Stands V p'
  back : p'.Mirrors tables (fun a => flip (final.Stands a)) V p
  floatless : (Part.projection p').Every Part.Floatless

section Walking

variable {tables : Tables} {final : RepeatedColumns.Replaced} {V : List Alias} {e e' : Expr}

theorem Expr.Level.of_shaped {Q : Expr → Expr → Prop} {QS : Select Expr → Select Expr → Prop}
    {QP : Projection Expr → Projection Expr → Prop} (level : e.Level) (shaped : e.Shaped Q QS QP e') :
    e'.Level := by
  cases shaped <;> exact level

/-- Nodes whose parts see what they see. -/
theorem Expr.Folded.of_shaped (level : e.Level) (floatless : Part.Floatless (.expr e))
    (shaped : e.Shaped (Expr.Folded tables final V) (Select.Folded tables final V)
      (Projection.Folded tables final V) e') : e.Folded tables final V e' where
  forth := .of_shaped (shaped.imp (fun _ _ _ h => h.forth) (fun _ _ _ h => h.forth) fun _ _ _ h => h.forth) level
  back := .of_shaped (shaped.flip.imp (fun _ _ _ h => h.back) (fun _ _ _ h => h.back) fun _ _ _ h => h.back)
    (level.of_shaped shaped)
  floatless := (shaped.imp (fun _ _ _ h => h.floatless) (fun _ _ _ h => h.floatless) fun _ _ _ h =>
    h.floatless).every (Part.lasting_floatless.expr shaped floatless)

abbrev Expr.FoldsTo (tables : Tables) (e : Expr) : Prop :=
  Folds [.expr e] (fun w e' => e.Folded tables w.1 w.2 e') e.foldColumns

abbrev Select.FoldsTo (tables : Tables) (s : Select Expr) : Prop :=
  Folds [.select s] (fun w s' => s.Folded tables w.1 w.2 s') s.foldColumns

abbrev Select.RebuildsTo (tables : Tables) (s : Select Expr) : Prop :=
  Folds (Part.select s).parts (fun w s' => s.Rebuilt tables w.1 w.2 s') (s.traverse fun e _ => e.foldColumns)

abbrev Projection.FoldsTo (tables : Tables) (p : Projection Expr) : Prop :=
  Folds [.projection p] (fun w p' => p.Folded tables w.1 w.2 p') p.foldColumns

/-- A column is read as it will be in the end, if its alias is in sight. -/
theorem Expr.FoldsTo.column (c : Column) : (Expr.column c).FoldsTo tables := by
  intro t ready
  let c' := (t.lookup (c.rel, c.name)).getD c
  have run : (Expr.column c).foldColumns.run t = (.column c', t) := by
    rw [Expr.foldColumns]
    rfl
  rw [run]
  refine ⟨ready.sound, fun _ _ _ => rfl, fun final V _ seen => ?_⟩
  have rel : c.rel = c'.rel := by
    cases h : t.lookup (c.rel, c.name) with
    | none => simp [c', h]
    | some first => simp [c', h, ready.sound.rel_of_lookup h]
  have name : c.rel ∈ V → final.standIn c.rel c.name = c'.name := by
    intro visible
    rw [Replaced.standIn, ← seen c.rel visible]
    cases h : t.lookup (c.rel, c.name) <;> simp [c', h]
  refine ⟨.column rel fun visible row row' h => ?_, .column rel.symm fun visible row' row h => ?_, ?_⟩
  · rw [h c.name, name visible]
  · rw [← rel] at visible h
    rw [h c.name, name visible]
  · exact .node trivial (by simp [Part.parts])

theorem Expr.FoldsTo.level (level : e.Level) (floatless : Part.Floatless (.expr e))
    (onExpr : ∀ c, Part.expr c ∈ (Part.expr e).parts → c.FoldsTo tables)
    (onSelect : ∀ s, Part.select s ∈ (Part.expr e).parts → s.FoldsTo tables)
    (onProjection : ∀ p, Part.projection p ∈ (Part.expr e).parts → p.FoldsTo tables) :
    e.FoldsTo tables := by
  have walk := folding.expr (V := id) e onExpr onSelect onProjection
  rw [List.map_id] at walk
  have noColumn : ∀ c, e ≠ .column c := by
    rintro c rfl
    exact level
  have noSet : ∀ rel kind s t, e ≠ .setOp rel kind s t := by
    rintro rel kind s t rfl
    exact level
  rw [Expr.FoldsTo, Expr.foldColumns.eq_3 e noColumn noSet]
  exact Folds.close walk fun final V e' _ shaped => .of_shaped level floatless shaped

theorem Expr.FoldsTo.table (t : Table) : (Expr.table t).FoldsTo tables := by
  have walk : Folds (Part.expr (.table t)).parts (fun _ e' => e' = .table t) (Expr.table t).foldColumns := by
    rw [Expr.foldColumns.eq_3 _ (by simp) (by simp)]
    exact .pure fun _ => rfl
  refine Folds.close walk fun final V e' own same => ?_
  subst same
  have self := Replaced.stands_self (own t.rel (by simp [Part.binds]))
  exact ⟨.table self, .table self, .node trivial (by simp [Part.parts])⟩

/-- The operands of a set operation keep their columns, so that these go on to match by position. -/
theorem Expr.FoldsTo.setOp {rel : Alias} {kind : SetKind} {s t : Select Expr}
    (hs : s.RebuildsTo tables) (ht : t.RebuildsTo tables) :
    (Expr.setOp rel kind s t).FoldsTo tables := by
  have walk : Folds (Part.expr (.setOp rel kind s t)).parts (fun w e' => ∃ s' t', e' = .setOp rel kind s' t'
      ∧ s.Rebuilt tables w.1 w.2 s' ∧ t.Rebuilt tables w.1 w.2 t') (Expr.setOp rel kind s t).foldColumns := by
    rw [Expr.foldColumns]
    have left : Folds [.select s] (fun w s' => s.Rebuilt tables w.1 w.2 s') _ :=
      Folds.close hs fun _ _ _ _ h => h
    have right : Folds [.select t] (fun w t' => t.Rebuilt tables w.1 w.2 t') _ :=
      Folds.close ht fun _ _ _ _ h => h
    exact folding.bind left fun s' => folding.finish right fun t' _ ht hs => ⟨s', t', rfl, hs, ht⟩
  refine Folds.close walk ?_
  rintro final V _ own ⟨s', t', rfl, hs, ht⟩
  have self := Replaced.stands_self (own rel (by simp [Part.binds]))
  exact ⟨.setOp self hs.forth ht.forth, .setOp self hs.back ht.back,
    Expr.Shaped.every (e := .setOp rel kind s t) (.setOp rel kind hs.floatless ht.floatless) trivial⟩

/-- The right side of a join is walked when the left one is done, and the condition when both are. -/
theorem Expr.FoldsTo.join {kind : JoinKind} {left right : Expr} {on : Option Expr}
    (hl : left.FoldsTo tables) (hr : right.FoldsTo tables) (hon : ∀ c ∈ on, c.FoldsTo tables) :
    (Expr.join kind left right on).FoldsTo tables := by
  have walk : Folds (Part.expr (.join kind left right on)).parts
      (fun w e' => ∃ left' right' on', e' = .join kind left' right' on' ∧ left.Folded tables w.1 w.2 left'
        ∧ right.Folded tables w.1 (left.declares ++ w.2) right'
        ∧ Option.Rel (Expr.Folded tables w.1 (right.declares ++ (left.declares ++ w.2))) on on')
      (Expr.join kind left right on).foldColumns := by
    rw [Expr.foldColumns.eq_3 _ (by simp) (by simp)]
    change Folds ([.expr left] ++ ([.expr right] ++ on.toList.map .expr)) _ _
    refine Folds.bind (S := fun left' w e' => ∃ right' on', e' = Expr.join kind left' right' on'
        ∧ right.Folded tables w.1 w.2 right'
        ∧ Option.Rel (Expr.Folded tables w.1 (right.declares ++ w.2)) on on')
      hl (fun left' => ?_) ?_
    · refine Folds.bind (S := fun right' w e' => ∃ on', e' = Expr.join kind left' right' on'
          ∧ Option.Rel (Expr.Folded tables w.1 w.2) on on')
        hr (fun right' => folding.finish (folding.attachOption hon) fun on' _ h => ⟨on', rfl, h⟩) ?_
      intro final V right' e' hright rest
      obtain ⟨on', rfl, hcond⟩ := rest (right.declares ++ V) fun x hx =>
        (List.mem_append.mp hx).symm.imp id fun here => by
          simpa using Part.declares_subset_declared right here
      exact ⟨right', on', rfl, hright, hcond⟩
    · intro final V left' e' hleft rest
      obtain ⟨right', on', rfl, hright, hcond⟩ := rest (left.declares ++ V) fun x hx =>
        (List.mem_append.mp hx).symm.imp id fun here => by
          simpa using Part.declares_subset_declared left here
      exact ⟨left', right', on', rfl, hleft, hright, hcond⟩
  refine Folds.close walk ?_
  rintro final V _ - ⟨left', right', on', rfl, hleft, hright, hcond⟩
  have declared := hleft.forth.declares
  have declared' := hright.forth.declares
  refine ⟨.join hleft.forth hright.forth (optionRel_imp_mem hcond fun _ _ _ h => h.forth),
    .join hleft.back ?_ ?_, Expr.Shaped.every (e := .join kind left right on) (.join kind hleft.floatless
      hright.floatless (optionRel_imp_mem hcond fun _ _ _ h => h.floatless)) trivial⟩
  · rw [← declared]
    exact hright.back
  · rw [← declared, ← declared']
    exact optionRel_imp_mem (flip_optionRel hcond) fun _ _ _ h => h.back

/-- The projector is walked when the select is done. -/
theorem Projection.FoldsTo.of_parts {p : Projection Expr} (hs : p.select.FoldsTo tables)
    (hprojector : p.projector.FoldsTo tables) : p.FoldsTo tables := by
  have walk : Folds (Part.projection p).parts (fun w p' => p.select.Folded tables w.1 w.2 p'.select
      ∧ p.projector.Folded tables w.1 (p.select.rel :: w.2) p'.projector ∧ p.pick = p'.pick)
      p.foldColumns := by
    rw [Projection.foldColumns]
    change Folds ([.select p.select] ++ [.expr p.projector]) _ _
    refine Folds.bind (S := fun s' w p' => p'.select = s' ∧ p.projector.Folded tables w.1 w.2 p'.projector
        ∧ p.pick = p'.pick) hs
      (fun s' => folding.finish hprojector fun _ _ h => ⟨rfl, h, rfl⟩) ?_
    intro final V s' p' hselect rest
    obtain ⟨rfl, projector, pick⟩ := rest (p.select.rel :: V) fun x hx =>
      (List.mem_cons.mp hx).symm.imp id fun own => by
        simp [own, Part.declared_eq (.select p.select), Part.binds]
    exact ⟨hselect, projector, pick⟩
  refine Folds.close walk ?_
  rintro final V p' - ⟨select, projector, pick⟩
  refine ⟨⟨select.forth, projector.forth, pick⟩, ⟨select.back, ?_, pick.symm⟩,
    Projection.Shaped.every (p := p) ⟨select.floatless, projector.floatless, pick⟩ trivial⟩
  rw [← select.forth.rel]
  exact projector.back

/-- The inner keys of a client join are walked when the projection is done. -/
theorem Expr.FoldsTo.clientJoin {p : Projection Expr} {outer inner : List Expr} (hp : p.FoldsTo tables)
    (houter : ∀ k ∈ outer, k.FoldsTo tables) (hinner : ∀ k ∈ inner, k.FoldsTo tables) :
    (Expr.clientJoin p outer inner).FoldsTo tables := by
  have walk : Folds (outer.map .expr ++ ([.projection p] ++ inner.map .expr))
      (fun w e' => ∃ p' outer' inner', e' = .clientJoin p' outer' inner' ∧ p.Folded tables w.1 w.2 p'
        ∧ List.Forall₂ (Expr.Folded tables w.1 w.2) outer outer'
        ∧ List.Forall₂ (Expr.Folded tables w.1 (p.select.rel :: w.2)) inner inner')
      (Expr.clientJoin p outer inner).foldColumns := by
    rw [Expr.foldColumns.eq_3 _ (by simp) (by simp)]
    refine folding.bind (folding.attach houter) fun outer' => ?_
    refine Folds.bind (S := fun p' w e' => ∃ inner', e' = Expr.clientJoin p' outer' inner'
        ∧ List.Forall₂ (Expr.Folded tables w.1 w.2) inner inner')
      hp (fun p' => folding.finish (folding.attach hinner) fun inner' _ h => ⟨inner', rfl, h⟩) ?_
    intro final V p' e' hprojection rest houter
    obtain ⟨inner', rfl, hkeys⟩ := rest (p.select.rel :: V) fun x hx =>
      (List.mem_cons.mp hx).symm.imp id fun own => by
        simp [own, Part.declared_eq (.projection p), Part.declared_eq (.select p.select), Part.parts, Part.binds]
    exact ⟨p', outer', inner', rfl, hprojection, houter, hkeys⟩
  have parts : (Part.expr (.clientJoin p outer inner)).parts
      = outer.map .expr ++ ([.projection p] ++ inner.map .expr) := by
    simp [Part.parts]
  rw [← parts] at walk
  refine Folds.close walk ?_
  rintro final V _ - ⟨p', outer', inner', rfl, projection, houter, hinner⟩
  refine ⟨.clientJoin projection.forth (houter.imp fun _ _ h => h.forth) (hinner.imp fun _ _ h => h.forth),
    .clientJoin projection.back (houter.flip.imp fun _ _ h => h.back) ?_,
    Expr.Shaped.every (e := .clientJoin p outer inner) (.clientJoin projection.floatless
      (houter.imp fun _ _ h => h.floatless) (hinner.imp fun _ _ h => h.floatless)) trivial⟩
  rw [← projection.forth.select.rel]
  exact hinner.flip.imp fun _ _ h => h.back

/-- The clauses of a select are walked when its source is done. -/
theorem Select.RebuildsTo.of_parts {s : Select Expr}
    (parts : ∀ e, Part.expr e ∈ (Part.select s).parts → e.FoldsTo tables) : s.RebuildsTo tables := by
  have split : (Part.select s).parts
      = s.source.toList.map .expr ++ (Part.select { s with source := none }).parts := by
    simp [Part.parts, Select.exprs]
  have clauses : ∀ e, Part.expr e ∈ (Part.select { s with source := none }).parts → e.FoldsTo tables :=
    fun e he => parts e (by rw [split]; exact List.mem_append_right _ he)
  have walk := folding.select (V := id) { s with source := none } clauses
  rw [List.map_id] at walk
  rw [Select.RebuildsTo, Select.traverse_source, split]
  refine Folds.bind (S := fun source' w s' => ∃ rest,
      { s with source := none }.Shaped (Expr.Folded tables w.1 w.2) rest ∧ s' = { rest with source := source' })
    (folding.option fun e he => parts e (Select.source_mem he))
    (fun source' => folding.finish walk fun rest w shaped => ⟨rest, shaped, rfl⟩) ?_
  intro final V source' s' hsource clauses
  obtain ⟨rest, shaped, rfl⟩ := clauses (s.sourceAliases ++ V) fun a ha =>
    (List.mem_append.mp ha).symm.imp id fun own => by
      rw [Select.sourceAliases] at own
      cases given : s.source with
      | none => simp [given] at own
      | some e =>
        rw [given] at own
        simpa using Part.declares_subset_declared e own
  have visible : Select.sourceAliases { rest with source := source' } = s.sourceAliases := by
    rw [Select.sourceAliases, Select.sourceAliases]
    generalize s.source = source at hsource
    cases hsource with
    | none => rfl
    | some h => exact h.forth.declares.symm
  refine ⟨shaped.rel.symm, .of_clauses (optionRel_imp_mem hsource fun _ _ _ h => h.forth) ?_,
    .of_clauses (optionRel_imp_mem (flip_optionRel hsource) fun _ _ _ h => h.back) ?_, ?_⟩
  · exact { (shaped.imp fun _ _ _ h => h.forth).akin with }
  · rw [visible]
    exact { (shaped.flip.imp fun _ _ _ h => h.back).akin with }
  · have whole : s.Shaped (fun _ c => (Part.expr c).Every Part.Floatless) { rest with source := source' } :=
      { shaped.imp fun _ _ _ h => h.floatless with
        source := optionRel_imp_mem hsource fun _ _ _ h => h.floatless }
    exact whole.every trivial

/-- The rows of a settled select stand for those of the select that it was made of. -/
theorem Select.Folded.of_rebuilt {s s' : Select Expr} {t : RepeatedColumns.Replaced} (names : s.columnNames.Nodup)
    (unused : ∀ name, t.lookup (s'.rel, name) = none)
    (last : final.Settled ((settle s').run t).2 s'.rel) (rebuilt : s.Rebuilt tables final V s') :
    s.Folded tables final V ((settle s').run t).1 := by
  have names' : s'.columnNames.Nodup := rebuilt.forth.names ▸ names
  have aggregates := rebuilt.forth.aggregates.trans (aggregates_settled names' unused)
  have settled := select_settled tables names' unused fun d hd =>
    rebuilt.floatless.part (Select.columns_mem hd)
  have stands : ∀ row row', ((settle s').run t).2.Stands s'.rel row row' → final.Stands s.rel row row' := by
    intro row row' h name
    rw [← rebuilt.rel, ← last.standIn]
    exact h name
  refine ⟨⟨rebuilt.rel.symm, fun σ σ' hσ => ?_, aggregates⟩, ⟨rebuilt.rel, fun σ σ' hσ => ?_, aggregates.symm⟩,
    .node trivial fun q hq => rebuilt.floatless.part (parts_settle s' t hq)⟩
  · refine ((rebuilt.forth.rows σ σ' hσ).trans (settled σ').1).mono ?_
    rintro rows rows' ⟨_, rfl, related⟩
    exact related.imp fun row row' h => ⟨stands row row' h.1, h.2⟩
  · refine ((settled σ).2.trans (rebuilt.back.rows σ σ' hσ)).mono ?_
    rintro rows rows' ⟨_, related, rfl⟩
    refine related.imp fun row' row h => ⟨?_, h.2⟩
    change final.Stands s'.rel row row'
    rw [rebuilt.rel]
    exact stands row row' h.1

/-- Settling a select replaces columns under its own alias. -/
theorem Select.FoldsTo.of_rebuilt {s : Select Expr} (names : s.columnNames.Nodup)
    (rebuilds : s.RebuildsTo tables) : s.FoldsTo tables := by
  intro t ready
  obtain ⟨under, apart, fresh⟩ := ready.under
  have walked := rebuilds t under
  have run : s.foldColumns.run t = (do settle (← s.traverse fun e _ => e.foldColumns)).run t := by
    rw [Select.foldColumns]
  rw [run, StateT.run_bind]
  generalize (s.traverse fun e _ => e.foldColumns).run t = r at walked
  obtain ⟨s', t'⟩ := r
  change Folding _ _ _ ((settle s').run t')
  have rel : s'.rel = s.rel := (walked.makes t' [] (fun _ _ _ => rfl) (by simp)).rel
  have binds : s.rel ∈ (Part.select s).binds := by simp [Part.binds]
  have unused : ∀ name, t'.lookup (s'.rel, name) = none := fun name => by
    rw [rel, walked.kept s.rel (apart _ binds) name, fresh _ binds]
  have elsewhere : ∀ a ≠ s.rel, ∀ name,
      ((settle s').run t').2.lookup (a, name) = t'.lookup (a, name) := fun a other =>
    lookup_fold_apart (rel ▸ other)
  have declared : ∀ a, a ∈ [Part.select s].flatMap Part.declared
      ↔ a = s.rel ∨ a ∈ (Part.select s).parts.flatMap Part.declared := by
    simp [Part.declared_eq (.select s), Part.binds]
  refine ⟨walked.sound.fold, fun a ha name => ?_, fun final V later seen => ?_⟩
  · rw [declared, not_or] at ha
    exact (elsewhere a ha.1 name).trans (walked.kept a ha.2 name)
  · simp only [declared] at later
    refine .of_rebuilt names unused (rel ▸ later s.rel (.inl rfl))
      (walked.makes final V (fun a ha name => ?_) seen)
    have other : a ≠ s.rel := by
      rintro rfl
      exact apart _ binds ha
    rw [← elsewhere a other name, later a (.inr ha) name]

def Part.FoldsTo (tables : Tables) : Part → Prop
  | .expr e => e.FoldsTo tables
  | .select s => s.RebuildsTo tables ∧ s.FoldsTo tables
  | .projection p => p.FoldsTo tables

theorem Part.foldsTo {p : Part} (h : p.Every fun q => q.Floatless ∧ q.NamesOnce) :
    p.FoldsTo tables := by
  induction h with
  | @node p here _ ih =>
    cases p with
    | expr e =>
      change e.FoldsTo tables
      cases e with
      | column c => exact .column c
      | table t => exact .table t
      | setOp rel kind s t =>
        exact .setOp (ih (.select s) (by simp [parts])).1 (ih (.select t) (by simp [parts])).1
      | join kind left right on =>
        exact .join (ih (.expr left) (by simp [parts])) (ih (.expr right) (by simp [parts])) fun c hc =>
          ih (.expr c) (by simp [parts, Option.mem_def.mp hc])
      | clientJoin q outer inner =>
        exact .clientJoin (ih (.projection q) (by simp [parts])) (fun k hk => ih (.expr k) (by simp [parts, hk]))
          fun k hk => ih (.expr k) (by simp [parts, hk])
      | _ =>
        exact .level trivial here.1 (fun c hc => ih _ hc) (fun s hs => (ih _ hs).2) fun q hq => ih _ hq
    | select s =>
      have rebuilds : s.RebuildsTo tables := .of_parts fun e he => ih _ he
      exact ⟨rebuilds, .of_rebuilt here.2 rebuilds⟩
    | projection q =>
      exact Projection.FoldsTo.of_parts (ih (.select q.select) (by simp [parts])).2
        (ih (.expr q.projector) (by simp [parts]))

end Walking

section Pass

variable {tables : Tables} {e : Expr}

/-- Nothing repeats in a tree where repeated columns were dropped. -/
theorem Expr.dropRepeatedColumns_idem (e : Expr) :
    e.dropRepeatedColumns.dropRepeatedColumns = e.dropRepeatedColumns := by
  have still : e.dropRepeatedColumns.foldColumns.run [] = (e.dropRepeatedColumns, []) :=
    Outcomes.Keeps.result (Part.foldsStill (.expr e)) trivial
  change (e.dropRepeatedColumns.foldColumns.run []).1 = _
  rw [still]

theorem Expr.folded_dropRepeatedColumns (tables : Tables) (floatless : (Part.expr e).Every Part.Floatless)
    (apart : (Part.expr e).declared.Nodup) (tidy : e.Tidy) :
    e.Folded tables (e.foldColumns.run []).2 [] e.dropRepeatedColumns := by
  have walk : e.FoldsTo tables := Part.foldsTo (floatless.and tidy)
  have ready : Replaced.Ready [] [.expr e] := ⟨by simp [Replaced.Sound], by simpa using apart, by simp⟩
  exact (walk [] ready).makes _ [] (fun _ _ _ => rfl) (by simp)

/-- A tree answers what it answers when each select computes an expression once, or both fail. -/
theorem Expr.execute_dropRepeatedColumns (floatless : (Part.expr e).Every Part.Floatless)
    (apart : (Part.expr e).declared.Nodup) (tidy : e.Tidy) :
    (e.dropRepeatedColumns.execute tables).toOption = (e.execute tables).toOption := by
  have folded := folded_dropRepeatedColumns tables floatless apart tidy
  have forth := Expr.execute_follows (folded.forth.objects _ _ .root)
  have back := Expr.execute_follows (folded.back.objects _ _ .root)
  exact back.toOption_eq forth

/-- Dropping repeated columns is done once and for all. It changes no answer of a tree without floats
whose aliases and whose column names are distinct. -/
theorem Expr.dropRepeatedColumns_faithful (e : Expr) :
    e.dropRepeatedColumns.dropRepeatedColumns = e.dropRepeatedColumns
      ∧ ((Part.expr e).Every Part.Floatless → (Part.expr e).declared.Nodup → e.Tidy →
        ∀ tables, (e.dropRepeatedColumns.execute tables).toOption = (e.execute tables).toOption) :=
  ⟨e.dropRepeatedColumns_idem, fun floatless apart tidy _ => execute_dropRepeatedColumns floatless apart tidy⟩

end Pass

namespace Sample

def badges : Select Expr :=
  { rel := ⟨2⟩
    columns := [⟨"ID", .column ⟨⟨1⟩, "ID", .int⟩, .int⟩, ⟨"Name", .column ⟨⟨1⟩, "Name", .text⟩, .text⟩,
      ⟨"Badge", .column ⟨⟨1⟩, "Name", .text⟩, .text⟩]
    source := some (.table ⟨⟨1⟩, "Employee", "Staff"⟩), filter := none
    orderBy := [], groupBy := [], distinct := false, skip := none, take := none, reversed := false }

def badgeList : Expr :=
  .projection ⟨{ badges with
      rel := ⟨3⟩
      columns := [⟨"Name", .column ⟨⟨2⟩, "Name", .text⟩, .text⟩, ⟨"Badge", .column ⟨⟨2⟩, "Badge", .text⟩, .text⟩]
      source := some (.select badges)
      orderBy := [⟨.descending, .column ⟨⟨2⟩, "Badge", .text⟩⟩] },
    .construct none [⟨"Name", .column ⟨⟨3⟩, "Name", .text⟩⟩, ⟨"Badge", .column ⟨⟨3⟩, "Badge", .text⟩⟩], none⟩

theorem floatless_badgeList : (Part.expr badgeList).Every Part.Floatless := by
  simp [badgeList, badges, Part.every_iff (p := .expr _), Part.every_iff (p := .select _),
    Part.every_iff (p := .projection _), Part.parts, Select.exprs, Part.Floatless]

/-- Dropping the badges of the inner select makes those of the outer one repeat the names. -/
theorem execute_badgeList : (badgeList.execute tables).toOption.isSome = true
    ∧ (Part.expr badgeList.dropRepeatedColumns).selects.map (·.columnNames) = [["Name"], ["ID", "Name"]]
    ∧ (badgeList.dropRepeatedColumns.execute tables).toOption = (badgeList.execute tables).toOption :=
  ⟨by decide +kernel, by decide +kernel, (Expr.dropRepeatedColumns_faithful badgeList).2 floatless_badgeList
    (by decide +kernel) (Part.tidy_iff_selects.mpr (by decide +kernel)) tables⟩

end Sample

end ObjectQuery
