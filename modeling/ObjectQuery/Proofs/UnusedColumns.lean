import ObjectQuery.Proofs.Marking
import ObjectQuery.Proofs.Narrowing
import ObjectQuery.Sample

/-!
Dropping the columns of a tree that nobody reads does not change what the tree answers. All readers of
a column are walked before the select that declares it, so that the select keeps what is read.
-/

namespace ObjectQuery

open UsedColumns

def Part.Unnumbered : Part → Prop
  | .expr (.rowNumber _) => False
  | _ => True

/-- A select of the first tree that has aggregates and no groups has aggregates in the second one. -/
def Part.Aggregating (p p' : Part) : Prop :=
  ∀ s ∈ p.selects, ∀ s' ∈ p'.selects, s'.rel = s.rel → s.groupBy = [] →
    s.hasAggregates = true → s'.hasAggregates = true

instance (p p' : Part) : Decidable (p.Aggregating p') :=
  inferInstanceAs (Decidable (∀ s ∈ p.selects, ∀ s' ∈ p'.selects, s'.rel = s.rel → s.groupBy = [] →
    s.hasAggregates = true → s'.hasAggregates = true))

theorem Part.Aggregating.sub {p p' q q' : Part} (h : p.Aggregating p') (hq : q.selects ⊆ p.selects)
    (hq' : q'.selects ⊆ p'.selects) : q.Aggregating q' :=
  fun s hs s' hs' => h s (hq hs) s' (hq' hs')

section Aggregating

variable {Q : Expr → Expr → Prop} {QS : Select Expr → Select Expr → Prop}
  {QP : Projection Expr → Projection Expr → Prop}

theorem Expr.Shaped.aggregating {e e' : Expr}
    (h : e.Shaped (fun c c' => (Part.expr c).Aggregating (.expr c') → Q c c')
      (fun s s' => (Part.select s).Aggregating (.select s') → QS s s')
      (fun p p' => (Part.projection p).Aggregating (.projection p') → QP p p') e')
    (aggregating : (Part.expr e).Aggregating (.expr e')) : e.Shaped Q QS QP e' := by
  have first : e.Shaped (fun c c' => (Part.expr c').selects ⊆ (Part.expr e').selects → Q c c')
      (fun s s' => (Part.select s').selects ⊆ (Part.expr e').selects → QS s s')
      (fun p p' => (Part.projection p').selects ⊆ (Part.expr e').selects → QP p p') e' :=
    h.imp (fun c c' hc h sub => h (aggregating.sub (Part.selects_subset hc) sub))
      (fun s s' hs h sub => h (aggregating.sub (Part.selects_subset hs) sub))
      fun p p' hp h sub => h (aggregating.sub (Part.selects_subset hp) sub)
  exact first.imp_right (fun c c' hc h => h (Part.selects_subset hc))
    (fun s s' hs h => h (Part.selects_subset hs)) fun p p' hp h => h (Part.selects_subset hp)

theorem Select.Shaped.aggregating {s s' t : Select Expr}
    (h : s.Shaped (fun c c' => (Part.expr c).Aggregating (.expr c') → Q c c') s')
    (sub : (Part.select s).parts ⊆ (Part.select t).parts)
    (aggregating : (Part.select t).Aggregating (.select s')) : s.Shaped Q s' := by
  have first : s.Shaped (fun c c' => (Part.expr c').selects ⊆ (Part.select s').selects → Q c c') s' :=
    h.imp fun c c' hc h sub' => h (aggregating.sub (Part.selects_subset (sub hc)) sub')
  exact first.imp_right fun c c' hc h => h (Part.selects_subset hc)

end Aggregating

def ownMarks : Expr → List Mark
  | .column c => [(c.rel, c.name)]
  | .scalar s | .inSelect _ s => s.columns.head?.toList.map fun d => (s.rel, d.name)
  | _ => []

theorem markOwn_run (e : Expr) (st : State) :
    ((markOwn e).run st).2.used = ownMarks e ++ st.used := by
  cases e with
  | scalar s | inSelect _ s =>
    rw [markOwn, markFirst, ownMarks]
    cases s.columns <;> rfl
  | aggregate kind argument distinct =>
    cases argument with
    | none =>
      rw [markOwn]
      split <;> rfl
    | some e => rfl
  | _ => rfl

def Select.keepClauses (s : Select Expr) : Walk (Select Expr) := do
  let columns ← s.columns.mapM fun d => do return { d with expr := ← d.expr.keepUsed }
  let take ← s.take.mapM Expr.keepUsed
  let skip ← s.skip.mapM Expr.keepUsed
  let groupBy ← s.groupBy.mapM Expr.keepUsed
  let orderBy ← s.orderBy.mapM fun o => do return { o with expr := ← o.expr.keepUsed }
  let filter ← s.filter.mapM Expr.keepUsed
  let source ← s.source.mapM Expr.keepUsed
  return { s with columns, source, filter, orderBy, groupBy, skip, take }

theorem Select.keepClauses_walks {X W : Type} (S : Sequence Walk X W) (s : Select Expr)
    {V U : Expr → X} {Q : W → Expr → Expr → Prop}
    (readers : ∀ e ∈ s.readers, S.does [V e] (fun w e' => Q w e e') e.keepUsed)
    (source : ∀ e ∈ s.source, S.does [U e] (fun w e' => Q w e e') e.keepUsed) :
    S.does (s.readers.map V ++ s.source.toList.map U) (fun w s' => s.Shaped (Q w) s')
      s.keepClauses := by
  have columns := S.mapM (l := s.columns) (V := fun d => V d.expr)
    (R := fun w (d d' : ColumnDecl Expr) => d.name = d'.name ∧ d.type = d'.type
      ∧ Q w d.expr d'.expr) fun d hd =>
    S.finish (f := fun e => { d with expr := e }) (readers d.expr (by
      simp only [Select.readers, List.mem_append, List.mem_map]
      exact .inl ⟨d, hd, rfl⟩)) fun _ _ h => ⟨rfl, rfl, h⟩
  have orders := S.mapM (l := s.orderBy) (V := fun o => V o.expr)
    (R := fun w (o o' : Order Expr) => o.direction = o'.direction ∧ Q w o.expr o'.expr)
    fun o ho => S.finish (f := fun e => { o with expr := e }) (readers o.expr (by
      simp only [Select.readers, List.mem_append, List.mem_map]
      exact .inr (.inr (.inr (.inr (.inl ⟨o, ho, rfl⟩)))))) fun _ _ h => ⟨rfl, h⟩
  have order : s.readers.map V ++ s.source.toList.map U = s.columns.map (fun d => V d.expr)
      ++ (s.take.toList.map V ++ (s.skip.toList.map V ++ (s.groupBy.map V
      ++ (s.orderBy.map (fun o => V o.expr) ++ (s.filter.toList.map V
      ++ s.source.toList.map U))))) := by
    simp [Select.readers, Function.comp_def]
  rw [order, Select.keepClauses]
  exact S.bind columns fun _ =>
    S.bind (S.option fun e he => readers e (by simp_all [Select.readers])) fun _ =>
    S.bind (S.option fun e he => readers e (by simp_all [Select.readers])) fun _ =>
    S.bind (S.mapM fun e he => readers e (by simp_all [Select.readers])) fun _ =>
    S.bind orders fun _ =>
    S.bind (S.option fun e he => readers e (by simp_all [Select.readers])) fun _ =>
    S.finish (S.option source) fun _ _ hsrc hf ho hg hs ht hc =>
      ⟨rfl, hc, hsrc, hf, ho, hg, rfl, hs, ht, rfl⟩

def UsedColumns.State.kept (st : State) (s : Select Expr) (name : String) : Bool :=
  st.keepAll || s.distinct || st.used.contains (s.rel, name)

theorem Select.keepUsed_run (s : Select Expr) (st : State) :
    let walked := (s.keeping (st.kept s)).keepClauses.run { st with keepAll := false }
    s.keepUsed.run st = (walked.1,
      { used := walked.2.used.filter (·.1 ≠ s.rel), keepAll := st.keepAll }) := by
  rw [Select.keepUsed]
  simp only [optionMapM_attach, List.mapM_subtype, List.unattach_attach, List.unattach_filter]
  rfl

theorem Part.views_keeping (visible : List Alias) (keep : String → Bool) (s : Select Expr) :
    ((Part.select (s.keeping keep)).views visible).Sublist ((Part.select s).views visible) := by
  refine List.Sublist.append_right (List.Sublist.map _ ?_) _
  exact List.Sublist.append_right (List.filter_sublist.map _) _

section Walking

variable (tables : Tables) (C : Mark → Prop)

def reading (C : Mark → Prop) (c : Column) : Prop := C (c.rel, c.name)

def KeptExpr (e e' : Expr) : Prop :=
  (Part.expr e).Aggregating (.expr e') → e'.Narrows tables (reading C) e

def KeptWith (keep : String → Bool) (s s' : Select Expr) : Prop :=
  (Part.select s).Aggregating (.select s') → s'.Narrows tables (reading C) keep s

def KeptSelect (s s' : Select Expr) : Prop :=
  (Part.select s).Aggregating (.select s') → ∃ keep, s'.Narrows tables (reading C) keep s

def KeptProjection (p p' : Projection Expr) : Prop :=
  (Part.projection p).Aggregating (.projection p') → Projection.Narrows tables (reading C) p' p

def Walked (visible : List Alias) : Part → Prop
  | .expr e => ∀ st, Walks [(visible, .expr e)] (fun C => KeptExpr tables C e) st e.keepUsed
  | .select s => ∀ st,
    Walks [(visible, .select s)] (fun C => KeptWith tables C (st.kept s) s) st s.keepUsed
  | .projection p => ∀ st,
    Walks [(visible, .projection p)] (fun C => KeptProjection tables C p) st p.keepUsed

variable {tables C} {visible : List Alias}

theorem Walked.expr {e : Expr} (h : Walked tables visible (.expr e)) :
    marking.does [(visible, .expr e)] (fun C => KeptExpr tables C e) e.keepUsed :=
  fun _ => h

theorem Walked.projection {p : Projection Expr} (h : Walked tables visible (.projection p)) :
    marking.does [(visible, .projection p)] (fun C => KeptProjection tables C p) p.keepUsed :=
  fun _ => h

theorem Walked.select {s : Select Expr} (h : Walked tables visible (.select s)) :
    marking.does [(visible, .select s)] (fun C => KeptSelect tables C s) s.keepUsed :=
  fun _ st => (h st).mono fun _ _ kept aggregating => ⟨_, kept aggregating⟩

section Expressions

variable {e : Expr}

/-- A node over parts that follow those it had. -/
theorem KeptExpr.of_shaped {QS : Select Expr → Select Expr → Prop} {e' : Expr}
    (groupless : Part.Groupless (.expr e)) (unnumbered : Part.Unnumbered (.expr e))
    (own : ∀ m ∈ ownMarks e, C m)
    (shaped : e.Shaped (KeptExpr tables C) (fun s s' => (Part.select s).Aggregating (.select s') →
      QS s s') (KeptProjection tables C) e')
    (selects : ∀ s s', QS s s' → ∃ keep, s'.Narrows tables (reading C) keep s)
    (sets : ∀ rel kind s t, e = .setOp rel kind s t → ∀ q q', QS q q' →
      q'.Narrows tables (reading C) (fun _ => true) q) : KeptExpr tables C e e' := by
  intro aggregating
  refine .of_shaped (shaped.aggregating aggregating).flip (fun s s' h => selects s' s h)
    (fun rel kind s t he q q' h => sets rel kind s t he q' q h) ?_ ?_ ?_
  · rintro c rfl
    exact own _ List.mem_cons_self
  · intro s hs d hd
    refine own (s.rel, d.name) ?_
    have first : (s.rel, d.name) ∈ s.columns.head?.toList.map fun d => (s.rel, d.name) :=
      List.mem_map.mpr ⟨d, Option.mem_toList.mpr hd, rfl⟩
    cases e with
    | scalar t | inSelect _ t =>
      cases hs
      exact first
    | groupAggregate _ _ _ _ => exact groupless.elim
    | _ => cases hs
  · rintro orders rfl
    exact unnumbered.elim

theorem ownMarks_seen (sees : ∀ c, e = .column c → c.rel ∈ visible) :
    ∀ m ∈ ownMarks e, m.1 ∈ visible ∨ m.1 ∈ (Part.expr e).declared := by
  have under : ∀ s : Select Expr, Part.select s ∈ (Part.expr e).parts →
      s.rel ∈ (Part.expr e).declared := fun s hs =>
    Part.declared_subset hs (Part.mem_gather.mpr (.inl (by simp)))
  intro m hm
  cases e with
  | column c =>
    rw [List.mem_singleton.mp hm]
    exact .inl (sees c rfl)
  | scalar s | inSelect _ s =>
    obtain ⟨d, -, rfl⟩ := List.mem_map.mp hm
    exact .inr (under s (by simp [Part.parts]))
  | _ => cases hm

/-- A walk through the parts of a node, behind its own marks. -/
theorem Walks.of_parts (fresh : (Part.expr e).Fresh visible) (groupless : Part.Groupless (.expr e))
    (unnumbered : Part.Unnumbered (.expr e)) (sees : ∀ c, e = .column c → c.rel ∈ visible)
    {act : Walk Expr} {st : State} (st₀ : State) (before : st₀.used = ownMarks e ++ st.used)
    (walk : Walks ((Part.expr e).views visible) (fun C =>
      e.Shaped (KeptExpr tables C) (KeptSelect tables C) (KeptProjection tables C)) st₀ act)
    (noSet : ∀ rel kind s t, e ≠ .setOp rel kind s t) (ends : e.keepUsed.run st = act.run st₀) :
    Walks [(visible, .expr e)] (fun C => KeptExpr tables C e) st e.keepUsed := by
  refine .close fresh (fun _ => id) (ownMarks_seen sees) before walk ?_ ?_
  · rw [ends]
    exact fun m hm _ => hm
  · intro C own _ shaped
    rw [ends]
    exact .of_shaped groupless unnumbered own shaped (fun _ _ h => h)
      fun rel kind s t he => absurd he (noSet rel kind s t)

theorem Walked.join {kind : JoinKind} {left right : Expr} {on : Option Expr}
    (fresh : (Part.expr (.join kind left right on)).Fresh visible)
    (parts : ∀ v ∈ (Part.expr (.join kind left right on)).views visible, Walked tables v.1 v.2) :
    Walked tables visible (.expr (.join kind left right on)) := by
  have onCondition : ∀ c ∈ on, Walked tables (left.declares ++ right.declares ++ visible) (.expr c) :=
    fun c hc => parts (_, .expr c) (by simp_all [Part.views])
  have onRight := parts (if kind.isApply then left.declares ++ visible else visible, .expr right)
    (by simp [Part.views])
  have onLeft := parts (visible, .expr left) (by simp [Part.views])
  have walk : marking.does ((Part.expr (.join kind left right on)).views visible)
      (fun C => Expr.Shaped (KeptExpr tables C) (KeptSelect tables C) (KeptProjection tables C)
        (.join kind left right on)) _ :=
    marking.bind (marking.option fun c hc => (onCondition c hc).expr) fun on' =>
      marking.bind onRight.expr fun right' => marking.finish onLeft.expr fun left' C hl hr hon =>
        .join kind hl hr hon
  intro st
  refine .of_parts fresh trivial trivial (by simp) st rfl (walk fresh.views.1 st) (by simp) ?_
  rw [Expr.keepUsed, optionMapM_attach]

theorem Walked.clientJoin {p : Projection Expr} {outer inner : List Expr}
    (fresh : (Part.expr (.clientJoin p outer inner)).Fresh visible)
    (parts : ∀ v ∈ (Part.expr (.clientJoin p outer inner)).views visible, Walked tables v.1 v.2) :
    Walked tables visible (.expr (.clientJoin p outer inner)) := by
  have onInner : ∀ k ∈ inner, Walked tables (p.select.rel :: visible) (.expr k) :=
    fun k hk => parts (_, .expr k) (by simp_all [Part.views])
  have onOuter : ∀ k ∈ outer, Walked tables visible (.expr k) :=
    fun k hk => parts (_, .expr k) (by simp_all [Part.views])
  have onProjection := parts (visible, .projection p) (by simp [Part.views])
  have walk : marking.does ((Part.expr (.clientJoin p outer inner)).views visible)
      (fun C => Expr.Shaped (KeptExpr tables C) (KeptSelect tables C) (KeptProjection tables C)
        (.clientJoin p outer inner)) _ :=
    marking.bind (marking.mapM fun k hk => (onInner k hk).expr) fun inner' =>
      marking.bind (marking.mapM fun k hk => (onOuter k hk).expr) fun outer' =>
        marking.finish onProjection.projection fun p' C hp ho hi => .clientJoin hp ho hi
  intro st
  refine .of_parts fresh trivial trivial (by simp) st rfl (walk fresh.views.1 st) (by simp) ?_
  rw [Expr.keepUsed]
  simp only [List.mapM_subtype, List.unattach_attach]

theorem Walked.setOp {rel : Alias} {kind : SetKind} {s t : Select Expr}
    (fresh : (Part.expr (.setOp rel kind s t)).Fresh visible)
    (parts : ∀ v ∈ (Part.expr (.setOp rel kind s t)).views visible, Walked tables v.1 v.2) :
    Walked tables visible (.expr (.setOp rel kind s t)) := by
  -- Both operands are walked in a state that keeps all columns.
  have whole : ∀ q : Select Expr, Walked tables visible (.select q) → ∀ st : State, st.keepAll = true →
      Walks [(visible, .select q)] (fun C => KeptWith tables C (fun _ => true) q) st q.keepUsed := by
    intro q h st all
    have kept : st.kept q = fun _ => true := by
      funext name
      simp [State.kept, all]
    exact kept ▸ h st
  have onLeft := parts (visible, .select s) (by simp [Part.views, Part.parts])
  have onRight := parts (visible, .select t) (by simp [Part.views, Part.parts])
  have apart : Apart (visible, .select s) (visible, .select t) := by
    have pairs := fresh.views.1
    simp only [Part.views, Part.parts, List.map_cons, List.map_nil, List.pairwise_cons,
      List.mem_singleton, forall_eq] at pairs
    exact pairs.1
  intro st
  have walk : Walks ((Part.expr (.setOp rel kind s t)).views visible)
      (fun C => Expr.Shaped (KeptExpr tables C) (KeptWith tables C fun _ => true)
        (KeptProjection tables C) (.setOp rel kind s t)) { st with keepAll := true }
      (do return .setOp rel kind (← s.keepUsed) (← t.keepUsed)) := by
    change Walks ([(visible, .select s)] ++ ([(visible, .select t)] ++ [])) _ _ _
    refine .bind (by simpa using apart) (whole s onLeft _ rfl)
      (.bind (by simp) (whole t onRight _ ?_) (.pure fun C ht hs => .setOp rel kind hs ht))
    rw [Select.keepUsed_run]
  have before : ({ st with keepAll := true } : State).used = [] ++ st.used := rfl
  refine .close fresh (fun _ => id) (by simp) before walk ?_ ?_
  · rw [Expr.keepUsed]
    exact fun m hm _ => hm
  · intro C _ _ shaped
    rw [Expr.keepUsed]
    exact .of_shaped trivial trivial (by simp [ownMarks]) shaped (fun _ _ h => ⟨_, h⟩)
      fun _ _ _ _ _ _ _ h => h

theorem Walked.of_node (fresh : (Part.expr e).Fresh visible) (groupless : Part.Groupless (.expr e))
    (unnumbered : Part.Unnumbered (.expr e)) (sees : ∀ c, e = .column c → c.rel ∈ visible)
    (parts : ∀ v ∈ (Part.expr e).views visible, Walked tables v.1 v.2) :
    Walked tables visible (.expr e) := by
  cases e with
  | join kind left right on => exact .join fresh parts
  | clientJoin p outer inner => exact .clientJoin fresh parts
  | setOp rel kind s t => exact .setOp fresh parts
  | _ =>
    intro st
    have walk := marking.expr (V := fun q => (visible, q)) _
      (fun c hc => (parts (visible, .expr c) (List.mem_map_of_mem hc)).expr)
      (fun s hs => (parts (visible, .select s) (List.mem_map_of_mem hs)).select)
      (fun p hp => (parts (visible, .projection p) (List.mem_map_of_mem hp)).projection)
    refine .of_parts fresh groupless unnumbered sees _ (markOwn_run _ st) (walk fresh.views.1 _) (by simp) ?_
    rw [Expr.keepUsed] <;> first | rfl | simp

end Expressions

theorem Walked.of_projection {p : Projection Expr} (fresh : (Part.projection p).Fresh visible)
    (parts : ∀ v ∈ (Part.projection p).views visible, Walked tables v.1 v.2) :
    Walked tables visible (.projection p) := by
  have onProjector := parts (p.select.rel :: visible, .expr p.projector) (by simp [Part.views])
  have onSelect := parts (visible, .select p.select) (by simp [Part.views])
  intro st
  have walk : marking.does ((Part.projection p).views visible) (fun C => Projection.Shaped
      (KeptExpr tables C) (KeptSelect tables C) p) _ :=
    marking.bind onProjector.expr fun projector' => marking.finish onSelect.select
      (f := fun select' => { p with select := select', projector := projector' })
      fun select' C hs he => ⟨hs, he, rfl⟩
  have before : st.used = [] ++ st.used := rfl
  refine .close fresh (fun _ => id) (by simp) before (walk fresh.views.1 st) ?_ ?_
  · rw [Projection.keepUsed]
    exact fun m hm _ => hm
  · intro C _ _ shaped
    rw [Projection.keepUsed]
    exact fun aggregating =>
      ⟨shaped.select (aggregating.sub (Part.selects_subset Projection.select_mem)
          (Part.selects_subset Projection.select_mem)),
        shaped.projector (aggregating.sub (Part.selects_subset Projection.projector_mem)
          (Part.selects_subset Projection.projector_mem)), shaped.pick.symm⟩

/-- The clauses of a select are walked readers first. -/
theorem keepClauses_does {s : Select Expr}
    (readers : ∀ e ∈ s.readers, Walked tables (s.sourceAliases ++ visible) (.expr e))
    (source : ∀ e ∈ s.source, Walked tables visible (.expr e)) :
    marking.does ((Part.select s).views visible) (fun C => s.Shaped (KeptExpr tables C))
      s.keepClauses :=
  s.keepClauses_walks marking (V := fun e => (s.sourceAliases ++ visible, Part.expr e))
    (fun e he => (readers e he).expr) fun e he => (source e he).expr

/-- A select is walked with the columns that it keeps. -/
theorem Walked.of_select {s : Select Expr} (fresh : (Part.select s).Fresh visible)
    (unnumbered : ∀ d ∈ s.columns, Part.Unnumbered (.expr d.expr))
    (parts : ∀ v ∈ (Part.select s).views visible, Walked tables v.1 v.2) :
    Walked tables visible (.select s) := by
  intro st
  have fewer := Part.views_keeping visible (st.kept s) s
  have walk : marking.does ((Part.select (s.keeping (st.kept s))).views visible)
      (fun C => (s.keeping (st.kept s)).Shaped (KeptExpr tables C)) _ := keepClauses_does
    (fun e he => parts (_, .expr e) (fewer.subset (List.mem_append_left _ (List.mem_map_of_mem he))))
    fun e he => parts (_, .expr e)
      (List.mem_append_right _ (List.mem_map_of_mem (Option.mem_toList.mpr he)))
  have before : ({ st with keepAll := false } : State).used = [] ++ st.used := rfl
  have declared : s.rel ∈ (Part.select s).declared := Part.mem_gather.mpr (.inl (by simp))
  refine .close fresh (fun v hv => fewer.subset hv) (by simp) before
    (walk (fresh.views.1.sublist fewer) _) ?_ ?_
  · rw [Select.keepUsed_run]
    refine fun m hm outside => List.mem_filter.mpr ⟨hm, ?_⟩
    rw [decide_eq_true_iff]
    intro same
    exact outside (same ▸ declared)
  · intro C _ known shaped
    rw [Select.keepUsed_run]
    intro aggregating
    refine .of_shaped (shaped.aggregating (Select.parts_keeping _ s) aggregating).flip ?_ ?_ ?_ ?_
    · intro distinct n
      simp [State.kept, distinct]
    · intro c hc hr
      have own : ∀ q ∈ (Part.select s).parts, c.rel ∉ q.declared := fun q hq =>
        hr ▸ fresh.own_rel q hq
      have read := (known (c.rel, c.name) hc (hr ▸ declared) own).resolve_left (by simp)
      rw [hr] at read
      simp [State.kept, read]
    · exact aggregating s s.mem_selects _ (Select.mem_selects _) rfl
    · intro d hd orders he
      have := unnumbered d hd
      rw [he] at this
      exact this

/-- The walk over a tree whose aliases are apart and whose columns read what is in sight. -/
theorem Part.InScope.walked {p : Part} (scope : p.InScope visible) (fresh : p.Fresh visible)
    (groupless : p.Every Part.Groupless) (unnumbered : p.Every Part.Unnumbered) :
    Walked tables visible p := by
  induction scope with
  | @node visible p sees parts ih =>
    have under : ∀ v ∈ p.views visible, v.2 ∈ p.parts := fun v hv =>
      (views_perm visible p).mem_iff.mp (List.mem_map_of_mem hv)
    have ih : ∀ v ∈ p.views visible, Walked tables v.1 v.2 := fun v hv =>
      ih v hv (fresh.views.2 v hv) (groupless.part (under v hv)) (unnumbered.part (under v hv))
    cases p with
    | expr e =>
      exact .of_node fresh groupless.here unnumbered.here (fun c hc => sees c (hc ▸ rfl)) ih
    | select s =>
      exact .of_select fresh (fun d hd => (unnumbered.part (Select.columns_mem hd)).here) ih
    | projection p => exact .of_projection fresh ih

end Walking

/-- Where a tree is executed with success, it is so without the columns that nobody reads. -/
theorem Expr.execute_dropUnusedColumns {tables : Tables} {e : Expr} {v : ClientValue}
    (apart : (Part.expr e).declared.Nodup) (scope : (Part.expr e).InScope [])
    (groupless : (Part.expr e).Every Part.Groupless)
    (unnumbered : (Part.expr e).Every Part.Unnumbered)
    (aggregating : (Part.expr e).Aggregating (.expr e.dropUnusedColumns))
    (h : e.execute tables = .ok v) : e.dropUnusedColumns.execute tables = .ok v := by
  obtain ⟨-, joined, run⟩ := Expr.execute_eq_ok.mp h
  have walked : Walked tables [] (.expr e) := scope.walked ⟨apart, by simp⟩ groupless unnumbered
  obtain ⟨marks, walk⟩ := walked ⟨[], false⟩
  have narrows : e.dropUnusedColumns.Narrows tables (reading (· ∈ marks)) e :=
    walk.result (· ∈ marks) (fun _ hm => hm) (fun _ hm _ => .inl hm) aggregating
  have run := (narrows.objects .root .root (.refl _) []).eq_ok run
  refine Expr.execute_eq_ok.mpr ⟨?_, joined, run⟩
  intro c hc
  rw [hc] at run
  simp [Eval.client, Eval.scalar] at run

namespace Sample

def superior : Select Expr :=
  { rel := ⟨4⟩, columns := [⟨"Name", .column ⟨⟨3⟩, "Name", .text⟩, .text⟩,
      ⟨"Boss", .column ⟨⟨3⟩, "boss_id", .int⟩, .int⟩]
    source := some (.table ⟨⟨3⟩, "Employee", "Staff"⟩)
    filter := some (.equals (.column ⟨⟨3⟩, "ID", .int⟩) (.column ⟨⟨2⟩, "Boss", .int⟩))
    orderBy := [], groupBy := [], distinct := false, skip := none, take := none, reversed := false }

def employees : Select Expr :=
  { superior with
    rel := ⟨2⟩, columns := [⟨"ID", .column ⟨⟨1⟩, "ID", .int⟩, .int⟩,
      ⟨"Name", .column ⟨⟨1⟩, "Name", .text⟩, .text⟩, ⟨"Boss", .column ⟨⟨1⟩, "boss_id", .int⟩, .int⟩]
    source := some (.table ⟨⟨1⟩, "Employee", "Staff"⟩), filter := none }

def withSuperiors : Select Expr :=
  { employees with
    rel := ⟨5⟩, columns := [⟨"ID", .column ⟨⟨2⟩, "ID", .int⟩, .int⟩,
      ⟨"Name", .column ⟨⟨2⟩, "Name", .text⟩, .text⟩, ⟨"Boss", .scalar superior, .text⟩]
    source := some (.select employees) }

def bosses : Expr :=
  .projection ⟨withSuperiors, .construct none [⟨"Name", .column ⟨⟨5⟩, "Name", .text⟩⟩,
    ⟨"Boss", .column ⟨⟨5⟩, "Boss", .text⟩⟩], none⟩

theorem inScope_bosses : (Part.expr bosses).InScope [] := by
  simp [bosses, withSuperiors, employees, superior, Part.inScope_iff (p := .expr _),
    Part.inScope_iff (p := .select _), Part.inScope_iff (p := .projection _), Part.views, Part.parts,
    Select.readers, Select.sourceAliases, Expr.declares, Expr.equals]

theorem groupless_bosses : (Part.expr bosses).Every Part.Groupless := by
  simp [bosses, withSuperiors, employees, superior, Part.every_iff (p := .expr _),
    Part.every_iff (p := .select _), Part.every_iff (p := .projection _), Part.parts, Select.exprs,
    Expr.equals, Part.Groupless]

theorem unnumbered_bosses : (Part.expr bosses).Every Part.Unnumbered := by
  simp [bosses, withSuperiors, employees, superior, Part.every_iff (p := .expr _),
    Part.every_iff (p := .select _), Part.every_iff (p := .projection _), Part.parts, Select.exprs,
    Expr.equals, Part.Unnumbered]

/-- Both trees of the bosses are executed, with the same result; the second one has fewer columns. -/
theorem execute_bosses : ∃ v, bosses.execute tables = .ok v
    ∧ bosses.dropUnusedColumns.execute tables = .ok v
    ∧ (Part.expr bosses.dropUnusedColumns).selects.map (·.columnNames)
      = [["Name", "Boss"], ["Name", "Boss"], ["Name"]] := by
  have executes : (bosses.execute tables).toOption.isSome = true := by
    decide +kernel
  cases h : bosses.execute tables with
  | error e =>
    rw [h] at executes
    cases executes
  | ok v =>
    exact ⟨v, rfl, Expr.execute_dropUnusedColumns (by decide +kernel) inScope_bosses groupless_bosses
      unnumbered_bosses (by decide +kernel) h, by decide +kernel⟩

end Sample

end ObjectQuery
