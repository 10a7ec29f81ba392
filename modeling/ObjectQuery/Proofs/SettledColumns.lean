import ObjectQuery.Proofs.Retracing
import ObjectQuery.Proofs.UnusedColumns

/-!
Dropping unused columns once is enough. What a select keeps is decided by the marks that are made before
the walk comes to it, and all of these are made by nodes that stay in the tree. A second walk meets the
same nodes in the same order, so that it comes to every select in the same state as the first one did.
-/

namespace ObjectQuery

open UsedColumns

def outlasting : Sequence Walk Part Unit where
  does ps R act := ∀ st : State, R () (act.run st).1
    ∧ ∀ m ∈ st.used, (∀ p ∈ ps, m.1 ∉ p.declared) → m ∈ (act.run st).2.used
  pure h _ := ⟨h (), fun _ hm _ => hm⟩
  bind h hn st :=
    ⟨(hn _ _).1 (h st).1, fun m hm outside => by
      rw [List.forall_mem_append] at outside
      exact (hn _ _).2 m ((h st).2 m hm outside.1) outside.2⟩

def Select.Retained (s s' : Select Expr) : Prop := s.rel = s'.rel ∧ s.distinct = s'.distinct

abbrev Expr.Rebuilt (e e' : Expr) : Prop :=
  e.Shaped (fun _ _ => True) (fun _ _ => True) (fun _ _ => True) e'

def Part.Outlasted : Part → Prop
  | .expr e => outlasting.does [.expr e] (fun _ => e.Rebuilt) e.keepUsed
  | .select s => outlasting.does [.select s] (fun _ => s.Retained) s.keepUsed
  | .projection p => outlasting.does [.projection p] (fun _ _ => True) p.keepUsed

section Outlasting

variable {α : Type} {ps : List Part} {p : Part} {R R' : Unit → α → Prop} {act : Walk α}

theorem outlasting_mono (h : outlasting.does ps R act) (sub : ∀ a, R () a → R' () a) :
    outlasting.does ps R' act :=
  fun st => ⟨sub _ (h st).1, (h st).2⟩

theorem outlasting_sub (h : outlasting.does ps R act) (sub : ps ⊆ p.parts) :
    outlasting.does [p] R act :=
  fun st => ⟨(h st).1, fun m hm outside => (h st).2 m hm fun _ hq inside =>
    outside p List.mem_cons_self (Part.declared_subset (sub hq) inside)⟩

end Outlasting

def Expr.WalkedInOrder : Expr → Prop
  | .join .. | .clientJoin .. | .setOp .. => False
  | _ => True

theorem Expr.keepUsed_eq {e : Expr} (inOrder : e.WalkedInOrder) :
    e.keepUsed = (do
      markOwn e
      e.traverse (fun c _ => c.keepUsed) (fun s _ => s.keepUsed) fun p _ => p.keepUsed) := by
  cases e with
  | join _ _ _ _ | clientJoin _ _ _ | setOp _ _ _ _ => exact inOrder.elim
  | _ => rw [Expr.keepUsed] <;> simp

theorem Expr.outlasts_of_parts {e : Expr}
    (onExpr : ∀ c, Part.expr c ∈ (Part.expr e).parts →
      outlasting.does [.expr c] (fun _ _ => True) c.keepUsed)
    (onSelect : ∀ s, Part.select s ∈ (Part.expr e).parts →
      outlasting.does [.select s] (fun _ _ => True) s.keepUsed)
    (onProjection : ∀ p, Part.projection p ∈ (Part.expr e).parts →
      outlasting.does [.projection p] (fun _ _ => True) p.keepUsed) :
    outlasting.does [.expr e] (fun _ => e.Rebuilt) (do
      markOwn e
      e.traverse (fun c _ => c.keepUsed) (fun s _ => s.keepUsed) fun p _ => p.keepUsed) := by
  intro st
  have walk := outlasting.expr (V := id) e (fun c hc => onExpr c hc) (fun s hs => onSelect s hs)
    (fun p hp => onProjection p hp) ((markOwn e).run st).2
  refine ⟨walk.1, fun m hm outside => walk.2 m ?_ fun q hq inside => ?_⟩
  · rw [markOwn_run]
    exact List.mem_append_right _ hm
  · exact outside _ List.mem_cons_self (Part.declared_subset (by simpa using hq) inside)

theorem Part.outlasted (p : Part) : p.Outlasted := by
  have under : ∀ q ∈ p.parts, q.Outlasted := fun q hq => outlasted q
  have onExpr : ∀ c, Part.expr c ∈ p.parts →
      outlasting.does [.expr c] (fun _ _ => True) c.keepUsed :=
    fun c hc => outlasting_mono (under _ hc) fun _ _ => trivial
  have onSelect : ∀ s, Part.select s ∈ p.parts →
      outlasting.does [.select s] (fun _ _ => True) s.keepUsed :=
    fun s hs => outlasting_mono (under _ hs) fun _ _ => trivial
  have onProjection : ∀ q, Part.projection q ∈ p.parts →
      outlasting.does [.projection q] (fun _ _ => True) q.keepUsed := fun q hq => under _ hq
  cases p with
  | projection p =>
    have walk : outlasting.does ([Part.expr p.projector] ++ [Part.select p.select]) (fun _ _ => True) _ :=
      outlasting.bind (onExpr _ Projection.projector_mem) fun projector =>
        outlasting.finish (f := fun select => { p with select, projector })
          (onSelect _ Projection.select_mem) fun _ _ _ _ => trivial
    rw [Outlasted, Projection.keepUsed]
    exact outlasting_sub walk (by simp [Part.parts])
  | select s =>
    intro st
    have inside := Select.parts_keeping (st.kept s) s
    have walk := (s.keeping (st.kept s)).keepClauses_walks outlasting (V := Part.expr)
      (U := Part.expr)
      (fun e he => onExpr e (inside (List.mem_map_of_mem
        ((Select.readers_perm _).subset (List.mem_append_left _ he)))))
      (fun e he => onExpr e (inside (List.mem_map_of_mem
        ((Select.readers_perm _).subset (List.mem_append_right _ (Option.mem_toList.mpr he))))))
      { st with keepAll := false }
    rw [Select.keepUsed_run]
    refine ⟨⟨walk.1.rel, walk.1.distinct⟩, fun m hm outside => List.mem_filter.mpr ⟨?_, ?_⟩⟩
    · refine walk.2 m hm fun q hq here => outside _ List.mem_cons_self ?_
      rw [← List.map_append] at hq
      exact declared_subset (inside ((Select.readers_perm _).map Part.expr |>.subset hq)) here
    · rw [decide_eq_true_iff]
      intro same
      exact outside _ List.mem_cons_self (same ▸ binds_subset (.select s) List.mem_cons_self)
  | expr e =>
    cases e with
    | join kind a b on =>
      have walk : outlasting.does (on.toList.map Part.expr ++ ([Part.expr b] ++ [Part.expr a]))
          (fun _ => Expr.Rebuilt (.join kind a b on)) _ :=
        outlasting.bind (outlasting.option fun c hc => onExpr c (by simp [parts, Option.mem_def.mp hc])) fun on' =>
          outlasting.bind (onExpr b (by simp [parts])) fun right =>
            outlasting.finish (f := fun left => .join kind left right on')
              (onExpr a (by simp [parts])) fun _ _ _ _ hon => .join kind trivial trivial hon
      rw [Outlasted, Expr.keepUsed, optionMapM_attach]
      exact outlasting_sub walk (by simp [parts])
    | clientJoin p outer inner =>
      have walk : outlasting.does (inner.map Part.expr ++ (outer.map Part.expr ++ [Part.projection p]))
          (fun _ => Expr.Rebuilt (.clientJoin p outer inner)) _ :=
        outlasting.bind (outlasting.mapM fun k hk => onExpr k (by simp [parts, hk])) fun inner' =>
          outlasting.bind (outlasting.mapM fun k hk => onExpr k (by simp [parts, hk])) fun outer' =>
            outlasting.finish (f := fun p => .clientJoin p outer' inner')
              (onProjection p (by simp [parts])) fun _ _ _ ho hi => .clientJoin trivial ho hi
      rw [Outlasted, Expr.keepUsed]
      simp only [List.mapM_subtype, List.unattach_attach]
      refine outlasting_sub walk ?_
      simp [parts]
    | setOp rel kind s t =>
      have walk : outlasting.does ([Part.select s] ++ [Part.select t])
          (fun _ => Expr.Rebuilt (.setOp rel kind s t)) _ :=
        outlasting.bind (onSelect s (by simp [parts])) fun left =>
          outlasting.finish (f := fun right => .setOp rel kind left right)
            (onSelect t (by simp [parts])) fun _ _ _ _ => .setOp rel kind trivial trivial
      rw [Outlasted, Expr.keepUsed]
      exact outlasting_sub (p := .expr (.setOp rel kind s t))
        (fun st => walk { st with keepAll := true }) (by simp [parts])
    | _ =>
      rw [Outlasted, Expr.keepUsed_eq (by trivial)]
      exact Expr.outlasts_of_parts onExpr onSelect onProjection
termination_by p.weight
decreasing_by exact weight_lt hq

def Part.Settled : Part → Prop
  | .expr e => Retraced Expr.keepUsed e.keepUsed
  | .select s => Retraced Select.keepUsed s.keepUsed
  | .projection p => Retraced Projection.keepUsed p.keepUsed

section Selects

variable {s : Select Expr}

theorem Select.keepClauses_shaped (s : Select Expr) (st : State) :
    s.Shaped (fun _ _ => True) (s.keepClauses.run st).1 := by
  have reader : ∀ e : Expr, outlasting.does [.expr e] (fun _ _ => True) e.keepUsed := fun e =>
    outlasting_mono (Part.outlasted (.expr e)) fun _ _ => trivial
  exact (s.keepClauses_walks outlasting (V := Part.expr) (U := Part.expr) (fun e _ => reader e)
    (fun e _ => reader e) st).1

theorem Select.keepClauses_retraced (h : ∀ e ∈ s.exprs, Retraced Expr.keepUsed e.keepUsed) :
    Retraced Select.keepClauses s.keepClauses := by
  have clause : ∀ e, Part.expr e ∈ (Part.select s).parts → Retraced Expr.keepUsed e.keepUsed :=
    fun e he => h e (by simpa [Part.parts] using he)
  have columns := Retraced.mapM (l := s.columns) fun d hd => ColumnDecl.retraced (clause _ (columns_mem hd))
  have take := Retraced.optionMapM (o := s.take) fun e he => clause e (take_mem he)
  have skip := Retraced.optionMapM (o := s.skip) fun e he => clause e (skip_mem he)
  have groupBy := Retraced.mapM (l := s.groupBy) fun e he => clause e (groupBy_mem he)
  have orderBy := Retraced.mapM (l := s.orderBy) fun o ho => Order.retraced (clause _ (orderBy_mem ho))
  have filter := Retraced.optionMapM (o := s.filter) fun e he => clause e (filter_mem he)
  have source := Retraced.optionMapM (o := s.source) fun e he => clause e (source_mem he)
  have clauses := columns.pair (take.pair (skip.pair (groupBy.pair (orderBy.pair (filter.pair source)))))
  exact clauses.build (m := fun p => { s with
      columns := p.1, take := p.2.1, skip := p.2.2.1, groupBy := p.2.2.2.1, orderBy := p.2.2.2.2.1
      filter := p.2.2.2.2.2.1, source := p.2.2.2.2.2.2 })
    (by simp [keepClauses]) fun _ => by simp [keepClauses]

theorem Select.keeping_eq_self {keep : String → Bool} (h : ∀ d ∈ s.columns, keep d.name = true) :
    s.keeping keep = s := by
  rw [keeping, List.filter_eq_self.mpr h]

/-- The second walk keeps all columns that the first one has kept, and comes to their clauses in the
state of the first one. -/
theorem Part.Settled.of_select (h : ∀ e ∈ s.exprs, Retraced Expr.keepUsed e.keepUsed) :
    (Part.select s).Settled := by
  intro st
  let kept := s.keeping (st.kept s)
  have shaped := kept.keepClauses_shaped { st with keepAll := false }
  have clauses := Select.keepClauses_retraced (s := kept) (fun e he => by
    have under := Select.parts_keeping (st.kept s) s (List.mem_map_of_mem (f := Part.expr) he)
    exact h e (by simpa [Part.parts] using under)) { st with keepAll := false }
  have known := Select.keepUsed_run s st
  let s' := (kept.keepClauses.run { st with keepAll := false }).1
  have keeps : st.kept s' = st.kept s := by
    funext name
    rw [State.kept, State.kept, ← shaped.rel, ← shaped.distinct]
    rfl
  have stays : s'.keeping (st.kept s') = s' := by
    refine Select.keeping_eq_self fun d hd => ?_
    obtain ⟨d₀, hd₀, same, -⟩ := exists_of_forall₂_right shaped.columns d hd
    rw [keeps, ← same]
    exact (List.mem_filter.mp hd₀).2
  rw [known, Select.keepUsed_run s', stays, clauses, ← shaped.rel]
  rfl

theorem markOwn_first {e : Expr}
    (reads : ownMarks e = s.columns.head?.toList.map fun d => (s.rel, d.name)) (st : State) :
    ∀ d ∈ s.columns.head?, (s.rel, d.name) ∈ ((markOwn e).run st).2.used := by
  intro d hd
  rw [markOwn_run, reads]
  exact List.mem_append_left _ (List.mem_map.mpr ⟨d, Option.mem_toList.mpr hd, rfl⟩)

/-- The first column of a select stays the first one where it is read. -/
theorem Select.markFirst_keepUsed {st : State} (s : Select Expr)
    (marked : ∀ d ∈ s.columns.head?, (s.rel, d.name) ∈ st.used) :
    markFirst (s.keepUsed.run st).1 = markFirst s := by
  have shaped := (s.keeping (st.kept s)).keepClauses_shaped { st with keepAll := false }
  rw [Select.keepUsed_run]
  dsimp only
  generalize ((s.keeping (st.kept s)).keepClauses.run { st with keepAll := false }).1 = s' at shaped ⊢
  have rel : s.rel = s'.rel := shaped.rel
  have columns : List.Forall₂ _ (s.columns.filter (st.kept s ·.name)) s'.columns := shaped.columns
  rw [markFirst, markFirst]
  cases hs : s.columns with
  | nil =>
    rw [hs, List.filter_nil, List.forall₂_nil_left_iff] at columns
    rw [columns]
  | cons d rest =>
    have kept : st.kept s d.name = true := by
      simp [State.kept, marked d (by simp [hs])]
    rw [hs, List.filter_cons, if_pos kept, List.forall₂_cons_left_iff] at columns
    obtain ⟨d', rest', same, -, columns⟩ := columns
    rw [columns, rel]
    exact congrArg (mark s'.rel) same.1.symm

end Selects

section Expressions

variable {e e' : Expr}

theorem Expr.WalkedInOrder.rebuilt (inOrder : e.WalkedInOrder) (h : e.Rebuilt e') :
    e'.WalkedInOrder := by
  cases h with
  | join _ _ _ _ | clientJoin _ _ _ | setOp _ _ _ _ => exact inOrder.elim
  | _ => trivial

def Expr.ReadsFirst : Expr → Prop
  | .scalar _ | .inSelect _ _ => True
  | _ => False

theorem Expr.Rebuilt.markOwn_eq (h : e.Rebuilt e') (plain : ¬e.ReadsFirst) : markOwn e' = markOwn e := by
  cases h with
  | scalar _ | inSelect _ _ => exact absurd trivial plain
  | aggregate kind distinct h => cases h <;> rfl
  | _ => rfl

/-- Where a node makes the same marks over the parts it gets, the second walk comes to its parts in the
state of the first one. -/
theorem Part.Settled.of_parts (inOrder : e.WalkedInOrder) (parts : ∀ q ∈ (Part.expr e).parts, q.Settled)
    (own : ∀ st, markOwn (e.keepUsed.run st).1 = markOwn e) : (Part.expr e).Settled := by
  intro st
  have rebuilt : e.Rebuilt (e.keepUsed.run st).1 := (Part.outlasted (.expr e) st).1
  have walk := Expr.traverse_retraced e (fun c hc => parts _ hc) (fun s hs => parts _ hs)
    (fun p hp => parts _ hp) ((markOwn e).run st).2
  have own := own st
  rw [Expr.keepUsed_eq (inOrder.rebuilt rebuilt), own]
  rw [Expr.keepUsed_eq inOrder]
  exact walk

theorem Part.Settled.of_join {kind : JoinKind} {a b : Expr} {on : Option Expr}
    (parts : ∀ q ∈ (Part.expr (.join kind a b on)).parts, q.Settled) :
    (Part.expr (.join kind a b on)).Settled := by
  have onCondition := Retraced.optionMapM (o := on) fun c hc => parts (.expr c) (by simp_all [Part.parts])
  have walk := onCondition.pair (Retraced.pair (parts (.expr b) (by simp [Part.parts]))
    (parts (.expr a) (by simp [Part.parts])))
  refine walk.build (m := fun p => Expr.join kind p.2.2 p.2.1 p.1) ?_ fun p => ?_
  · rw [Expr.keepUsed, optionMapM_attach]
    simp
  · rw [Expr.keepUsed, optionMapM_attach]
    simp

theorem Part.Settled.of_clientJoin {p : Projection Expr} {outer inner : List Expr}
    (parts : ∀ q ∈ (Part.expr (.clientJoin p outer inner)).parts, q.Settled) :
    (Part.expr (.clientJoin p outer inner)).Settled := by
  have onInner := Retraced.mapM (l := inner) fun k hk => parts (.expr k) (by simp_all [Part.parts])
  have onOuter := Retraced.mapM (l := outer) fun k hk => parts (.expr k) (by simp_all [Part.parts])
  have walk := onInner.pair (onOuter.pair (parts (.projection p) (by simp [Part.parts])))
  refine walk.build (m := fun p => Expr.clientJoin p.2.2 p.2.1 p.1) ?_ fun p => ?_
  · rw [Expr.keepUsed]
    simp
  · rw [Expr.keepUsed]
    simp

theorem Part.Settled.of_setOp {rel : Alias} {kind : SetKind} {s t : Select Expr}
    (parts : ∀ q ∈ (Part.expr (.setOp rel kind s t)).parts, q.Settled) :
    (Part.expr (.setOp rel kind s t)).Settled := by
  intro st
  have walk := Retraced.pair (parts (.select s) (by simp [Part.parts]))
    (parts (.select t) (by simp [Part.parts])) { st with keepAll := true }
  have run : ∀ s t : Select Expr, (Expr.setOp rel kind s t).keepUsed.run st
      = (fun p : (Select Expr × Select Expr) × State =>
        (Expr.setOp rel kind p.1.1 p.1.2, { p.2 with keepAll := st.keepAll }))
        ((do return (← s.keepUsed, ← t.keepUsed)).run { st with keepAll := true }) := by
    intro s t
    rw [Expr.keepUsed]
    rfl
  rw [run s t, run, walk]

theorem Part.Settled.of_projection {p : Projection Expr}
    (parts : ∀ q ∈ (Part.projection p).parts, q.Settled) : (Part.projection p).Settled := by
  have walk := Retraced.pair (parts (.expr p.projector) Projection.projector_mem)
    (parts (.select p.select) Projection.select_mem)
  refine walk.build (m := fun q => { p with select := q.2, projector := q.1 }) ?_ fun q => ?_
  · rw [Projection.keepUsed]
    simp
  · rw [Projection.keepUsed]
    simp

end Expressions

theorem Part.settled (p : Part) (apart : p.declared.Nodup) : p.Settled := by
  have under : ∀ q ∈ p.parts, q.Settled := fun q hq => settled q (apart.sublist (declared_sublist hq))
  cases p with
  | select s => exact .of_select fun e he => under (.expr e) (List.mem_map_of_mem he)
  | projection p => exact .of_projection under
  | expr e =>
    cases e with
    | join kind a b on => exact .of_join under
    | clientJoin p outer inner => exact .of_clientJoin under
    | setOp rel kind s t => exact .of_setOp under
    | scalar s =>
      refine .of_parts trivial under fun st => ?_
      rw [Expr.keepUsed_eq (by trivial)]
      exact Select.markFirst_keepUsed s (markOwn_first (e := .scalar s) rfl st)
    | inSelect item s =>
      refine .of_parts trivial under fun st => ?_
      rw [Expr.keepUsed_eq (by trivial)]
      refine Select.markFirst_keepUsed s fun d hd => ?_
      have marked := markOwn_first (e := .inSelect item s) rfl st d hd
      refine (Part.outlasted (.expr item) _).2 _ marked fun q hq inside => ?_
      rw [List.mem_singleton.mp hq] at inside
      rw [declared_eq] at apart
      exact (List.nodup_append.mp (by simpa [parts, binds] using apart)).2.2 _ inside _
        (binds_subset (.select s) List.mem_cons_self) rfl
    | _ => exact .of_parts (by trivial) under fun st => (Part.outlasted (.expr _) st).1.markOwn_eq id
termination_by p.weight
decreasing_by exact weight_lt hq

/-- Dropping the unused columns of a tree twice is dropping them once. -/
theorem Expr.dropUnusedColumns_idem {e : Expr} (apart : (Part.expr e).declared.Nodup) :
    e.dropUnusedColumns.dropUnusedColumns = e.dropUnusedColumns := by
  have settled : Retraced Expr.keepUsed e.keepUsed := Part.settled (.expr e) apart
  exact congrArg Prod.fst (settled ⟨[], false⟩)

namespace Sample

/-- The first walk over the bosses drops columns, the second one none. -/
theorem settled_bosses : bosses.dropUnusedColumns ≠ bosses
    ∧ bosses.dropUnusedColumns.dropUnusedColumns = bosses.dropUnusedColumns := by
  refine ⟨?_, Expr.dropUnusedColumns_idem (by decide +kernel)⟩
  intro same
  have names := congrArg (fun e => (Part.expr e).selects.map (·.columnNames)) same
  revert names
  decide +kernel

end Sample

end ObjectQuery
