import ObjectQuery.Proofs.Lockstep
import ObjectQuery.Proofs.Narrowing

/-!
Evaluating two trees whose rows correspond alias by alias. Under each alias in sight the rows of the
one tree belong to those of the other, and every column is read on its side as its partner is read on
the other. What a tree sees is kept along: nothing is asked of the rows of an alias that is not in
sight, so that a column of such an alias may be read in any way.
-/

namespace ObjectQuery

open Eval

variable {tables : Tables} {P : Alias → Row → Row → Prop} {V W : List Alias}

abbrev Frame.Mirrors (P : Alias → Row → Row → Prop) (V : List Alias) : Frame → Frame → Prop :=
  List.Forall₂ fun x x' => x.1 ∈ V ∧ x.1 = x'.1 ∧ Option.Rel (P x.1) x.2 x'.2

structure Scope.Mirrors (P : Alias → Row → Row → Prop) (V : List Alias) (σ σ' : Scope) : Prop where
  rows : Frame.Mirrors P V σ.rows σ'.rows
  group : Option.Rel (List.Forall₂ (Frame.Mirrors P V)) σ.group σ'.group
  number : σ.rowNumber = σ'.rowNumber

namespace Frame.Mirrors

variable {f f' : Frame}

theorem mono (h : Frame.Mirrors P V f f') (sub : V ⊆ W) : Frame.Mirrors P W f f' :=
  h.imp fun _ _ ⟨listed, same, rows⟩ => ⟨sub listed, same, rows⟩

/-- A frame without rows is its own counterpart. -/
theorem nulls (source : Option Expr) :
    Frame.Mirrors P ((source.map Expr.declares).getD []) (nullFrame source) (nullFrame source) := by
  rw [nullFrame, Frame.Mirrors, List.forall₂_map_left_iff, List.forall₂_map_right_iff]
  exact forall₂_refl_mem fun a ha => ⟨ha, rfl, .none⟩

theorem single {a : Alias} {row row' : Row} (h : P a row row') :
    Frame.Mirrors P [a] [(a, some row)] [(a, some row')] :=
  .cons ⟨List.mem_singleton_self a, rfl, .some h⟩ .nil

/-- What is found under an alias on both sides. -/
theorem lookup (h : Frame.Mirrors P V f f') (a : Alias) :
    f.lookup a = none ∧ f'.lookup a = none ∨
      a ∈ V ∧ ∃ r r', f.lookup a = some r ∧ f'.lookup a = some r' ∧ Option.Rel (P a) r r' := by
  induction h with
  | nil => exact .inl ⟨rfl, rfl⟩
  | @cons x x' _ _ head _ ih =>
    obtain ⟨listed, same, rows⟩ := head
    rw [List.lookup_cons, List.lookup_cons, ← same]
    by_cases here : a = x.1
    · subst here
      rw [beq_self_eq_true]
      exact .inr ⟨listed, _, _, rfl, rfl, rows⟩
    · rw [beq_false_of_ne here]
      exact ih

end Frame.Mirrors

namespace Scope.Mirrors

variable {σ σ' τ τ' : Scope} {f f' : Frame}

theorem root : Scope.Mirrors P V .root .root := ⟨.nil, .none, rfl⟩

theorem mono (h : Scope.Mirrors P V σ σ') (sub : V ⊆ W) : Scope.Mirrors P W σ σ' :=
  ⟨Frame.Mirrors.mono h.rows sub, optionRel_imp_mem h.group fun _ _ _ hg =>
    hg.imp fun _ _ hf => Frame.Mirrors.mono hf sub, h.number⟩

theorem extend (h : Scope.Mirrors P V σ σ') (hf : Frame.Mirrors P W f f') :
    Scope.Mirrors P (W ++ V) (σ.extend f) (σ'.extend f') :=
  ⟨List.rel_append (List.rel_reverse (hf.mono (List.subset_append_left _ _)))
    (Frame.Mirrors.mono h.rows (List.subset_append_right _ _)), .none, rfl⟩

theorem bind (h : Scope.Mirrors P V σ σ') {a : Alias} {row row' : Row} (hrow : P a row row') :
    Scope.Mirrors P (a :: V) (σ.bind a row) (σ'.bind a row') :=
  h.extend (.single hrow)

theorem inner (h : Scope.Mirrors P V σ σ') (inner : Inner (Frame.Mirrors P W) σ σ' τ τ') :
    Scope.Mirrors P (W ++ V) τ τ' := by
  cases inner with
  | frame hf => exact h.extend hf
  | group hf hg =>
    exact ⟨(h.extend hf).rows, .some (hg.imp fun _ _ h => h.mono (List.subset_append_left _ _)), rfl⟩

theorem numbered (h : Scope.Mirrors P V σ σ') (n : Option Nat) :
    Scope.Mirrors P V { σ with rowNumber := n } { σ' with rowNumber := n } :=
  ⟨h.rows, h.group, rfl⟩

end Scope.Mirrors

def Expr.MirrorsValue (tables : Tables) (P : Alias → Row → Row → Prop) (V : List Alias)
    (e e' : Expr) : Prop :=
  ∀ σ σ' : Scope, Scope.Mirrors P V σ σ' → Follows Eq (Eval.scalar tables e σ) (Eval.scalar tables e' σ')

structure Expr.Mirrors (tables : Tables) (P : Alias → Row → Row → Prop) (V : List Alias)
    (e e' : Expr) : Prop where
  value : e.MirrorsValue tables P V e'
  frames : ∀ σ σ' : Scope, Scope.Mirrors P V σ σ' →
    Follows (List.Forall₂ (Frame.Mirrors P e.declares)) (source tables e σ) (source tables e' σ')
  objects : ∀ σ σ' : Scope, Scope.Mirrors P V σ σ' →
    FollowsRun (client tables e σ) (client tables e' σ')
  orders : Option.Rel (List.Forall₂ fun o o' => o.direction = o'.direction
    ∧ o.expr.MirrorsValue tables P V o'.expr) e.rowOrders? e'.rowOrders?
  declares : e.declares = e'.declares
  aggregates : (Part.expr e).aggregates = (Part.expr e').aggregates

structure Select.Mirrors (tables : Tables) (P : Alias → Row → Row → Prop) (V : List Alias)
    (s s' : Select Expr) : Prop where
  rel : s.rel = s'.rel
  rows : ∀ σ σ' : Scope, Scope.Mirrors P V σ σ' →
    Follows (List.Forall₂ fun row row' => P s.rel row row' ∧ row.head = row'.head)
      (Eval.select tables s σ) (Eval.select tables s' σ')
  aggregates : (Part.select s).aggregates = (Part.select s').aggregates

structure Select.Echoes (tables : Tables) (P : Alias → Row → Row → Prop) (V : List Alias)
    (s s' : Select Expr) : Prop where
  names : s.columnNames = s'.columnNames
  rows : ∀ σ σ' : Scope, Scope.Mirrors P V σ σ' →
    Follows Eq (Eval.select tables s σ) (Eval.select tables s' σ')
  aggregates : (Part.select s).aggregates = (Part.select s').aggregates
  computes : s.hasAggregates = s'.hasAggregates

structure Projection.Mirrors (tables : Tables) (P : Alias → Row → Row → Prop) (V : List Alias)
    (p p' : Projection Expr) : Prop where
  select : p.select.Mirrors tables P V p'.select
  projector : p.projector.Mirrors tables P (p.select.rel :: V) p'.projector
  pick : p.pick = p'.pick

section Trees

variable {e e' : Expr} {s s' : Select Expr} {p p' : Projection Expr} {σ σ' : Scope}

theorem Expr.MirrorsValue.mono (h : e.MirrorsValue tables P W e') (sub : V ⊆ W) :
    e.MirrorsValue tables P V e' :=
  fun σ σ' hσ => h σ σ' (hσ.mono sub)

/-- Fewer aliases are in sight. -/
theorem Expr.Mirrors.mono (h : e.Mirrors tables P W e') (sub : V ⊆ W) : e.Mirrors tables P V e' where
  value := h.value.mono sub
  frames σ σ' hσ := h.frames σ σ' (hσ.mono sub)
  objects σ σ' hσ := h.objects σ σ' (hσ.mono sub)
  orders := optionRel_imp_mem h.orders fun _ _ _ ho => ho.imp fun _ _ h => ⟨h.1, h.2.mono sub⟩
  declares := h.declares
  aggregates := h.aggregates

theorem Select.AkinClauses.imp {Q Q' : Expr → Expr → Prop} (h : s.AkinClauses Q s')
    (sub : ∀ c c', Q c c' → Q' c c') : s.AkinClauses Q' s' where
  columns := h.columns.imp fun _ _ h => ⟨h.1, sub _ _ h.2⟩
  filter := optionRel_imp_mem h.filter fun _ _ _ => sub _ _
  orderBy := h.orderBy.imp fun _ _ h => ⟨h.1, sub _ _ h.2⟩
  groupBy := h.groupBy.imp sub
  distinct := h.distinct
  skip := optionRel_imp_mem h.skip fun _ _ _ => sub _ _
  take := optionRel_imp_mem h.take fun _ _ _ => sub _ _
  reversed := h.reversed

section Clauses

variable (source : Option.Rel (Expr.Mirrors tables P V) s.source s'.source)
include source

theorem frames_mirror (hσ : Scope.Mirrors P V σ σ') :
    Follows (List.Forall₂ (Frame.Mirrors P s.sourceAliases)) (Eval.frames tables s σ)
      (Eval.frames tables s' σ') := by
  rw [Eval.frames, Eval.frames, Select.sourceAliases]
  generalize s.source = source₁, s'.source = source₂ at source
  cases source with
  | none => exact .pure (.cons .nil .nil)
  | some h => exact h.frames σ σ' hσ

theorem nullFrame_mirrors :
    Frame.Mirrors P s.sourceAliases (nullFrame s.source) (nullFrame s'.source) := by
  have same : nullFrame s.source = nullFrame s'.source := by
    generalize s.source = source₁, s'.source = source₂ at source
    cases source with
    | none => rfl
    | some h => exact nullFrame_congr h.declares
  rw [← same]
  exact .nulls s.source

/-- Selects over clauses that see the source, and sources, that go along with one another. -/
theorem Select.Echoes.of_clauses
    (clauses : s.AkinClauses (Expr.Mirrors tables P (s.sourceAliases ++ V)) s') :
    s.Echoes tables P V s' where
  names := by
    rw [columnNames, columnNames, ← List.forall₂_eq_eq_eq, List.forall₂_map_left_iff,
      List.forall₂_map_right_iff]
    exact clauses.columns.imp fun _ _ h => h.1
  aggregates := by
    have akin : s.Akin (fun c c' => (Part.expr c).aggregates = (Part.expr c').aggregates) s' :=
      { clauses.imp fun _ _ h => h.aggregates with
        source := optionRel_imp_mem source fun _ _ _ h => h.aggregates }
    exact Part.aggregates_congr rfl rfl
      (List.forall₂_map_left_iff.mpr (List.forall₂_map_right_iff.mpr akin.exprs))
  computes := clauses.hasAggregates fun _ _ _ h => h.aggregates
  rows σ σ' hσ := by
    refine akin_follows (F := Frame.Mirrors P s.sourceAliases)
      (T := Scope.Mirrors P (s.sourceAliases ++ V)) clauses (frames_mirror source hσ)
      (nullFrame_mirrors source) (fun _ => clauses.hasAggregates fun _ _ _ h => h.aggregates)
      (fun τ τ' h => hσ.inner h) (fun τs τs' h => ?_) (fun c _ c' h => h.value)
      fun c _ c' h => h.value σ σ' (hσ.mono (List.subset_append_right _ _))
    have orders := Lockstep.findSome?_rel clauses.columns fun d d' h => h.2.orders
    exact numbered_follows (fun _ _ n h => h.numbered n) orders h

end Clauses

theorem Projection.Mirrors.objects (h : p.Mirrors tables P V p') (hσ : Scope.Mirrors P V σ σ') :
    FollowsRun (project tables p σ) (project tables p' σ') :=
  project_follows h.select.rel h.pick (h.select.rows σ σ' hσ) fun _ _ hrow =>
    h.projector.objects _ _ (hσ.bind hrow.1)

theorem Projection.Mirrors.joined (h : p.Mirrors tables P V p') {inner inner' : List Expr}
    (keys : List.Forall₂ (Expr.Mirrors tables P (p.select.rel :: V)) inner inner') :
    FollowsRun (joinedRows tables p inner) (joinedRows tables p' inner') := by
  have inRow : ∀ row row' : Row, P p.select.rel row row' ∧ row.head = row'.head →
      Scope.Mirrors P (p.select.rel :: V) (Scope.root.bind p.select.rel row)
        (Scope.root.bind p.select.rel row') := fun _ _ hrow => Scope.Mirrors.root.bind hrow.1
  exact joinedRows_follows h.select.rel (h.select.rows _ _ .root)
    (fun row row' hrow => keys.imp fun k k' h => h.value _ _ (inRow row row' hrow))
    fun row row' hrow => h.projector.objects _ _ (inRow row row' hrow)

theorem Projection.Mirrors.aggregates (h : p.Mirrors tables P V p') :
    (Part.projection p).aggregates = (Part.projection p').aggregates :=
  Part.aggregates_congr rfl rfl (.cons h.select.aggregates (.cons h.projector.aggregates .nil))

end Trees

namespace Expr.Mirrors

variable {e e' : Expr} {σ σ' : Scope}

/-- Columns that read corresponding rows alike where their alias is in sight. -/
theorem column {c c' : Column} (rel : c.rel = c'.rel)
    (reads : c.rel ∈ V → ∀ row row', P c.rel row row' → row.get? c.name = row'.get? c'.name) :
    Expr.Mirrors tables P V (.column c) (.column c') := by
  have value : Expr.MirrorsValue tables P V (.column c) (.column c') := by
    intro σ σ' hσ
    rw [Eval.scalar, Eval.scalar, Scope.column, Scope.column, ← rel]
    rcases Frame.Mirrors.lookup hσ.rows c.rel with ⟨-, hidden⟩ | ⟨listed, r, r', found, found', rows⟩
    · rw [hidden]
      exact .error _ _
    · rw [found, found']
      cases rows with
      | none => exact .refl _
      | some row =>
        simp only [reads listed _ _ row]
        split
        · exact .refl _
        · exact .error _ _
  refine ⟨value, fun σ σ' _ => ?_, fun σ σ' hσ => ?_, .none, rfl, ?_⟩
  · simp only [source]
    exact .error _ _
  · simp only [client]
    exact (FollowsRun.lift (value σ σ' hσ)).bind fun _ => .refl _
  · rw [Part.aggregates_eq, Part.aggregates_eq]
    rfl

/-- Sources that have no value. -/
theorem of_frames (noValue : ∀ σ, Eval.scalar tables e' σ = .error (.unsupported e'.summary))
    (object : ∀ σ, client tables e' σ = (do return .ofValue (← Eval.scalar tables e' σ)))
    (frames : ∀ σ σ' : Scope, Scope.Mirrors P V σ σ' →
      Follows (List.Forall₂ (Frame.Mirrors P e.declares)) (source tables e σ) (source tables e' σ'))
    (orders : e.rowOrders? = none) (orders' : e'.rowOrders? = none) (declares : e.declares = e'.declares)
    (aggregates : (Part.expr e).aggregates = (Part.expr e').aggregates) :
    e.Mirrors tables P V e' where
  value σ σ' _ := by
    rw [noValue]
    exact .error _ _
  frames := frames
  objects σ σ' _ s := by
    rw [object, noValue]
    exact .error _ _
  orders := by
    rw [orders, orders']
    exact .none
  declares := declares
  aggregates := aggregates

/-- A table under whose alias rows correspond to themselves. -/
theorem table {t : Table} (same : ∀ row, P t.rel row row) :
    Expr.Mirrors tables P V (.table t) (.table t) :=
  of_frames (fun _ => by simp only [Eval.scalar]) (fun _ => by simp only [client])
    (fun _ _ _ => table_follows rfl fun row => .single (same row)) rfl rfl rfl rfl

/-- Set operations of selects with the same rows. -/
theorem setOp {rel : Alias} {kind : SetKind} {s s' t t' : Select Expr} (same : ∀ row, P rel row row)
    (hs : s.Echoes tables P V s') (ht : t.Echoes tables P V t') :
    Expr.Mirrors tables P V (.setOp rel kind s t) (.setOp rel kind s' t') :=
  of_frames (fun _ => by simp only [Eval.scalar]) (fun _ => by simp only [client])
    (fun σ σ' hσ => setOp_follows hs.names (hs.rows σ σ' hσ) (ht.rows σ σ' hσ) fun row =>
      .single (same row)) rfl rfl rfl
    (Part.aggregates_congr rfl rfl (.cons hs.aggregates (.cons ht.aggregates .nil)))

/-- Joins whose right sides see the left ones, and whose conditions see both. -/
theorem join {kind : JoinKind} {left left' right right' : Expr} {on on' : Option Expr}
    (hl : left.Mirrors tables P V left') (hr : right.Mirrors tables P (left.declares ++ V) right')
    (hon : Option.Rel (Expr.Mirrors tables P (right.declares ++ (left.declares ++ V))) on on') :
    Expr.Mirrors tables P V (.join kind left right on) (.join kind left' right' on') := by
  refine of_frames (fun _ => by simp only [Eval.scalar]) (fun _ => by simp only [client])
    (fun σ σ' hσ => ?_) rfl rfl (by rw [Expr.declares, Expr.declares, hl.declares, hr.declares]) ?_
  · refine join_follows (F := Frame.Mirrors P left.declares) (G := Frame.Mirrors P right.declares) ?_ ?_
      (fun f f' g g' hf hg => ?_) (hl.frames σ σ' hσ)
      (fun _ => hr.frames σ σ' (hσ.mono (List.subset_append_right _ _))) fun _ f f' hf =>
        hr.frames _ _ (hσ.extend hf)
    · exact optionRel_imp_mem hon fun c _ c' h f f' g g' hf hg =>
        h.value _ _ ((hσ.extend hf).extend hg)
    · rw [← nullFrame_congr hr.declares]
      exact .nulls (some right)
    · rw [Expr.declares]
      exact List.rel_append (hf.mono (List.subset_append_left _ _)) (hg.mono (List.subset_append_right _ _))
  · refine Part.aggregates_congr rfl rfl (.cons hl.aggregates (.cons hr.aggregates ?_))
    exact List.forall₂_map_left_iff.mpr (List.forall₂_map_right_iff.mpr
      ((forall₂_toList hon).imp fun _ _ h => h.aggregates))

end Expr.Mirrors

def Expr.Level : Expr → Prop
  | .column _ | .table _ | .setOp _ _ _ _ | .join _ _ _ _ | .clientJoin _ _ _ => False
  | _ => True

section Level

variable {e e' : Expr} {σ σ' : Scope}
  (shaped : e.Shaped (Expr.Mirrors tables P V) (Select.Mirrors tables P V) (Projection.Mirrors tables P V) e')
include shaped

/-- Nodes of the same shape, columns apart, have the values that their parts give them. -/
theorem Expr.MirrorsValue.of_shaped (noColumn : ∀ c, e ≠ .column c) : e.MirrorsValue tables P V e' := by
  intro σ σ' hσ
  refine scalar_follows shaped noColumn (fun c c' h => h.value σ σ' hσ)
    (fun s s' h => (h.rows σ σ' hσ).mono fun _ _ rows => forall₂_isEmpty rows)
    (fun s s' _ h => (h.rows σ σ' hσ).mono fun rows rows' hrows => ?_) ?_ fun _ _ => hσ.number
  · rw [← List.forall₂_eq_eq_eq, List.forall₂_map_left_iff, List.forall₂_map_right_iff]
    exact hrows.imp fun _ _ h => h.2
  · rintro kind argument distinct -
    exact optionRel_imp_mem hσ.group fun g _ g' hg => hg.imp fun f f' hf c c' h =>
      h.value _ _ ((hσ.extend hf).mono (List.append_subset.mpr ⟨List.Subset.refl _, List.Subset.refl _⟩))

theorem Expr.Shaped.aggregates_mirrored : (Part.expr e).aggregates = (Part.expr e').aggregates := by
  refine shaped.aggregates fun q q' h => ?_
  cases h with
  | expr h => exact h.aggregates
  | select h => exact h.aggregates
  | projection h => exact h.aggregates

/-- Nodes whose parts see the same and go along with one another do so themselves. -/
theorem Expr.Mirrors.of_shaped (level : e.Level) : e.Mirrors tables P V e' := by
  have noColumn : ∀ c, e ≠ .column c := by
    rintro c rfl
    exact level
  have value := Expr.MirrorsValue.of_shaped shaped noColumn
  have objects : ∀ σ σ' : Scope, Scope.Mirrors P V σ σ' →
      FollowsRun (client tables e σ) (client tables e' σ') := by
    intro σ σ' hσ
    refine client_follows shaped (value σ σ' hσ) (fun c c' h => h.value σ σ' hσ)
      (fun c c' h => h.objects σ σ' hσ) (fun p p' h => h.objects hσ) ?_
    rintro p outer inner rfl
    exact level.elim
  have aggregates := shaped.aggregates_mirrored
  cases shaped with
  | column _ | table _ | setOp _ _ _ _ | join _ _ _ _ | clientJoin _ _ _ => exact level.elim
  | select hs =>
    refine ⟨value, fun σ σ' hσ => ?_, objects, .none, by simp only [Expr.declares, hs.rel], aggregates⟩
    refine rows_follows (hs.rows σ σ' hσ) fun row row' hrow => ?_
    rw [← hs.rel]
    exact .single hrow.1
  | rowNumber horders =>
    refine ⟨value, fun σ σ' _ => ?_, objects, .some (horders.imp fun _ _ h => ⟨h.1, h.2.value⟩), rfl,
      aggregates⟩
    simp only [source]
    exact .error _ _
  | _ =>
    refine ⟨value, fun σ σ' _ => ?_, objects, .none, rfl, aggregates⟩
    simp only [source]
    exact .error _ _

end Level

/-- Client joins whose inner keys see the rows of the projection. -/
theorem Expr.Mirrors.clientJoin {p p' : Projection Expr} {outer outer' inner inner' : List Expr}
    (hp : p.Mirrors tables P V p') (houter : List.Forall₂ (Expr.Mirrors tables P V) outer outer')
    (hinner : List.Forall₂ (Expr.Mirrors tables P (p.select.rel :: V)) inner inner') :
    Expr.Mirrors tables P V (.clientJoin p outer inner) (.clientJoin p' outer' inner') := by
  have shaped : Expr.Shaped (Expr.Mirrors tables P V) (Select.Mirrors tables P V)
      (Projection.Mirrors tables P V) (.clientJoin p outer inner) (.clientJoin p' outer' inner') :=
    .clientJoin hp houter (hinner.imp fun _ _ h => h.mono (List.subset_cons_self _ _))
  refine ⟨.of_shaped shaped (by simp), fun σ σ' _ => ?_, fun σ σ' hσ => ?_, .none, rfl,
    shaped.aggregates_mirrored⟩
  · simp only [source]
    exact .error _ _
  · have alike : JoinsAlike Eq p.select.rel p'.select.rel := by
      refine ⟨fun c c' same => ?_, fun c c' rows same => ?_⟩ <;> rw [same, hp.select.rel]
    exact FollowsUnder.eq_iff.mp (clientJoin_follows_under alike hp.pick
      (FollowsUnder.eq_iff.mpr (hp.joined hinner)) (houter.imp fun _ _ h => h.value σ σ' hσ))

end ObjectQuery
