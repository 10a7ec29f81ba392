import ObjectQuery.Proofs.Congruence
import ObjectQuery.Proofs.Renaming
import Mathlib.Logic.Relator

/-!
Evaluating two trees in lockstep. Where the rows in sight belong together, and each node reads on its
side what its partner reads on the other, every value, every frame and every row that one tree gives is
given by the other as well. Nothing is asked of the kinds of node: aggregates and row numbers may stand
anywhere, and so may subqueries.
-/

namespace ObjectQuery

open Eval

/-- Where aliases are exchanged one to one, the same things are found under them. -/
theorem lookup_exchanged {α : Type} {A : Alias → Alias → Prop} (unique : Relator.BiUnique A)
    {r r' : List (Alias × α)} (h : List.Forall₂ (fun x x' => A x.1 x'.1 ∧ x.2 = x'.2) r r') {a b : Alias}
    (hab : A a b) : r.lookup a = r'.lookup b := by
  induction h with
  | nil => rfl
  | @cons x x' _ _ head _ ih =>
    obtain ⟨related, same⟩ := head
    rw [List.lookup_cons, List.lookup_cons]
    by_cases first : a = x.1
    · have second : b = x'.1 := unique.2 hab (first ▸ related)
      rw [first, second, beq_self_eq_true, beq_self_eq_true, same]
    · have second : b ≠ x'.1 := fun hb => first (unique.1 hab (hb ▸ related))
      rw [beq_false_of_ne first, beq_false_of_ne second]
      exact ih

theorem Frame.single_congr {a b : Alias} (h : a = b) (row : Option Row) : ([(a, row)] : Frame) = [(b, row)] := by
  rw [h]

structure Lockstep where
  named : Alias → Alias → Prop
  reads : Alias → Alias → Prop
  frame : Frame → Frame → Prop
  rows : Frame → Frame → Prop
  number : Option Nat → Option Nat → Prop
  nil : frame [] []
  single : ∀ {a b : Alias}, named a b → ∀ row, frame [(a, row)] [(b, row)]
  append : ∀ {f f' g g' : Frame}, frame f f' → frame g g' → frame (f ++ g) (f' ++ g')
  extend : ∀ {f f' r r' : Frame}, frame f f' → rows r r' → rows (f.reverse ++ r) (f'.reverse ++ r')
  lookup : ∀ {r r' : Frame} {a b : Alias}, rows r r' → reads a b → r.lookup a = r'.lookup b
  renumber : ∀ n, number n n

namespace Lockstep

variable (M : Lockstep) (tables : Tables)

structure Scopes (σ σ' : Scope) : Prop where
  rows : M.rows σ.rows σ'.rows
  group : Option.Rel (List.Forall₂ M.frame) σ.group σ'.group
  number : M.number σ.rowNumber σ'.rowNumber

def Valued (e e' : Expr) : Prop :=
  ∀ σ σ', M.Scopes σ σ' → Follows Eq (scalar tables e σ) (scalar tables e' σ')

structure Pairs (e e' : Expr) : Prop where
  value : M.Valued tables e e'
  frames : ∀ σ σ', M.Scopes σ σ' →
    Follows (List.Forall₂ M.frame) (source tables e σ) (source tables e' σ')
  unmatched : M.frame (nullFrame (some e)) (nullFrame (some e'))
  orders : Option.Rel (List.Forall₂ fun o o' => o.direction = o'.direction
    ∧ M.Valued tables o.expr o'.expr) e.rowOrders? e'.rowOrders?

structure SelectPairs (s s' : Select Expr) : Prop where
  named : M.named s.rel s'.rel
  names : s.columnNames = s'.columnNames
  rows : ∀ σ σ', M.Scopes σ σ' → Follows Eq (select tables s σ) (select tables s' σ')

variable {M} {tables} {σ σ' τ τ' : Scope} {e e₁ e' : Expr} {s s' : Select Expr}

namespace Scopes

theorem extend (h : M.Scopes σ σ') {f f' : Frame} (hf : M.frame f f') :
    M.Scopes (σ.extend f) (σ'.extend f') :=
  ⟨M.extend hf h.rows, .none, M.renumber none⟩

theorem inner (h : M.Scopes σ σ') (inner : Inner M.frame σ σ' τ τ') : M.Scopes τ τ' := by
  cases inner with
  | frame hf => exact h.extend hf
  | group hf hg => exact ⟨M.extend hf h.rows, .some hg, M.renumber none⟩

theorem numbered (h : M.Scopes σ σ') (n : Option Nat) :
    M.Scopes { σ with rowNumber := n } { σ' with rowNumber := n } :=
  ⟨h.rows, h.group, M.renumber n⟩

end Scopes

theorem columnNames_of_akin {Q : Expr → Expr → Prop} (akin : s.Akin Q s') :
    s.columnNames = s'.columnNames := by
  rw [Select.columnNames, Select.columnNames, ← List.forall₂_eq_eq_eq, List.forall₂_map_left_iff,
    List.forall₂_map_right_iff]
  exact akin.columns.imp fun _ _ h => h.1

theorem findSome?_rel {α β γ δ : Type} {R : α → β → Prop} {S : γ → δ → Prop} {f : α → Option γ}
    {g : β → Option δ} {as : List α} {bs : List β} (h : List.Forall₂ R as bs)
    (step : ∀ a b, R a b → Option.Rel S (f a) (g b)) :
    Option.Rel S (as.findSome? f) (bs.findSome? g) := by
  induction h with
  | nil => exact .none
  | cons hab _ ih =>
    have head := step _ _ hab
    rw [List.findSome?_cons, List.findSome?_cons]
    generalize f _ = x, g _ = y at head
    cases head with
    | none => exact ih
    | some h => exact .some h

section Akin

variable (akin : s.Akin (M.Pairs tables) s')
include akin

theorem sources_of_akin (hσ : M.Scopes σ σ') :
    Follows (List.Forall₂ M.frame) (Eval.frames tables s σ) (Eval.frames tables s' σ') := by
  have hsource := akin.source
  rw [Eval.frames, Eval.frames]
  generalize s.source = source, s'.source = source' at hsource
  cases hsource with
  | none => exact .pure (.cons M.nil .nil)
  | some h => exact h.frames σ σ' hσ

theorem unmatched_of_akin : M.frame (nullFrame s.source) (nullFrame s'.source) := by
  have hsource := akin.source
  generalize s.source = source, s'.source = source' at hsource
  cases hsource with
  | none => exact M.nil
  | some h => exact h.unmatched

/-- Selects whose clauses go along with one another. -/
theorem SelectPairs.of_akin (named : M.named s.rel s'.rel)
    (aggregates : s.groupBy = [] → s.hasAggregates = s'.hasAggregates) :
    M.SelectPairs tables s s' := by
  refine ⟨named, columnNames_of_akin akin, fun σ σ' hσ => ?_⟩
  refine akin_follows (F := M.frame) (T := M.Scopes) akin.toAkinClauses (sources_of_akin akin hσ)
    (unmatched_of_akin akin) aggregates (fun τ τ' h => hσ.inner h) (fun τs τs' h => ?_)
    (fun c _ c' h => h.value) fun c _ c' h => h.value σ σ' hσ
  have orders := findSome?_rel akin.columns fun d d' h => h.2.orders
  have number : ∀ τ τ' n, M.Scopes τ τ' →
      M.Scopes { τ with rowNumber := n } { τ' with rowNumber := n } := fun _ _ n h => h.numbered n
  exact numbered_follows number orders h

end Akin

variable {QP : Projection Expr → Projection Expr → Prop}

/-- Where the second side has no value there is nothing to go along with. -/
theorem Valued.of_unsupported
    (h : ∀ σ, scalar tables e' σ = .error (.unsupported e'.summary)) : M.Valued tables e e' := by
  intro σ σ' _
  rw [h]
  exact .error _ _

theorem column_valued {c c' : Column} (name : c.name = c'.name) (reads : M.reads c.rel c'.rel) :
    M.Valued tables (.column c) (.column c') := by
  intro σ σ' hσ
  have found : σ.rows.lookup c.rel = σ'.rows.lookup c'.rel := M.lookup hσ.rows reads
  rw [scalar, scalar, Scope.column, Scope.column, found, name]
  rcases σ'.rows.lookup c'.rel with _ | _ | row
  · exact .error _ _
  · exact .refl _
  · cases hv : row.get? c'.name with
    | none =>
      simp only [hv]
      exact .error _ _
    | some v =>
      simp only [hv]
      exact .refl _

/-- Nodes of the same shape, columns apart, have the values that their parts give them. -/
theorem Valued.of_shaped (shaped : e.Shaped (M.Pairs tables) (M.SelectPairs tables) QP e')
    (noColumn : ∀ c, e ≠ .column c)
    (numbers : ∀ orders, e = .rowNumber orders → ∀ n n', M.number n n' → n = n') :
    M.Valued tables e e' := by
  intro σ σ' hσ
  refine scalar_follows shaped noColumn (fun c c' h => h.value σ σ' hσ)
    (fun t t' h => (h.rows σ σ' hσ).mono fun _ _ same => same ▸ rfl)
    (fun t t' _ h => (h.rows σ σ' hσ).mono fun _ _ same => same ▸ rfl) ?_
    fun orders he => numbers orders he _ _ hσ.number
  rintro kind argument distinct -
  have group := hσ.group
  generalize σ.group = g, σ'.group = g' at group
  cases group with
  | none => exact .none
  | some frames => exact .some (frames.imp fun f f' hf c c' h => h.value _ _ (hσ.extend hf))

theorem nullFrame_join (kind : JoinKind) (a b : Expr) (on : Option Expr) :
    nullFrame (some (.join kind a b on)) = nullFrame (some a) ++ nullFrame (some b) := by
  simp [nullFrame, Expr.declares]

/-- Joins whose sides and conditions go along with one another. -/
theorem join_frames {kind : JoinKind} {a a' b b' : Expr} {on on' : Option Expr}
    (ha : M.Pairs tables a a') (hb : M.Pairs tables b b') (hon : Option.Rel (M.Pairs tables) on on')
    (hσ : M.Scopes σ σ') : Follows (List.Forall₂ M.frame) (source tables (.join kind a b on) σ)
      (source tables (.join kind a' b' on') σ') := by
  refine join_follows (F := M.frame) (G := M.frame) ?_ hb.unmatched (fun _ _ _ _ => M.append)
    (ha.frames σ σ' hσ) (fun _ => hb.frames σ σ' hσ) fun _ f f' hf => hb.frames _ _ (hσ.extend hf)
  cases hon with
  | none => exact .none
  | some h => exact .some fun f f' g g' hf hg => h.value _ _ ((hσ.extend hf).extend hg)

/-- Nodes of one kind whose parts go along with one another do so themselves. -/
theorem Pairs.of_renamed (renamed : e.Renamed M.named M.reads e₁)
    (shaped : e₁.Shaped (M.Pairs tables) (M.SelectPairs tables) QP e')
    (numbers : ∀ orders, e = .rowNumber orders → ∀ n n', M.number n n' → n = n') :
    M.Pairs tables e e' := by
  cases renamed with
  | @table t t' name named =>
    cases shaped
    refine ⟨.of_unsupported fun σ => by simp only [scalar], fun σ σ' _ => ?_, M.single named none, .none⟩
    exact table_follows name fun row => M.single named _
  | @column c c' name reads =>
    cases shaped
    refine ⟨column_valued name reads, fun σ σ' _ => ?_, M.nil, .none⟩
    simp only [source]
    exact .error _ _
  | setOp kind _ _ named =>
    cases shaped with
    | setOp _ _ hs ht =>
      refine ⟨.of_unsupported fun σ => by simp only [scalar], fun σ σ' hσ => ?_, M.single named none, .none⟩
      exact setOp_follows hs.names (hs.rows σ σ' hσ) (ht.rows σ σ' hσ) fun row => M.single named _
  | groupAggregate correlation correlation' a s reads =>
    have value := Valued.of_shaped shaped (by simp) (by simp)
    cases shaped with
    | groupAggregate _ _ ha hs =>
      refine ⟨fun σ σ' hσ => ?_, fun σ σ' _ => ?_, M.nil, .none⟩
      · have h := value σ σ' hσ
        rw [scalar] at h ⊢
        exact h
      · simp only [source]
        exact .error _ _
  | nameless nameless =>
    have noColumn : ∀ c, e ≠ .column c := by
      rintro c rfl
      exact nameless
    have value := Valued.of_shaped shaped noColumn numbers
    cases shaped with
    | table _ | column _ | setOp _ _ _ _ | groupAggregate _ _ _ _ => exact nameless.elim
    | select hs =>
      refine ⟨value, fun σ σ' hσ => ?_, M.single hs.named none, .none⟩
      exact rows_follows (hs.rows σ σ' hσ).forall₂_eq fun row _ same => same ▸ M.single hs.named _
    | join kind ha hb hon =>
      refine ⟨value, fun σ σ' hσ => join_frames ha hb hon hσ, ?_, .none⟩
      rw [nullFrame_join, nullFrame_join]
      exact M.append ha.unmatched hb.unmatched
    | rowNumber horders =>
      refine ⟨value, fun σ σ' _ => ?_, M.nil, .some (horders.imp fun _ _ h => ⟨h.1, h.2.value⟩)⟩
      simp only [source]
      exact .error _ _
    | _ =>
      refine ⟨value, fun σ σ' _ => ?_, M.nil, .none⟩
      simp only [source]
      exact .error _ _

theorem nullFrame_of_valueless (h : e.Valueless) : nullFrame (some e) = [] := by
  cases e <;> first | rfl | exact h.elim

theorem rowOrders?_of_valueless (h : e.Valueless) : e.rowOrders? = none := by
  cases e <;> first | rfl | exact h.elim

theorem scalar_of_valueless (h : e.Valueless) (σ : Scope) : ∃ error, scalar tables e σ = .error error := by
  cases e <;> first | exact h.elim | (simp only [scalar]; exact ⟨_, rfl⟩)

theorem source_of_valueless (h : e.Valueless) (σ : Scope) : ∃ error, source tables e σ = .error error := by
  cases e <;> first | exact h.elim | (simp only [source]; exact ⟨_, rfl⟩)

/-- Expressions without a value fail on both sides. -/
theorem Pairs.of_valueless (left : e.Valueless) (right : e'.Valueless) : M.Pairs tables e e' := by
  refine ⟨fun σ σ' _ => ?_, fun σ σ' _ => ?_, ?_, ?_⟩
  · obtain ⟨error, fails⟩ := scalar_of_valueless right σ'
    rw [fails]
    exact .error _ _
  · obtain ⟨error, fails⟩ := source_of_valueless right σ'
    rw [fails]
    exact .error _ _
  · rw [nullFrame_of_valueless left, nullFrame_of_valueless right]
    exact M.nil
  · rw [rowOrders?_of_valueless left, rowOrders?_of_valueless right]
    exact .none

/-- Trees under other names go along with one another. -/
theorem matches_of_paired {p p' : Part}
    (paired : p.Paired M.named M.reads Expr.ValuelessBoth p')
    (numbers : ∀ n n', M.number n n' → n = n') :
    p.Matches (M.Pairs tables) (M.SelectPairs tables) (fun _ _ => True) p' := by
  induction paired with
  | given h => exact .expr (.of_valueless h.left h.right)
  | @node p p' kin lengths paired ih =>
    have parts : List.Forall₂ (Part.Matches (M.Pairs tables) (M.SelectPairs tables) fun _ _ => True)
        p.parts p'.parts := List.forall₂_iff_zip.mpr ⟨lengths, fun hq => ih _ _ hq⟩
    cases kin with
    | expr renamed like =>
      rw [renamed.parts] at parts
      exact .expr (.of_renamed renamed (.of_parts like parts) fun _ _ => numbers)
    | @select s s' named like =>
      refine .select (.of_akin (.of_parts like parts) named fun _ => ?_)
      have exprs : List.Forall₂ (fun c c' => (Part.expr c).aggregates = (Part.expr c').aggregates)
          s.exprs s'.exprs := by
        have whole : List.Forall₂ (fun q q' : Part => q.aggregates = q'.aggregates)
            (Part.select s).parts (Part.select s').parts :=
          List.forall₂_iff_zip.mpr
            ⟨lengths, fun hq => (paired _ _ hq).aggregates fun _ _ h => h.aggregates⟩
        exact List.forall₂_map_left_iff.mp (List.forall₂_map_right_iff.mp whole)
      exact (Select.Akin.of_exprs like exprs).hasAggregates fun _ _ _ h => h
    | projection _ => exact .projection trivial

end Lockstep

end ObjectQuery
