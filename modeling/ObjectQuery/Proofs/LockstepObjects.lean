import ObjectQuery.Proofs.Lockstep

/-!
The objects of two trees that are evaluated in lockstep. Each side keeps the rows of its client joins
under names of its own; where the names belong together one to one, what the one side finds again the
other side finds as well.
-/

namespace ObjectQuery

open Eval

namespace Lockstep

section Objects

variable (M : Lockstep) (tables : Tables)

abbrev Kept : List (Alias × JoinedRows) → List (Alias × JoinedRows) → Prop :=
  List.Forall₂ fun x x' => M.named x.1 x'.1 ∧ x.2 = x'.2

def Built (e e' : Expr) : Prop :=
  ∀ σ σ', M.Scopes σ σ' → FollowsUnder M.Kept (client tables e σ) (client tables e' σ')

structure ObjectPairs (e e' : Expr) : Prop where
  value : M.Valued tables e e'
  object : M.Built tables e e'

structure ProjectionPairs (p p' : Projection Expr) : Prop where
  select : M.SelectPairs tables p.select p'.select
  projector : M.Built tables p.projector p'.projector
  pick : p.pick = p'.pick

end Objects

variable {M : Lockstep} {tables : Tables} {σ σ' : Scope} {e e₁ e' : Expr}

theorem Scopes.bind (h : M.Scopes σ σ') {a b : Alias} (named : M.named a b) (row : Row) :
    M.Scopes (σ.bind a row) (σ'.bind b row) :=
  h.extend (M.single named (some row))

theorem joinsAlike (unique : Relator.BiUnique M.named) {a b : Alias} (named : M.named a b) :
    JoinsAlike M.Kept a b :=
  ⟨fun _ _ h => lookup_exchanged unique h named, fun _ _ _ h => .cons ⟨named, rfl⟩ h⟩

namespace ProjectionPairs

variable {p p' : Projection Expr} (h : M.ProjectionPairs tables p p')
include h

theorem objects (hσ : M.Scopes σ σ') :
    FollowsUnder M.Kept (project tables p σ) (project tables p' σ') :=
  project_follows_under h.pick (h.select.rows σ σ' hσ).forall₂_eq fun row _ same =>
    same ▸ h.projector _ _ (hσ.bind h.select.named row)

theorem joined (root : M.Scopes .root .root) {inner inner' : List Expr}
    (keys : List.Forall₂ (M.Valued tables) inner inner') :
    FollowsUnder M.Kept (joinedRows tables p inner) (joinedRows tables p' inner') := by
  have under := fun row => root.bind h.select.named row
  refine joinedRows_follows_under (h.select.rows _ _ root).forall₂_eq ?_ ?_
  · rintro row _ rfl
    exact keys.imp fun k k' hk => hk _ _ (under row)
  · rintro row _ rfl
    exact h.projector _ _ (under row)

end ProjectionPairs

/-- Nodes of one kind whose parts go along with one another build the same objects. -/
theorem Built.of_renamed (unique : Relator.BiUnique M.named) (root : M.Scopes .root .root)
    (renamed : e.Renamed M.named M.reads e₁)
    (shaped : e₁.Shaped (M.ObjectPairs tables) (M.SelectPairs tables) (M.ProjectionPairs tables) e')
    (value : M.Valued tables e e') : M.Built tables e e' := by
  intro σ σ' hσ
  cases renamed with
  | table _ _ | column _ _ | setOp _ _ _ _ | groupAggregate _ _ _ _ _ =>
    cases shaped
    simp only [client]
    exact (FollowsUnder.lift (value σ σ' hσ)).bind fun _ => .pure _
  | nameless _ =>
    refine client_follows_under shaped (value σ σ' hσ) (fun c c' h => h.value σ σ' hσ)
      (fun c c' h => h.object σ σ' hσ) (fun p p' h => h.objects hσ) ?_
    intro p outer inner _ p' inner' h keys
    exact ⟨joinsAlike unique h.select.named, h.pick, h.joined root (keys.imp fun _ _ h => h.value)⟩

theorem client_of_valueless (h : e.Valueless) (σ : Scope) :
    client tables e σ = (do return .ofValue (← scalar tables e σ)) := by
  cases e <;> first | exact h.elim | simp only [client]

theorem ObjectPairs.of_valueless (left : e.Valueless) (right : e'.Valueless) :
    M.ObjectPairs tables e e' := by
  have value : M.Valued tables e e' := (Pairs.of_valueless left right).value
  refine ⟨value, fun σ σ' hσ => ?_⟩
  rw [client_of_valueless left, client_of_valueless right]
  exact (FollowsUnder.lift (value σ σ' hσ)).bind fun _ => .pure _

/-- Trees under other names build the same objects. -/
theorem objects_of_paired {p p' : Part} (unique : Relator.BiUnique M.named)
    (root : M.Scopes .root .root) (paired : p.Paired M.named M.reads Expr.ValuelessBoth p')
    (numbers : ∀ n n', M.number n n' → n = n') :
    p.Matches (M.ObjectPairs tables) (M.SelectPairs tables) (M.ProjectionPairs tables) p' := by
  induction paired with
  | given h => exact .expr (.of_valueless h.left h.right)
  | @node p p' kin lengths paired ih =>
    have values : p.Matches (M.Pairs tables) (M.SelectPairs tables) (fun _ _ => True) p' :=
      matches_of_paired (.node kin lengths paired) numbers
    have parts : List.Forall₂ (Part.Matches (M.ObjectPairs tables) (M.SelectPairs tables)
        (M.ProjectionPairs tables)) p.parts p'.parts :=
      List.forall₂_iff_zip.mpr ⟨lengths, fun hq => ih _ _ hq⟩
    cases kin with
    | expr renamed like =>
      rw [renamed.parts] at parts
      have value := values.of_expr.value
      exact .expr ⟨value, .of_renamed unique root renamed (.of_parts like parts) value⟩
    | select named like => exact .select values.of_select
    | projection pick =>
      obtain _ | ⟨select, _ | ⟨projector, _⟩⟩ := parts
      exact .projection ⟨select.of_select, projector.of_expr.object, pick⟩

end Lockstep

end ObjectQuery
