import Mathlib.Order.Filter.AtTopBot.Basic
import Mathlib.Order.Filter.Finite
import ObjectQuery.Proofs.TidyNavigation
import ObjectQuery.Proofs.Traversal

/-!
The expansion of comparisons ends. What a comparison of objects amounts to is walked in place of the comparison,
so the walk does not follow the tree. Yet each tree that it goes on to ranks lower than the one it comes from, or
ranks the same and weighs less. So the walk that breaks off at a given depth does not break off at any great
enough depth, and its answer is then that of the whole walk.
-/

namespace ObjectQuery.Comparisons

variable {m : Mapping}

def expansion? (m : Mapping) : Expr → Except RewriteError (Option Expr)
  | .binary op left right =>
    if op = .eq ∨ op = .notEq then expand m (op == .notEq) left right else .ok none
  | _ => .ok none

/-- The trees that the walk goes on to: an expanded comparison, and else the parts. -/
def next (m : Mapping) : Part → List Part
  | .expr e =>
    match expansion? m e with
    | .error _ => []
    | .ok (some expanded) => [.expr expanded]
    | .ok none => (Part.expr e).parts
  | .select s => (Part.select s).parts
  | .projection p => (Part.projection p).parts

/-- An expanded comparison ranks below the comparison. -/
theorem rank_expansion_lt {e expanded : Expr} (h : expansion? m e = .ok (some expanded)) :
    rank (.expr expanded) < rank (.expr e) := by
  cases e with
  | binary op left right =>
    rw [expansion?] at h
    split at h
    · rename_i compares
      exact rank_comparison compares left right ▸ rank_expand_lt h
    · cases h
  | _ => cases h

/-- Wherever the walk goes on, it descends. -/
theorem lex_of_mem_next {p q : Part} (h : q ∈ next m p) :
    Prod.Lex (· < ·) (· < ·) (rank q, q.weight) (rank p, p.weight) := by
  cases p with
  | expr e =>
    rw [next] at h
    split at h
    · cases h
    · rename_i expanded found
      rw [List.mem_singleton.mp h]
      exact .left _ _ (rank_expansion_lt found)
    · exact lex_of_mem h
  | select s => exact lex_of_mem h
  | projection p => exact lex_of_mem h

section Steps

variable {M : Type → Type} [Monad M]

def goOn (W : Walker M) (e : Expr) : Option Expr → M Expr
  | some expanded => W.expr expanded
  | none => e.traverse (fun c _ => W.expr c) (fun s _ => W.select s) fun p _ => W.projection p

variable [MonadLiftT (Except RewriteError) M]

def stepped (m : Mapping) (W : Walker M) : Walker M where
  expr e := do goOn W e (← liftM (expansion? m e))
  select s := s.traverse fun e _ => W.expr e
  projection p := p.traverse (fun e _ => W.expr e) fun s _ => W.select s

theorem stepped_expr (m : Mapping) (W : Walker M) (e : Expr) :
    (stepped m W).expr e = (liftM (expansion? m e) >>= goOn W e) := rfl

end Steps

/-- The whole walk goes on with itself. -/
theorem stepped_walker (m : Mapping) : stepped m (walker m) = walker m := by
  refine Walker.mk.injEq .. ▸ ⟨funext fun e => ?_, funext fun s => ?_, funext fun p => ?_⟩
  · change (stepped m (walker m)).expr e = e.expandComparisons m
    cases e with
    | binary op left right =>
      rw [Expr.expandComparisons]
      by_cases compares : op = .eq ∨ op = .notEq
      · have found : expansion? m (.binary op left right) = expand m (op == .notEq) left right := if_pos compares
        rw [dif_pos compares, stepped_expr, found]
        split <;> rename_i found <;> rw [found] <;> rfl
      · have found : expansion? m (.binary op left right) = .ok none := if_neg compares
        rw [dif_neg compares, stepped_expr, found]
        rfl
    | _ =>
      rw [Expr.expandComparisons.eq_2 _ _ (by simp)]
      rfl
  · change s.traverse (fun e _ => e.expandComparisons m) = s.expandComparisons m
    rw [Select.expandComparisons]
  · change p.traverse (fun e _ => e.expandComparisons m) (fun s _ => s.expandComparisons m) = p.expandComparisons m
    rw [Projection.expandComparisons]

/-- The walk that goes down so many steps and breaks off where it would go deeper. -/
def walkerTo (m : Mapping) : Nat → Walker (ExceptT RewriteError Option)
  | 0 => ⟨fun _ => .mk none, fun _ => .mk none, fun _ => .mk none⟩
  | n + 1 => stepped m (walkerTo m n)

def reaches : Relates (ExceptT RewriteError Option) (Except RewriteError) where
  rel x y := x.run = some y
  pure _ := rfl
  bind {_ _ _ y _ _} h next := by
    rw [ExceptT.run_bind, h]
    cases y with
    | error e => rfl
    | ok a => exact next a

def Ends (m : Mapping) (n : Nat) : Part → Prop
  | .expr e => reaches.rel ((walkerTo m n).expr e) ((walker m).expr e)
  | .select s => reaches.rel ((walkerTo m n).select s) ((walker m).select s)
  | .projection p => reaches.rel ((walkerTo m n).projection p) ((walker m).projection p)

/-- A step is as deep as the trees to which it goes on, and one more. -/
theorem ends_succ {n : Nat} {p : Part} (below : ∀ q ∈ next m p, Ends m n q) : Ends m (n + 1) p := by
  cases p with
  | expr e =>
    change reaches.rel ((stepped m (walkerTo m n)).expr e) ((walker m).expr e)
    rw [← stepped_walker, stepped_expr, stepped_expr]
    rw [next] at below
    cases found : expansion? m e with
    | error problem => rfl
    | ok expanded? =>
      rw [found] at below
      change reaches.rel (goOn (walkerTo m n) e expanded?) (goOn (walker m) e expanded?)
      cases expanded? with
      | some expanded => exact below (.expr expanded) (List.mem_singleton_self _)
      | none =>
        exact e.traverse_related reaches (fun c h => below (.expr c) h) (fun s h => below (.select s) h)
          fun p h => below (.projection p) h
  | select s =>
    change reaches.rel ((stepped m (walkerTo m n)).select s) ((walker m).select s)
    rw [← stepped_walker]
    exact s.traverse_related reaches fun e h => below (.expr e) h
  | projection p =>
    change reaches.rel ((stepped m (walkerTo m n)).projection p) ((walker m).projection p)
    rw [← stepped_walker]
    exact p.traverse_related reaches (fun e h => below (.expr e) h) fun s h => below (.select s) h

/-- The depth that the walk needs for a tree. -/
theorem exists_ends (m : Mapping) (p : Part) : ∃ n, ∀ k ≥ n, Ends m k p := by
  have below : ∀ q ∈ next m p, ∀ᶠ k in Filter.atTop, Ends m k q := fun q hq =>
    Filter.eventually_atTop.mpr (exists_ends m q)
  have all : ∀ᶠ k in Filter.atTop, ∀ q ∈ next m p, Ends m k q :=
    (Filter.eventually_all_finite (next m p).finite_toSet).mpr below
  obtain ⟨n, enough⟩ := Filter.eventually_atTop.mp all
  refine ⟨n + 1, fun k hk => ?_⟩
  obtain ⟨k, rfl⟩ := Nat.exists_eq_succ_of_ne_zero (Nat.ne_zero_of_lt hk)
  exact ends_succ (enough k (Nat.le_of_succ_le_succ hk))
termination_by (rank p, p.weight)
decreasing_by exact lex_of_mem_next hq

end ObjectQuery.Comparisons

namespace ObjectQuery

open Comparisons

/-- The expansion of comparisons ends in every tree: each call that it makes has a lesser measure, and from some
depth on the walk does not break off and answers with the expansion. -/
theorem Expr.expandComparisons_ends (m : Mapping) (e : Expr) :
    (∀ p q, q ∈ next m p → Prod.Lex (· < ·) (· < ·) (rank q, q.weight) (rank p, p.weight))
      ∧ ∃ n, ∀ k ≥ n, ((walkerTo m k).expr e).run = some (e.expandComparisons m) :=
  ⟨fun _ _ => lex_of_mem_next, exists_ends m (.expr e)⟩

end ObjectQuery
