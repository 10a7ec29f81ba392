import ObjectQuery.OuterJoin
import ObjectQuery.Rewrite.Pass
import ObjectQuery.Tree.Traverse

/-!
Following associations. A member of an entity that leads along an association to one entity becomes
an outer apply on the source of the select in whose clauses it stands; one that leads to many, or
that stands outside of all selects, becomes a nested projection.
-/

namespace ObjectQuery

namespace Associations

structure State where
  supply : Supply
  source : Option Expr

abbrev Walk := StateT State (Except RewriteError)

def follow (m : Mapping) (root : Expr) (entity member : String) : Walk Expr := fun s =>
  match (m.bindMember root entity member).run s.supply with
  | .ok (bound, supply) => .ok (bound, { s with supply })
  | .error e => .error (.mapping .associations e)

def attach (singleton : Bool) (p : Projection Expr) : Walk Expr := do
  match (← get).source with
  | some source =>
    if singleton then
      let p := p.withJoinTest
      modify fun s =>
        { s with source := some (.join .outerApply source (.select p.select) none) }
      return p.projector
    else return .projection p
  | none => return .projection p

end Associations

open Associations in
mutual

/-- Follows associations; what one leads to is walked again, at most `fuel` times deep. -/
def Expr.follow (m : Mapping) (fuel : Nat) : Expr → Walk Expr
  | .member target name => do
    match ← target.follow m fuel with
    | .entity entity e =>
      if m.isAssociation entity name then
        let bound ← Associations.follow m (.entity entity e) entity name
        let bound ← match fuel with
          | 0 => pure bound
          | fuel + 1 => bound.follow m fuel
        match bound with
        | .projection p => attach (m.isSingleton entity name) p
        | other => return other
      else return (Expr.entity entity e).bindMember name
    | other => return other.bindMember name
  | e => e.traverse (fun c _ => c.follow m fuel) (fun s _ => s.follow m fuel)
      fun p _ => p.follow m fuel
termination_by e => (fuel, (Part.expr e).weight)
decreasing_by
  · exact Prod.Lex.right _ (Part.weight_lt (by simp [Part.parts]))
  · exact Prod.Lex.left _ _ (Nat.lt_succ_self _)
  all_goals exact Prod.Lex.right _ (Part.weight_lt ‹_›)

def Select.follow (m : Mapping) (fuel : Nat) (s : Select Expr) : Walk (Select Expr) := do
  let source ← s.source.attach.mapM fun ⟨e, _⟩ => e.follow m fuel
  let saved ← modifyGet fun state => (state.source, { state with source })
  let filter ← s.filter.attach.mapM fun ⟨e, _⟩ => e.follow m fuel
  let orderBy ← s.orderBy.attach.mapM fun ⟨o, _⟩ => do
    return { o with expr := ← o.expr.follow m fuel }
  let groupBy ← s.groupBy.attach.mapM fun ⟨e, _⟩ => e.follow m fuel
  let skip ← s.skip.attach.mapM fun ⟨e, _⟩ => e.follow m fuel
  let take ← s.take.attach.mapM fun ⟨e, _⟩ => e.follow m fuel
  let columns ← s.columns.attach.mapM fun ⟨c, _⟩ => do
    return { c with expr := ← c.expr.follow m fuel }
  let source ← modifyGet fun state => (state.source, { state with source := saved })
  return { s with source, filter, orderBy, groupBy, skip, take, columns }
termination_by (fuel, (Part.select s).weight)
decreasing_by
  · exact Prod.Lex.right _ (Part.weight_lt (Select.source_mem ‹_›))
  · exact Prod.Lex.right _ (Part.weight_lt (Select.filter_mem ‹_›))
  · exact Prod.Lex.right _ (Part.weight_lt (Select.orderBy_mem ‹_›))
  · exact Prod.Lex.right _ (Part.weight_lt (Select.groupBy_mem ‹_›))
  · exact Prod.Lex.right _ (Part.weight_lt (Select.skip_mem ‹_›))
  · exact Prod.Lex.right _ (Part.weight_lt (Select.take_mem ‹_›))
  · exact Prod.Lex.right _ (Part.weight_lt (Select.columns_mem ‹_›))

def Projection.follow (m : Mapping) (fuel : Nat) (p : Projection Expr) :
    Walk (Projection Expr) :=
  p.traverse (fun e _ => e.follow m fuel) fun s _ => s.follow m fuel
termination_by (fuel, (Part.projection p).weight)
decreasing_by all_goals exact Prod.Lex.right _ (Part.weight_lt ‹_›)

end

def Expr.followAssociations (m : Mapping) (e : Expr) : Minting RewriteError Expr := fun supply =>
  match (e.follow m (Part.expr e).size).run ⟨supply, none⟩ with
  | .ok (e, s) => .ok (e, s.supply)
  | .error e => .error e

end ObjectQuery
