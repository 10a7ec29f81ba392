import ObjectQuery.OuterJoin
import ObjectQuery.Settings
import ObjectQuery.Tree.Substitute

/-!
Fetching single nested objects along with their owner. A nested projection that picks one element
would run once per row of the select that owns it. Where that select neither groups nor drops
repeated rows, the nested select is applied to it instead, and the nested object is rebuilt from the
owner's columns. Members that the policy defers stay nested.
-/

namespace ObjectQuery

namespace Singletons

structure State where
  supply : Supply
  owner : Option (Select Expr)

abbrev Walk := StateM State

instance : MonadLift Mint Walk where
  monadLift mint := fun s =>
    let (a, supply) := mint.run s.supply
    (a, { s with supply })

abbrev Place := Option (Option String × String)

def isDeferred (p : Policy) : Place → Bool
  | some (entity, member) => p.isDeferred entity member
  | none => false

def canJoin (s : Select Expr) : Bool :=
  !s.distinct && s.groupBy.isEmpty && !s.hasAggregates

def join (affinity : Affinity) (owner : Select Expr) (p : Projection Expr) :
    Mint (Select Expr × Expr) := do
  let inner ← Supply.freshAlias
  let source := p.select.substitute fun c =>
    if c.rel = owner.rel then some (.column { c with rel := inner }) else none
  let joined := Projection.withJoinTest ⟨source, p.projector, none⟩
  let parts := joined.projector.split affinity (owner.wrapped inner).columns owner.rel
    [inner, joined.select.rel]
  let apply := Expr.join .outerApply (.select { owner with rel := inner })
    (.select joined.select) none
  return (.plain owner.rel parts.columns (some apply) none, parts.projector)

def unowned (step : Walk α) : Walk α := do
  let saved ← modifyGet fun s => (s.owner, { s with owner := none })
  let result ← step
  modify fun s => { s with owner := saved }
  return result

end Singletons

open Singletons in
mutual

/-- Joins single nested objects; what a joined one holds is walked again, at most `fuel` times
deep. -/
def Expr.joinSingletons (ctx : Context) (fuel : Nat) (place : Place) : Expr → Walk Expr
  | .projection p => do
    match (← get).owner.filter fun owner =>
        p.pick.isSome && !isDeferred ctx.policy place && canJoin owner with
    | none => return .projection (← p.joinSingletons ctx fuel place)
    | some owner =>
      match fuel with
      | 0 => return .projection (← p.joinSingletons ctx 0 place)
      | fuel + 1 =>
        let (owner, projector) ← join ctx.affinity owner p
        modify fun s => { s with owner := some owner }
        projector.joinSingletons ctx fuel place
  | .scalar s => return .scalar s
  | .existsIn s => return .existsIn s
  | .inSelect item s => return .inSelect item s
  | .construct typeName fields => do
    let fields ← fields.attach.mapM fun ⟨f, _⟩ => do
      return { f with expr := ← f.expr.joinSingletons ctx fuel (some (typeName, f.name)) }
    return .construct typeName fields
  | e =>
    let step := e.traverse (fun c _ => c.joinSingletons ctx fuel place)
      (fun s _ => s.joinSingletons ctx fuel place) fun p _ => p.joinSingletons ctx fuel place
    match e with
    | .clientJoin .. | .command _ => unowned step
    | _ => step
termination_by e => (fuel, (Part.expr e).weight)
decreasing_by
  · exact Prod.Lex.right _ (Part.weight_lt (by simp [Part.parts]))
  · exact Prod.Lex.right _ (Part.weight_lt (by simp [Part.parts]))
  · exact Prod.Lex.left _ _ (Nat.lt_succ_self _)
  · exact Prod.Lex.right _ (Part.weight_lt (Expr.field_mem ‹_›))
  all_goals exact Prod.Lex.right _ (Part.weight_lt ‹_›)

def Select.joinSingletons (ctx : Context) (fuel : Nat) (place : Place) (s : Select Expr) :
    Walk (Select Expr) :=
  s.traverse fun e _ => e.joinSingletons ctx fuel place
termination_by (fuel, (Part.select s).weight)
decreasing_by all_goals exact Prod.Lex.right _ (Part.weight_lt ‹_›)

def Projection.joinSingletons (ctx : Context) (fuel : Nat) (place : Place)
    (p : Projection Expr) : Walk (Projection Expr) := do
  let saved ← modifyGet fun s => (s.owner, { s with owner := some p.select })
  let projector ← p.projector.joinSingletons ctx fuel place
  let select ← modifyGet fun s => (s.owner.getD p.select, { s with owner := saved })
  return { p with select, projector }
termination_by (fuel, (Part.projection p).weight)
decreasing_by exact Prod.Lex.right _ (Part.weight_lt Projection.projector_mem)

end

def Expr.projectionCount (e : Expr) : Nat :=
  ((Part.expr e).gather (fun
    | .projection _ => [()]
    | _ => []) fun _ => true).length

def Expr.withSingletonsJoined (ctx : Context) (e : Expr) : Mint Expr := fun supply =>
  let (e, s) := (e.joinSingletons ctx e.projectionCount none).run ⟨supply, none⟩
  (e, s.supply)

end ObjectQuery
