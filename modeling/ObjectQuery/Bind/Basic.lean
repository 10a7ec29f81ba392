import ObjectQuery.OuterJoin
import ObjectQuery.Settings
import ObjectQuery.Tree.Copy
import ObjectQuery.Tree.Render

/-!
Binding turns query operators into relations. A bound sequence is a projection: a select, and the
shape of one element over the columns of that select. A lambda is bound by letting its parameter
stand for such a shape and binding its body.
-/

namespace ObjectQuery

inductive BindError where
  | notASequence (e : Expr)
  | lambdaArity (operator : String) (expected : Nat)
  | setOperandMismatch (operator : String) (left right : Nat)
  | notACommand (e : Expr)
  | mapping (e : Mapping.Error)
  | tooDeep

def BindError.message : BindError → String
  | .notASequence e => "expression does not denote a sequence: " ++ e.render
  | .lambdaArity operator expected =>
    operator ++ ": expected a lambda with at least " ++ toString expected ++ " parameter(s)"
  | .setOperandMismatch operator left right =>
    operator ++ ": set operands project " ++ toString left ++ " and " ++ toString right ++ " columns"
  | .notACommand e => "Batch: operation does not bind to a command: " ++ e.render
  | .mapping e => "MappingError: " ++ e.message
  | .tooDeep => "orderings are nested too deep"

structure GroupSource where
  owner : Alias
  element : Expr
  origin : Alias

structure BindState where
  supply : Supply
  params : List (Param × Expr)
  groups : List (Alias × GroupSource)
  openGroup : Option Alias
  pending : List (Lambda Expr × Direction)

abbrev Binding := StateT BindState (Except BindError)

instance : MonadLift Mint Binding where
  monadLift mint := fun s =>
    let (a, supply) := mint.run s.supply
    .ok (a, { s with supply })

instance : MonadLift (Minting Mapping.Error) Binding where
  monadLift step := fun s =>
    match step.run s.supply with
    | .ok (a, supply) => .ok (a, { s with supply })
    | .error e => .error (.mapping e)

structure Body where
  params : List Param
  bind : Binding Expr

namespace Binding

def assign (operator : String) (params : List Param) (index : Nat) (bound : Expr) :
    Binding Unit := do
  match params[index]? with
  | none => throw (.lambdaArity operator (index + 1))
  | some p => modify fun s => { s with params := (p, bound) :: s.params }

def apply (operator : String) (body : Body) (bound : Expr) : Binding Expr := do
  assign operator body.params 0 bound
  body.bind

def apply₂ (operator : String) (body : Body) (first second : Expr) : Binding Expr := do
  assign operator body.params 0 first
  assign operator body.params 1 second
  body.bind

/-- What a parameter stands for. Every use is a copy, so that no alias is declared twice; a copy of
a group's elements is known as such. -/
def param (p : Param) : Binding Expr := do
  match (← get).params.lookup p with
  | none => return .param p
  | some bound =>
    let (copy, renamed) ← bound.copyWithAliases
    modify fun s =>
      let known := renamed.filterMap fun (old, new) => (s.groups.lookup old).map fun g => (new, g)
      { s with groups := known ++ s.groups }
    return copy

end Binding

mutual

def Expr.rebind : Expr → Binding Expr
  | .param p => Binding.param p
  | .member target name => do return (← target.rebind).bindMember name
  | e => e.traverse (fun c _ => c.rebind) (fun s _ => s.rebind) fun p _ => p.rebind
termination_by e => (Part.expr e).weight
decreasing_by
  · simp +arith [Part.weight]
  all_goals exact Part.weight_lt ‹_›

def Select.rebind (s : Select Expr) : Binding (Select Expr) :=
  s.traverse fun e _ => e.rebind
termination_by (Part.select s).weight
decreasing_by all_goals exact Part.weight_lt ‹_›

def Projection.rebind (p : Projection Expr) : Binding (Projection Expr) :=
  p.traverse (fun e _ => e.rebind) fun s _ => s.rebind
termination_by (Part.projection p).weight
decreasing_by all_goals exact Part.weight_lt ‹_›

end

def Command.rebind (c : Command Expr) : Binding (Command Expr) :=
  c.traverse fun e _ => e.rebind

namespace Binding

def toSequence (ctx : Context) : Expr → Binding (Projection Expr)
  | .projection p => return p
  | .grouping _ group => toSequence ctx group
  | .outerJoined _ e => toSequence ctx e
  | .member (.entity name e) m => do
    if !ctx.mapping.isAssociation name m then
      throw (.notASequence (.member (.entity name e) m))
    match ← ctx.mapping.bindMember (.entity name e) name m with
    | .projection p => return p
    | other => throw (.notASequence other)
  | e => throw (.notASequence e)

def sequence (ctx : Context) (source : Binding Expr) : Binding (Projection Expr) := do
  toSequence ctx (← source)

def split (ctx : Context) (shape : Expr) (rel : Alias) (sources : List Alias) : SplitColumns :=
  shape.split ctx.affinity [] rel sources

def selectOver (ctx : Context) (source : Expr) (sources : List Alias) (shape : Expr) :
    Binding (Projection Expr) := do
  let rel ← Supply.freshAlias
  let parts := split ctx shape rel sources
  return {
    select := .plain rel parts.columns (some source) none
    projector := parts.projector
    pick := none }

def layer (ctx : Context) (p : Projection Expr) (clauses : Select Expr → Select Expr) :
    Binding (Projection Expr) := do
  let outer ← selectOver ctx (.select p.select) [p.select.rel] p.projector
  return { outer with select := clauses outer.select }

end Binding

end ObjectQuery
