import ObjectQuery.Bind.Basic

/-!
The operators that make a sequence from one or two others: filters, projections, joins, orderings
and layers.
-/

namespace ObjectQuery.Binding

def filter (ctx : Context) (source : Binding Expr) (predicate : Body) :
    Binding (Projection Expr) := do
  let p ← sequence ctx source
  let condition ← apply "Where" predicate p.projector
  layer ctx p fun s => { s with filter := some condition }

def map (ctx : Context) (source : Binding Expr) (selector : Body) : Binding (Projection Expr) := do
  let p ← sequence ctx source
  let shape ← apply "Select" selector p.projector
  selectOver ctx (.select p.select) [p.select.rel] shape

def clause (ctx : Context) (source : Binding Expr) (clauses : Select Expr → Select Expr) :
    Binding (Projection Expr) := do
  layer ctx (← sequence ctx source) clauses

/-- How the collection of each element is joined to it: a bare table does not depend on the element,
and a collection with a default keeps elements that have none. -/
def collectionJoin (collection : Projection Expr) (orDefault : Bool) : JoinKind :=
  match collection.select.source with
  | some (.table _) => .cross
  | _ => if orDefault then .outerApply else .crossApply

def flatMap (ctx : Context) (source : Binding Expr) (collection : Body) (orDefault : Bool)
    (result : Option Body) : Binding (Projection Expr) := do
  let p ← sequence ctx source
  assign "SelectMany" collection.params 0 p.projector
  let inner ← sequence ctx collection.bind
  let kind := collectionJoin inner orDefault
  let inner := if kind = .outerApply then inner.withJoinTest else inner
  let shape ← match result with
    | none => pure inner.projector
    | some body => apply₂ "SelectMany" body p.projector inner.projector
  selectOver ctx (.join kind (.select p.select) (.select inner.select) none)
    [p.select.rel, inner.select.rel] shape

def join (ctx : Context) (outer inner : Binding Expr) (outerKey innerKey result : Body) :
    Binding (Projection Expr) := do
  let p ← sequence ctx outer
  let q ← sequence ctx inner
  let left ← apply "Join" outerKey p.projector
  let right ← apply "Join" innerKey q.projector
  let shape ← apply₂ "Join" result p.projector q.projector
  selectOver ctx (.join .inner (.select p.select) (.select q.select) (some (.equals left right)))
    [p.select.rel, q.select.rel] shape

def groupJoin (ctx : Context) (outer inner : Binding Expr) (outerKey innerKey result : Body) :
    Binding (Projection Expr) := do
  let p ← sequence ctx outer
  assign "GroupJoin" outerKey.params 0 p.projector
  let group ← filter ctx inner ⟨innerKey.params, do
    return .equals (← innerKey.bind) (← outerKey.bind)⟩
  let shape ← apply₂ "GroupJoin" result p.projector (.projection group)
  selectOver ctx (.select p.select) [p.select.rel] shape

/-- The elements, or one default element when there are none: a row that is always there, with the
elements applied to it. -/
def defaultIfEmpty (ctx : Context) (source : Binding Expr) : Binding (Projection Expr) := do
  let p := (← sequence ctx source).withJoinTest
  let seed := Select.plain (← Supply.freshAlias) [ColumnDecl.of "Seed" (.int 1)] none none
  selectOver ctx (.join .outerApply (.select seed) (.select p.select) none) [p.select.rel] p.projector

def postpone (key : Lambda Expr) (direction : Direction) : Binding Unit :=
  modify fun s => { s with pending := (key, direction) :: s.pending }

def orderBy (ctx : Context) (source : Binding Expr) (key : Body) (direction : Direction)
    (bindBody : Lambda Expr → Binding Expr) : Binding (Projection Expr) := do
  let pending ← modifyGet fun s => (s.pending, { s with pending := [] })
  let p ← sequence ctx source
  let first := Order.mk direction (← apply "OrderBy" key p.projector)
  let others ← pending.mapM fun (l, direction) => do
    return Order.mk direction (← apply "ThenBy" ⟨l.params, bindBody l⟩ p.projector)
  layer ctx p fun s => { s with orderBy := first :: others }

end ObjectQuery.Binding
