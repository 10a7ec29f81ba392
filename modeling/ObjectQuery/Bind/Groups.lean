import ObjectQuery.Bind.Sequences

/-!
Grouping and aggregation. A group is a select that keeps one row per key, and for the elements of
the group a second copy of the source, restricted to the rows with that key. An aggregate over the
elements of a group is bound twice: as a column of the grouping select, and from the elements.
-/

namespace ObjectQuery

def Expr.nullSafeEqual? (as bs : List Expr) : Option Expr :=
  Expr.conjoin? ((as.zip bs).map fun (a, b) =>
    .either (.equals a b) (.both (.isNull a) (.isNull b)))

namespace Binding

def keyColumns (ctx : Context) (key : Expr) (rel : Alias) : List Expr :=
  (split ctx key rel [rel]).columns.map (·.expr)

def insideGroup (elements : Alias) (step : Binding Expr) : Binding Expr := do
  let saved ← modifyGet fun s => (s.openGroup, { s with openGroup := some elements })
  let result ← step
  modify fun s => { s with openGroup := saved }
  return result

def groupBy (ctx : Context) (source : Binding Expr) (key : Body) (element result : Option Body) :
    Binding (Projection Expr) := do
  let elementOf (p : Projection Expr) : Binding Expr :=
    match element with
    | some body => apply "GroupBy" body p.projector
    | none => return p.projector
  let p ← sequence ctx source
  let keyShape ← apply "GroupBy" key p.projector
  let elementShape ← elementOf p
  let groupKeys := keyColumns ctx keyShape p.select.rel
  let basis ← match ← (Expr.projection p).copy with
    | .projection basis => pure basis
    | other => throw (.notASequence other)
  let basisKeys := keyColumns ctx (← apply "GroupBy" key basis.projector) basis.select.rel
  let elements ← selectOver ctx (.select basis.select) [basis.select.rel] (← elementOf basis)
  let elements := { elements with
    select := { elements.select with filter := Expr.nullSafeEqual? basisKeys groupKeys } }
  let origin := elements.select.rel
  let rel ← Supply.freshAlias
  modify fun s =>
    { s with groups := (origin, { owner := rel, element := elementShape, origin }) :: s.groups }
  let shape ← match result with
    | some body => insideGroup origin (apply₂ "GroupBy" body keyShape (.projection elements))
    | none => pure (.grouping keyShape (.projection elements))
  let parts := split ctx shape rel [p.select.rel]
  return {
    select := { Select.plain rel parts.columns (some (.select p.select)) none with
      groupBy := groupKeys }
    projector := parts.projector
    pick := none }

def aggregate (ctx : Context) (root : Bool) (source : Binding Expr) (distinct : Bool)
    (kind : AggregateKind) (argument : Option Body) : Binding Expr := do
  let (predicate, selector) := if kind.isCount then (argument, none) else (none, argument)
  let p ← match predicate with
    | some body => filter ctx source body
    | none => sequence ctx source
  let argumentOf (shape : Expr) : Binding (Option Expr) :=
    match selector with
    | some body => do return some (← apply "Aggregate" body shape)
    | none => return if kind.isCount then none else some shape
  let inner := Expr.aggregate kind (← argumentOf p.projector) distinct
  let rel ← Supply.freshAlias
  let column := ColumnDecl.of "value" inner
  let select := Select.plain rel [column] (some (.select p.select)) none
  if root then
    return .projection ⟨select, .column ⟨rel, "value", column.type⟩, some .single⟩
  match predicate, (← get).groups.lookup p.select.rel with
  | none, some group =>
    let inGroup := Expr.aggregate kind (← argumentOf group.element) distinct
    if (← get).openGroup = some group.origin then return inGroup
    return .groupAggregate (← Supply.fresh) group.owner inGroup select
  | _, _ => return .scalar select

end Binding

end ObjectQuery
