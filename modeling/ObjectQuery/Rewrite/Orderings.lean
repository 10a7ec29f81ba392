import ObjectQuery.Tree.Aliases
import ObjectQuery.Tree.Member
import ObjectQuery.Tree.Traverse

/-!
Moving orderings to where they count. Only the outermost select and selects that page keep an
ordering; the orderings of the selects below are gathered on the way up, expressed over the columns
of each select that they pass, and put where they can be honoured. A select that groups or drops
repeated rows lets no ordering through. Reversal is carried out by inverting what was gathered.
-/

namespace ObjectQuery

namespace Orderings

def withoutRepeats (seen : List (Alias × String)) : List (Order Expr) → List (Order Expr)
  | [] => []
  | o :: rest =>
    match o.expr with
    | .column c =>
      if seen.contains (c.rel, c.name) then withoutRepeats seen rest
      else o :: withoutRepeats ((c.rel, c.name) :: seen) rest
    | _ => o :: withoutRepeats seen rest

def inFront (first gathered : List (Order Expr)) : List (Order Expr) :=
  if first.isEmpty then gathered else withoutRepeats [] (first ++ gathered)

def inverted (orderings : List (Order Expr)) : List (Order Expr) :=
  orderings.map fun o => { o with direction := o.direction.inverted }

/-- Expresses orderings over the columns of a select named `rel`, with new columns where none of
them computes the key. A key of a relation outside the `declared` ones is correlated and stays. -/
def through (rel : Alias) (declared : List Alias) :
    List (Order Expr) → List (ColumnDecl Expr) → List (Order Expr) × List (ColumnDecl Expr)
  | [], columns => ([], columns)
  | o :: rest, columns =>
    if o.expr.isColumnOutside declared then
      let (orderings, columns) := through rel declared rest columns
      (o :: orderings, columns)
    else
      let (d, columns) :=
        ColumnDecl.provide columns (o.expr.baseName ("c" ++ toString columns.length)) o.expr
      let (orderings, columns) := through rel declared rest columns
      (⟨o.direction, .column ⟨rel, d.name, d.type⟩⟩ :: orderings, columns)

abbrev Gather := StateM (List (Order Expr))

def isolated (step : Gather α) : Gather α := do
  let saved ← get
  set ([] : List (Order Expr))
  let result ← step
  set saved
  return result

def settle (outermost : Bool) (s : Select Expr) : Gather (Select Expr) := do
  let grouped := !s.groupBy.isEmpty
  let mayOrder := outermost || s.take.isSome || s.skip.isSome
  let receives := mayOrder && !grouped && !s.distinct && !s.hasAggregates
  modify (inFront s.orderBy)
  if s.reversed then modify inverted
  let gathered ← get
  let orderBy := if receives then gathered else if mayOrder then s.orderBy else []
  let passesOn := !outermost && !grouped && !s.distinct
  let (passed, columns) :=
    if passesOn then through s.rel s.sourceAliases gathered s.columns else ([], s.columns)
  set (inFront passed [])
  return { s with columns, orderBy, reversed := false }

end Orderings

def Expr.hidesOrder : Expr → Bool
  | .scalar _ | .existsIn _ | .inSelect .. | .groupAggregate .. => true
  | _ => false

open Orderings in
mutual

/-- Moves orderings; `outermost` says that the next select met is the outermost one. -/
def Expr.hoist (outermost : Bool) : Expr → Gather Expr
  | .setOp rel kind left right => isolated do
    let left ← left.hoist outermost
    set ([] : List (Order Expr))
    let right ← right.hoist outermost
    return .setOp rel kind left right
  | .join kind left right on => do
    let left ← left.hoist outermost
    let fromLeft ← getModify fun _ => []
    let right ← right.hoist outermost
    modify (inFront fromLeft)
    let on ← on.attach.mapM fun ⟨e, _⟩ => e.hoist outermost
    return .join kind left right on
  | e =>
    let step := e.traverse (fun c _ => c.hoist outermost) (fun s _ => s.hoist outermost)
      fun p _ => p.hoist outermost
    if e.hidesOrder then isolated step else step
termination_by e => (Part.expr e).weight
decreasing_by
  case _ => exact Part.weight_lt (by simp [Part.parts])
  case _ => exact Part.weight_lt (by simp [Part.parts])
  case _ => exact Part.weight_lt (by simp [Part.parts])
  case _ => exact Part.weight_lt (by simp [Part.parts])
  case _ => exact Part.weight_lt (by simp_all [Part.parts])
  all_goals exact Part.weight_lt ‹_›

def Select.hoist (outermost : Bool) (s : Select Expr) : Gather (Select Expr) := do
  settle outermost (← s.traverse fun e _ => e.hoist false)
termination_by (Part.select s).weight
decreasing_by all_goals exact Part.weight_lt ‹_›

def Projection.hoist (outermost : Bool) (p : Projection Expr) : Gather (Projection Expr) :=
  p.traverse (fun e _ => e.hoist outermost) fun s _ => s.hoist outermost
termination_by (Part.projection p).weight
decreasing_by all_goals exact Part.weight_lt ‹_›

end

def Expr.hoistOrderings (e : Expr) : Expr := ((e.hoist true).run []).1

def Select.hoistOrderings (s : Select Expr) : Select Expr := ((s.hoist true).run []).1

end ObjectQuery
