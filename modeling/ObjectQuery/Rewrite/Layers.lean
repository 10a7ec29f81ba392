import ObjectQuery.Tree.Aliases
import ObjectQuery.Tree.Same
import ObjectQuery.Tree.Traverse

/-!
Collapsing selects that add nothing. A select under another one, or under a projection, that only
forwards columns is spliced out, and what it forwards is read from its source. A select whose source
is at its left end a select of plain columns takes over the clauses of that select, where the rows
stay the same.
-/

namespace ObjectQuery

namespace Layers

def forwards (name : String) : Expr → Bool
  | .column c => c.name == name
  | _ => false

def isSimple (s : Select Expr) : Bool :=
  s.columns.all fun d => forwards d.name d.expr

def isNameMap (s : Select Expr) : Bool :=
  match s.source with
  | some (.select below) =>
    s.columns.length == below.columns.length
      && (s.columns.zip below.columns).all fun (d, b) => forwards b.name d.expr
  | _ => false

def isRedundant (s : Select Expr) : Bool :=
  s.source.isSome && (isSimple s || isNameMap s) && s.hasNoClauses

def hasPlainColumns (s : Select Expr) : Bool :=
  s.columns.all fun d =>
    match d.expr with
    | .column _ | .const _ => true
    | _ => false

def redundant : Expr → List (Select Expr)
  | .select s => if isRedundant s then [s] else []
  | .join _ left right _ => redundant left ++ redundant right
  | _ => []

def leftmost? : Expr → Option (Select Expr)
  | .select s => some s
  | .join _ left _ _ => leftmost? left
  | _ => none

def removedColumn? (removed : List (Select Expr)) (c : Column) : Option Expr := do
  let s ← removed.reverse.find? (·.rel == c.rel)
  let d ← s.columns.reverse.find? (·.name == c.name)
  return d.expr

/-- What a column reads once the selects are removed. The expressions of their columns are columns
or constants; a column may lead from one removed select to the next, at most `steps` times. -/
def resolve (removed : List (Select Expr)) : Nat → Column → Expr
  | 0, c => .column c
  | steps + 1, c =>
    match removedColumn? removed c with
    | some (.column c) => resolve removed steps c
    | some e => e
    | none => .column c

def columnCount (removed : List (Select Expr)) : Nat :=
  (removed.map (·.columns.length)).foldr (· + ·) 0

end Layers

open Layers in
mutual

def Expr.splice (removed : List (Select Expr)) : Expr → Expr
  | .column c => resolve removed (columnCount removed + 1) c
  | .select s =>
    if removed.any (·.rel == s.rel) then
      match _ : s.source with
      | some source => source.splice removed
      | none => .select s
    else .select (s.splice removed)
  | e => Id.run (e.traverse (fun c _ => pure (c.splice removed))
      (fun s _ => pure (s.splice removed)) fun p _ => pure (p.splice removed))
termination_by e => (Part.expr e).weight
decreasing_by
  · exact Nat.lt_trans (Part.weight_lt (Select.source_mem ‹_›))
      (Part.weight_lt (by simp [Part.parts]))
  · exact Part.weight_lt (by simp [Part.parts])
  all_goals exact Part.weight_lt ‹_›

def Select.splice (removed : List (Select Expr)) (s : Select Expr) : Select Expr :=
  Id.run (s.traverse fun e _ => pure (e.splice removed))
termination_by (Part.select s).weight
decreasing_by all_goals exact Part.weight_lt ‹_›

def Projection.splice (removed : List (Select Expr)) (p : Projection Expr) : Projection Expr :=
  Id.run (p.traverse (fun e _ => pure (e.splice removed)) fun s _ => pure (s.splice removed))
termination_by (Part.projection p).weight
decreasing_by all_goals exact Part.weight_lt ‹_›

end

namespace Layers

def removeBelow (s : Select Expr) : Select Expr :=
  match (s.source.map redundant).getD [] with
  | [] => s
  | selects => s.splice selects

def removeTop (p : Projection Expr) : Projection Expr :=
  match p.select.source with
  | some (.select below) =>
    if isRedundant p.select then
      { p with select := below.splice [p.select], projector := p.projector.splice [p.select] }
    else p
  | _ => p

end Layers

open Layers in
mutual

def Expr.removeLayers : Expr → Expr
  | .clientJoin p outerKey innerKey =>
    -- The inner keys name the select of the joined projection, which has to stay.
    .clientJoin ⟨p.select.removeLayers, p.projector.removeLayers, p.pick⟩
      (outerKey.attach.map fun ⟨k, _⟩ => k.removeLayers) innerKey
  | e => Id.run (e.traverse (fun c _ => pure c.removeLayers) (fun s _ => pure s.removeLayers)
      fun p _ => pure p.removeLayers)
termination_by e => (Part.expr e).weight
decreasing_by
  · exact Nat.lt_trans (Part.weight_lt Projection.select_mem)
      (Part.weight_lt (by simp [Part.parts]))
  · exact Nat.lt_trans (Part.weight_lt Projection.projector_mem)
      (Part.weight_lt (by simp [Part.parts]))
  · exact Part.weight_lt (by simp_all [Part.parts])
  all_goals exact Part.weight_lt ‹_›

def Select.removeLayers (s : Select Expr) : Select Expr :=
  removeBelow (Id.run (s.traverse fun e _ => pure e.removeLayers))
termination_by (Part.select s).weight
decreasing_by all_goals exact Part.weight_lt ‹_›

def Projection.removeLayers (p : Projection Expr) : Projection Expr :=
  removeTop (Id.run (p.traverse (fun e _ => pure e.removeLayers) fun s _ => pure s.removeLayers))
termination_by (Part.projection p).weight
decreasing_by all_goals exact Part.weight_lt ‹_›

end

namespace Layers

def isJoin : Expr → Bool
  | .join .. => true
  | _ => false

def canMerge (s below : Select Expr) (outermost : Bool) : Bool :=
  let ordered := !s.orderBy.isEmpty
  let grouped := !s.groupBy.isEmpty
  let combines := s.hasAggregates || grouped || s.source.any isJoin
  let orderedBelow := !below.orderBy.isEmpty
  let paged := s.take.isSome || s.skip.isSome
  below.source.isSome && hasPlainColumns below
    && !(ordered && orderedBelow)
    && !(s.reversed || below.reversed)
    && !(orderedBelow && (grouped || s.hasAggregates || s.distinct))
    && below.groupBy.isEmpty
    -- The rows below are counted off before the filter and the ordering above.
    && !((below.take.isSome || below.skip.isSome) && (s.filter.isSome || ordered))
    && !(below.take.isSome && (paged || s.distinct || combines))
    && !(below.skip.isSome && (s.skip.isSome || s.distinct || combines))
    && !(below.distinct && (paged || !isNameMap s || combines || ordered && !outermost))
    && !(below.hasAggregates && (paged || s.distinct || combines))

def merge (s below : Select Expr) : Select Expr :=
  let merged := s.splice [below]
  { merged with
    orderBy := if merged.orderBy.isEmpty then below.orderBy else merged.orderBy
    groupBy := if merged.groupBy.isEmpty then below.groupBy else merged.groupBy
    skip := merged.skip.or below.skip
    take := merged.take.or below.take
    distinct := merged.distinct || below.distinct
    filter := Expr.conjoin? (below.filter.toList ++ merged.filter.toList) }

def mergeAll (outermost : Bool) : Nat → Select Expr → Select Expr
  | 0, s => s
  | n + 1, s =>
    match s.source.bind leftmost? with
    | none => s
    | some below =>
      if canMerge s below outermost then
        let merged := merge s below
        if Expr.select merged == .select s then s else mergeAll outermost n merged
      else s

end Layers

open Layers in
mutual

/-- Merges selects. The state says whether the outermost select is still to come. -/
def Expr.mergeLayers (e : Expr) : StateM Bool Expr :=
  e.traverse (fun c _ => c.mergeLayers) (fun s _ => s.mergeLayers) fun p _ => p.mergeLayers
termination_by (Part.expr e).weight
decreasing_by all_goals exact Part.weight_lt ‹_›

def Select.mergeLayers (s : Select Expr) : StateM Bool (Select Expr) := do
  let outermost ← getModify fun _ => false
  let s ← s.traverse fun e _ => e.mergeLayers
  return mergeAll outermost (Part.select s).size s
termination_by (Part.select s).weight
decreasing_by all_goals exact Part.weight_lt ‹_›

def Projection.mergeLayers (p : Projection Expr) : StateM Bool (Projection Expr) :=
  p.traverse (fun e _ => e.mergeLayers) fun s _ => s.mergeLayers
termination_by (Part.projection p).weight
decreasing_by all_goals exact Part.weight_lt ‹_›

end

def Expr.collapseLayers (e : Expr) : Expr :=
  (e.removeLayers.mergeLayers.run true).1

end ObjectQuery
