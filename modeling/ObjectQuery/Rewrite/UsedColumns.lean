import ObjectQuery.Tree.Traverse

/-!
Dropping columns that nobody reads. The walk meets the readers of a column before the select that
declares it: the projector before its select, the columns of a select before its other clauses and
its source, the condition and the right side of a join before the left side. A select keeps the
columns read so far. A select that drops repeated rows, one whose rows are counted and the operands
of a set operation keep all.
-/

namespace ObjectQuery

namespace UsedColumns

structure State where
  used : List (Alias × String)
  keepAll : Bool

abbrev Walk := StateM State

def mark (rel : Alias) (name : String) : Walk Unit :=
  modify fun s => { s with used := (rel, name) :: s.used }

/-- A subquery that stands for a value is read at its first column. -/
def markFirst (s : Select Expr) : Walk Unit :=
  match s.columns with
  | d :: _ => mark s.rel d.name
  | [] => pure ()

def markOwn : Expr → Walk Unit
  | .column c => mark c.rel c.name
  | .aggregate kind none _ => if kind.isCount then modify fun s => { s with keepAll := true } else pure ()
  | .scalar s | .inSelect _ s => markFirst s
  | _ => pure ()

def keeps (state : State) (s : Select Expr) (d : ColumnDecl Expr) : Bool :=
  state.keepAll || s.distinct || state.used.contains (s.rel, d.name)

end UsedColumns

open UsedColumns in
mutual

def Expr.keepUsed : Expr → Walk Expr
  | .join kind left right on => do
    let on ← on.attach.mapM fun ⟨e, _⟩ => e.keepUsed
    let right ← right.keepUsed
    let left ← left.keepUsed
    return .join kind left right on
  | .clientJoin p outerKey innerKey => do
    let innerKey ← innerKey.attach.mapM fun ⟨k, _⟩ => k.keepUsed
    let outerKey ← outerKey.attach.mapM fun ⟨k, _⟩ => k.keepUsed
    let p ← p.keepUsed
    return .clientJoin p outerKey innerKey
  | .setOp rel kind left right => do
    let saved ← modifyGet fun s => (s.keepAll, { s with keepAll := true })
    let left ← left.keepUsed
    let right ← right.keepUsed
    modify fun s => { s with keepAll := saved }
    return .setOp rel kind left right
  | e => do
    markOwn e
    e.traverse (fun c _ => c.keepUsed) (fun s _ => s.keepUsed) fun p _ => p.keepUsed
termination_by e => (Part.expr e).weight
decreasing_by
  · exact Part.weight_lt (by simp_all [Part.parts])
  · exact Part.weight_lt (by simp [Part.parts])
  · exact Part.weight_lt (by simp [Part.parts])
  · exact Part.weight_lt (by simp_all [Part.parts])
  · exact Part.weight_lt (by simp_all [Part.parts])
  · exact Part.weight_lt (by simp [Part.parts])
  · exact Part.weight_lt (by simp [Part.parts])
  · exact Part.weight_lt (by simp [Part.parts])
  all_goals exact Part.weight_lt ‹_›

def Select.keepUsed (s : Select Expr) : Walk (Select Expr) := do
  let known ← modifyGet fun state => (state, { state with keepAll := false })
  let kept := s.columns.attach.filter fun ⟨d, _⟩ => keeps known s d
  let columns ← kept.mapM fun ⟨d, _⟩ => do return { d with expr := ← d.expr.keepUsed }
  let take ← s.take.attach.mapM fun ⟨e, _⟩ => e.keepUsed
  let skip ← s.skip.attach.mapM fun ⟨e, _⟩ => e.keepUsed
  let groupBy ← s.groupBy.attach.mapM fun ⟨e, _⟩ => e.keepUsed
  let orderBy ← s.orderBy.attach.mapM fun ⟨o, _⟩ => do
    return { o with expr := ← o.expr.keepUsed }
  let filter ← s.filter.attach.mapM fun ⟨e, _⟩ => e.keepUsed
  let source ← s.source.attach.mapM fun ⟨e, _⟩ => e.keepUsed
  modify fun state =>
    { used := state.used.filter (·.1 ≠ s.rel), keepAll := known.keepAll }
  return { s with columns, source, filter, orderBy, groupBy, skip, take }
termination_by (Part.select s).weight
decreasing_by
  · exact Part.weight_lt (Select.columns_mem ‹_›)
  · exact Part.weight_lt (Select.take_mem ‹_›)
  · exact Part.weight_lt (Select.skip_mem ‹_›)
  · exact Part.weight_lt (Select.groupBy_mem ‹_›)
  · exact Part.weight_lt (Select.orderBy_mem ‹_›)
  · exact Part.weight_lt (Select.filter_mem ‹_›)
  · exact Part.weight_lt (Select.source_mem ‹_›)

def Projection.keepUsed (p : Projection Expr) : Walk (Projection Expr) := do
  let projector ← p.projector.keepUsed
  let select ← p.select.keepUsed
  return { p with select, projector }
termination_by (Part.projection p).weight
decreasing_by
  · exact Part.weight_lt Projection.projector_mem
  · exact Part.weight_lt Projection.select_mem

end

def Expr.dropUnusedColumns (e : Expr) : Expr :=
  (e.keepUsed.run ⟨[], false⟩).1

end ObjectQuery
