import ObjectQuery.Tree.Parts

/-!
Rebuilding a tree one level down. `traverse` runs an action on every part of a node, in walking
order, and puts the results back in their places. The actions get the proof that they are given a
part, so that a pass can call itself from inside them. `bottomUp` is such a pass: each expression and
each select is finished after its parts.
-/

namespace ObjectQuery

variable {m : Type → Type} [Monad m]

namespace Select

variable {s : Select Expr} {e : Expr}

theorem source_mem (h : e ∈ s.source) : Part.expr e ∈ (Part.select s).parts := by
  simp_all [Part.parts, exprs]

theorem filter_mem (h : e ∈ s.filter) : Part.expr e ∈ (Part.select s).parts := by
  simp_all [Part.parts, exprs]

theorem skip_mem (h : e ∈ s.skip) : Part.expr e ∈ (Part.select s).parts := by
  simp_all [Part.parts, exprs]

theorem take_mem (h : e ∈ s.take) : Part.expr e ∈ (Part.select s).parts := by
  simp_all [Part.parts, exprs]

theorem groupBy_mem (h : e ∈ s.groupBy) : Part.expr e ∈ (Part.select s).parts := by
  simp_all [Part.parts, exprs]

theorem orderBy_mem {o : Order Expr} (h : o ∈ s.orderBy) :
    Part.expr o.expr ∈ (Part.select s).parts := by
  simp only [Part.parts, exprs, List.map_append, List.mem_append, List.map_map, List.mem_map]
  exact .inl (.inl (.inl (.inl (.inr ⟨o, h, rfl⟩))))

theorem columns_mem {c : ColumnDecl Expr} (h : c ∈ s.columns) :
    Part.expr c.expr ∈ (Part.select s).parts := by
  simp only [Part.parts, exprs, List.map_append, List.mem_append, List.map_map, List.mem_map]
  exact .inr ⟨c, h, rfl⟩

def traverse (s : Select Expr)
    (onExpr : (e : Expr) → Part.expr e ∈ (Part.select s).parts → m Expr) : m (Select Expr) := do
  let source ← s.source.attach.mapM fun ⟨e, h⟩ => onExpr e (source_mem h)
  let filter ← s.filter.attach.mapM fun ⟨e, h⟩ => onExpr e (filter_mem h)
  let orderBy ← s.orderBy.attach.mapM fun ⟨o, h⟩ => do
    return { o with expr := ← onExpr o.expr (orderBy_mem h) }
  let groupBy ← s.groupBy.attach.mapM fun ⟨e, h⟩ => onExpr e (groupBy_mem h)
  let skip ← s.skip.attach.mapM fun ⟨e, h⟩ => onExpr e (skip_mem h)
  let take ← s.take.attach.mapM fun ⟨e, h⟩ => onExpr e (take_mem h)
  let columns ← s.columns.attach.mapM fun ⟨c, h⟩ => do
    return { c with expr := ← onExpr c.expr (columns_mem h) }
  return { s with source, filter, orderBy, groupBy, skip, take, columns }

end Select

namespace Projection

variable {p : Projection Expr}

theorem select_mem : Part.select p.select ∈ (Part.projection p).parts := by
  simp [Part.parts]

theorem projector_mem : Part.expr p.projector ∈ (Part.projection p).parts := by
  simp [Part.parts]

def traverse (p : Projection Expr)
    (onExpr : (e : Expr) → Part.expr e ∈ (Part.projection p).parts → m Expr)
    (onSelect : (s : Select Expr) → Part.select s ∈ (Part.projection p).parts → m (Select Expr)) :
    m (Projection Expr) := do
  let select ← onSelect p.select select_mem
  let projector ← onExpr p.projector projector_mem
  return { p with select, projector }

end Projection

def Command.traverse :
    (c : Command Expr) → (onExpr : (e : Expr) → e ∈ c.exprs → m Expr) → m (Command Expr)
  | .insert table assignments, onExpr => do
    let assignments ← assignments.attach.mapM fun ⟨a, h⟩ => do
      return { a with expr := ← onExpr a.expr (List.mem_map_of_mem h) }
    return .insert table assignments
  | .update table filter assignments, onExpr => do
    let filter ← onExpr filter List.mem_cons_self
    let assignments ← assignments.attach.mapM fun ⟨a, h⟩ => do
      return { a with expr := ← onExpr a.expr (List.mem_cons_of_mem _ (List.mem_map_of_mem h)) }
    return .update table filter assignments
  | .delete table filter, onExpr => do
    let filter ← filter.attach.mapM fun ⟨e, h⟩ => onExpr e (by simp_all [exprs])
    return .delete table filter
  | .conditional check onTrue none, onExpr => do
    let check ← onExpr check List.mem_cons_self
    let onTrue ← onTrue.traverse fun e h => onExpr e (by simp_all [exprs])
    return .conditional check onTrue none
  | .conditional check onTrue (some onFalse), onExpr => do
    let check ← onExpr check List.mem_cons_self
    let onTrue ← onTrue.traverse fun e h => onExpr e (by simp_all [exprs])
    let onFalse ← onFalse.traverse fun e h => onExpr e (by simp_all [exprs])
    return .conditional check onTrue (some onFalse)
  | .batch item items operation, onExpr => do
    let items ← items.attach.mapM fun ⟨e, h⟩ => onExpr e (List.mem_append_left _ h)
    let operation ← operation.traverse fun e h => onExpr e (List.mem_append_right _ h)
    return .batch item items operation

namespace Expr

theorem field_mem {typeName : Option String} {fields : List (Field Expr)} {f : Field Expr}
    (h : f ∈ fields) : Part.expr f.expr ∈ (Part.expr (.construct typeName fields)).parts := by
  simpa [Part.parts] using ⟨f, h, rfl⟩

def traverse (e : Expr)
    (onExpr : (c : Expr) → Part.expr c ∈ (Part.expr e).parts → m Expr)
    (onSelect : (s : Select Expr) → Part.select s ∈ (Part.expr e).parts → m (Select Expr))
    (onProjection :
      (p : Projection Expr) → Part.projection p ∈ (Part.expr e).parts → m (Projection Expr)) :
    m Expr :=
  match e with
  | .const v => pure (.const v)
  | .param p => pure (.param p)
  | .operator op => pure (.operator op)
  | .table t => pure (.table t)
  | .column c => pure (.column c)
  | .member target name => do
    return .member (← onExpr target (by simp [Part.parts])) name
  | .binary op left right => do
    let left ← onExpr left (by simp [Part.parts])
    let right ← onExpr right (by simp [Part.parts])
    return .binary op left right
  | .unary op operand => do
    return .unary op (← onExpr operand (by simp [Part.parts]))
  | .cond test onTrue onFalse => do
    let test ← onExpr test (by simp [Part.parts])
    let onTrue ← onExpr onTrue (by simp [Part.parts])
    let onFalse ← onExpr onFalse (by simp [Part.parts])
    return .cond test onTrue onFalse
  | .call function args => do
    let args ← args.attach.mapM fun ⟨a, h⟩ => onExpr a (by simp [Part.parts, h])
    return .call function args
  | .construct typeName fields => do
    let fields ← fields.attach.mapM fun ⟨f, h⟩ => do
      return { f with expr := ← onExpr f.expr (field_mem h) }
    return .construct typeName fields
  | .lambda l => do
    return .lambda { l with body := ← onExpr l.body (by simp [Part.parts]) }
  | .select s => do
    return .select (← onSelect s (by simp [Part.parts]))
  | .join kind left right on => do
    let left ← onExpr left (by simp [Part.parts])
    let right ← onExpr right (by simp [Part.parts])
    let on ← on.attach.mapM fun ⟨e, h⟩ => onExpr e (by simp_all [Part.parts])
    return .join kind left right on
  | .setOp rel kind left right => do
    let left ← onSelect left (by simp [Part.parts])
    let right ← onSelect right (by simp [Part.parts])
    return .setOp rel kind left right
  | .aggregate kind argument distinct => do
    let argument ← argument.attach.mapM fun ⟨e, h⟩ => onExpr e (by simp_all [Part.parts])
    return .aggregate kind argument distinct
  | .groupAggregate correlation owner inGroup fallback => do
    let inGroup ← onExpr inGroup (by simp [Part.parts])
    let fallback ← onSelect fallback (by simp [Part.parts])
    return .groupAggregate correlation owner inGroup fallback
  | .scalar s => do
    return .scalar (← onSelect s (by simp [Part.parts]))
  | .existsIn s => do
    return .existsIn (← onSelect s (by simp [Part.parts]))
  | .inSelect item s => do
    let item ← onExpr item (by simp [Part.parts])
    let s ← onSelect s (by simp [Part.parts])
    return .inSelect item s
  | .inValues item values => do
    let item ← onExpr item (by simp [Part.parts])
    let values ← values.attach.mapM fun ⟨v, h⟩ => onExpr v (by simp [Part.parts, h])
    return .inValues item values
  | .isNull operand => do
    return .isNull (← onExpr operand (by simp [Part.parts]))
  | .between operand lower upper => do
    let operand ← onExpr operand (by simp [Part.parts])
    let lower ← onExpr lower (by simp [Part.parts])
    let upper ← onExpr upper (by simp [Part.parts])
    return .between operand lower upper
  | .rowNumber orderBy => do
    let orderBy ← orderBy.attach.mapM fun ⟨o, h⟩ => do
      return { o with expr := ← onExpr o.expr (by simpa [Part.parts] using ⟨o, h, rfl⟩) }
    return .rowNumber orderBy
  | .projection p => do
    return .projection (← onProjection p (by simp [Part.parts]))
  | .clientJoin p outerKey innerKey => do
    let outerKey ← outerKey.attach.mapM fun ⟨k, h⟩ => onExpr k (by simp [Part.parts, h])
    let p ← onProjection p (by simp [Part.parts])
    let innerKey ← innerKey.attach.mapM fun ⟨k, h⟩ => onExpr k (by simp [Part.parts, h])
    return .clientJoin p outerKey innerKey
  | .entity name e => do
    return .entity name (← onExpr e (by simp [Part.parts]))
  | .outerJoined test e => do
    let test ← onExpr test (by simp [Part.parts])
    let e ← onExpr e (by simp [Part.parts])
    return .outerJoined test e
  | .grouping key group => do
    let key ← onExpr key (by simp [Part.parts])
    let group ← onExpr group (by simp [Part.parts])
    return .grouping key group
  | .command c => do
    return .command (← c.traverse fun e h => onExpr e (by simp [Part.parts, h]))

end Expr

structure Finish (m : Type → Type) where
  expr : Expr → m Expr
  select : Select Expr → m (Select Expr)

mutual

def Expr.bottomUp (finish : Finish m) (e : Expr) : m Expr := do
  finish.expr (← e.traverse (fun c _ => c.bottomUp finish) (fun s _ => s.bottomUp finish)
    fun p _ => p.bottomUp finish)
termination_by (Part.expr e).weight
decreasing_by all_goals exact Part.weight_lt ‹_›

def Select.bottomUp (finish : Finish m) (s : Select Expr) : m (Select Expr) := do
  finish.select (← s.traverse fun e _ => e.bottomUp finish)
termination_by (Part.select s).weight
decreasing_by all_goals exact Part.weight_lt ‹_›

def Projection.bottomUp (finish : Finish m) (p : Projection Expr) : m (Projection Expr) :=
  p.traverse (fun e _ => e.bottomUp finish) fun s _ => s.bottomUp finish
termination_by (Part.projection p).weight
decreasing_by all_goals exact Part.weight_lt ‹_›

end

end ObjectQuery
