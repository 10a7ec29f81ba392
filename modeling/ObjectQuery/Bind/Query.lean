import ObjectQuery.Bind.Groups
import ObjectQuery.Bind.Sets
import ObjectQuery.Bind.Writes
import ObjectQuery.Tree.Operands

/-!
Binding a whole query, operator by operator. An operator is bound from its operands, which are bound
when the operator asks for them: once, several times, or after a parameter was given its meaning.
-/

namespace ObjectQuery

def Expr.peeled : Expr → Expr
  | .operator (.defaultIfEmpty source) | .operator (.distinct source) => source
  | e => e

theorem Expr.sizeOf_peeled_le (e : Expr) : sizeOf e.peeled ≤ sizeOf e := by
  unfold peeled
  split <;> simp +arith

structure Operand where
  expr : Expr
  bind : Binding Expr
  bindPeeled : Binding Expr

namespace Operand

def hasDefault (o : Operand) : Bool :=
  match o.expr with
  | .operator (.defaultIfEmpty _) => true
  | _ => false

def isDistinct (o : Operand) : Bool :=
  match o.expr with
  | .operator (.distinct _) => true
  | _ => false

def constants? (o : Operand) : Option (List Value) :=
  match o.expr with
  | .const (.list values) => some values
  | _ => none

end Operand

def Lambda.toBody (l : Lambda Operand) : Body := ⟨l.params, l.body.bind⟩

/-- Binds an operator. At the root of a query an answer that is no sequence is read from a select of
its own. `bindLater` binds the key of a secondary ordering. -/
def Operator.bind (ctx : Context) (root : Bool) (bindLater : Lambda Expr → Binding Expr) :
    Operator Operand → Binding Expr
  | .table entity => do return .projection (← ctx.mapping.relation entity)
  | .filter source predicate => do
    return .projection (← Binding.filter ctx source.bind predicate.toBody)
  | .map source selector => do
    return .projection (← Binding.map ctx source.bind selector.toBody)
  | .flatMap source collection result => do
    let orDefault := collection.body.hasDefault
    let body := if orDefault then collection.body.bindPeeled else collection.body.bind
    return .projection (← Binding.flatMap ctx source.bind ⟨collection.params, body⟩ orDefault
      (result.map (·.toBody)))
  | .join outer inner outerKey innerKey result => do
    return .projection (← Binding.join ctx outer.bind inner.bind outerKey.toBody innerKey.toBody
      result.toBody)
  | .groupJoin outer inner outerKey innerKey result => do
    return .projection (← Binding.groupJoin ctx outer.bind inner.bind outerKey.toBody
      innerKey.toBody result.toBody)
  | .orderBy source key direction => do
    return .projection (← Binding.orderBy ctx source.bind key.toBody direction bindLater)
  | .thenBy source key direction => do
    Binding.postpone ⟨key.params, key.body.expr⟩ direction
    source.bind
  | .groupBy source key selector result => do
    return .projection (← Binding.groupBy ctx source.bind key.toBody (selector.map (·.toBody))
      (result.map (·.toBody)))
  | .distinct source => do
    return .projection (← Binding.clause ctx source.bind fun s => { s with distinct := true })
  | .take source count => do
    let count ← count.bind
    return .projection (← Binding.clause ctx source.bind fun s => { s with take := some count })
  | .skip source count => do
    let count ← count.bind
    return .projection (← Binding.clause ctx source.bind fun s => { s with skip := some count })
  | .reverse source => do
    return .projection (← Binding.clause ctx source.bind fun s => { s with reversed := true })
  | .cast source _ => do return .projection (← Binding.sequence ctx source.bind)
  | .defaultIfEmpty source => do return .projection (← Binding.defaultIfEmpty ctx source.bind)
  | .element source pick predicate => do
    return .projection (← Binding.element ctx root source.bind pick (predicate.map (·.toBody)))
  | .aggregate source kind argument =>
    -- A count has no argument that could carry the distinction.
    if source.isDistinct && !kind.isCount && ctx.dialect.allowsDistinctInAggregates then
      Binding.aggregate ctx root source.bindPeeled true kind (argument.map (·.toBody))
    else
      Binding.aggregate ctx root source.bind false kind (argument.map (·.toBody))
  | .any source predicate =>
    match source.constants? with
    | some values => do
      Binding.answer root (← Binding.askList .some values (predicate.map (·.toBody)))
    | none => Binding.ask ctx root .some source.bind (predicate.map (·.toBody))
  | .all source predicate =>
    match source.constants? with
    | some values => do
      Binding.answer root (← Binding.askList .all values (some predicate.toBody))
    | none => Binding.ask ctx root .all source.bind (some predicate.toBody)
  | .contains source item =>
    match source.constants? with
    | some values => Binding.listContains root values item.bind
    | none => Binding.contains ctx root source.bind item.bind
  | .setOp kind left right =>
    match kind with
    | .union => Binding.union ctx .union left.bind right.bind
    | .concat => Binding.union ctx .unionAll left.bind right.bind
    | .intersect => Binding.membership ctx false left.bind right.bind right.constants?
    | .except => Binding.membership ctx true left.bind right.bind right.constants?
  | .insert entity item => do return .command (← Binding.insert ctx entity item.bind)
  | .update entity item check => do
    return .command (← Binding.update ctx entity item.bind (check.map (·.toBody)))
  | .insertOrUpdate entity item check => do
    return .command (← Binding.insertOrUpdate ctx entity item.bind (check.map (·.toBody)))
  | .delete entity item predicate => do
    return .command (← Binding.delete ctx entity (item.map (·.bind)) (predicate.map (·.toBody)))
  | .batch items operation => do
    return .command (← Binding.batch (items.map (·.bind)) operation.toBody)

mutual

/-- Binds an expression. The keys of secondary orderings are bound at most `fuel` deep into each
other. -/
def Expr.bindAt (ctx : Context) (fuel : Nat) (root : Bool) : Expr → Binding Expr
  | .param p => Binding.param p
  | .member target name => do return (← target.bindAt ctx fuel false).bindMember name
  | .operator op =>
    let bindLater : Lambda Expr → Binding Expr := match fuel with
      | 0 => fun _ => throw .tooDeep
      | fuel + 1 => fun l => l.body.bindAt ctx fuel false
    Operator.bind ctx root bindLater (op.mapMem fun e _ =>
      { expr := e, bind := e.bindAt ctx fuel false, bindPeeled := e.peeled.bindAt ctx fuel false })
  | e =>
    e.traverse (fun c _ => c.bindAt ctx fuel false) (fun s _ => s.bindAt ctx fuel)
      fun p _ => p.bindAt ctx fuel
termination_by e => (fuel, (Part.expr e).weight)
decreasing_by
  · exact Prod.Lex.right _ (Part.weight_lt (by simp [Part.parts]))
  · exact Prod.Lex.left _ _ (Nat.lt_succ_self _)
  · exact Prod.Lex.right _ (Operator.weight_lt ‹_›)
  · exact Prod.Lex.right _
      (Nat.lt_of_le_of_lt (Expr.sizeOf_peeled_le _) (Operator.weight_lt ‹_›))
  all_goals exact Prod.Lex.right _ (Part.weight_lt ‹_›)

def Select.bindAt (ctx : Context) (fuel : Nat) (s : Select Expr) : Binding (Select Expr) :=
  s.traverse fun e _ => e.bindAt ctx fuel false
termination_by (fuel, (Part.select s).weight)
decreasing_by all_goals exact Prod.Lex.right _ (Part.weight_lt ‹_›)

def Projection.bindAt (ctx : Context) (fuel : Nat) (p : Projection Expr) :
    Binding (Projection Expr) :=
  p.traverse (fun e _ => e.bindAt ctx fuel false) fun s _ => s.bindAt ctx fuel
termination_by (fuel, (Part.projection p).weight)
decreasing_by all_goals exact Prod.Lex.right _ (Part.weight_lt ‹_›)

end

def Expr.bind (ctx : Context) (e : Expr) : Minting BindError Expr := fun supply =>
  let start : BindState :=
    { supply, params := [], groups := [], openGroup := none, pending := [] }
  match (e.bindAt ctx (Part.expr e).extent true).run start with
  | .ok (bound, s) => .ok (bound, s.supply)
  | .error e => .error e

end ObjectQuery
