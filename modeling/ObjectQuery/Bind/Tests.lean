import ObjectQuery.Bind.Sequences

/-!
Operators that pick one element and operators that ask about a whole sequence. A question about a
sequence becomes EXISTS or IN, and a plain condition when the sequence is a list of constants. At
the root of a query the answer is read from a select of one row.
-/

namespace ObjectQuery.Binding

def singleRow (value : Expr) : Binding Expr := do
  let rel ← Supply.freshAlias
  let column := ColumnDecl.of "value" value
  return .projection {
    select := .plain rel [column] none none
    projector := .column ⟨rel, "value", column.type⟩
    pick := some .singleOrDefault }

def answer (root : Bool) (value : Expr) : Binding Expr :=
  if root then singleRow value else return value

def element (ctx : Context) (root : Bool) (source : Binding Expr) (pick : Pick)
    (predicate : Option Body) : Binding (Projection Expr) := do
  let p ← sequence ctx source
  let condition ← predicate.mapM fun body => apply "Element" body p.projector
  let take := if pick.isSingle then none else some (Expr.int 1)
  let p ←
    if take.isSome || condition.isSome then
      layer ctx p fun s => { s with filter := condition, take, reversed := pick.isLast }
    else pure p
  return if root then { p with pick := some pick } else p

inductive Quantifier where
  | some
  | all
deriving DecidableEq, Repr

def askList (quantifier : Quantifier) (values : List Value) (predicate : Option Body) :
    Binding Expr := do
  match predicate with
  | none => return .const (.bool !values.isEmpty)
  | some body =>
    let terms ← values.mapM fun v => apply "Any" body (.const v)
    let (op, neutral) := match quantifier with
      | .some => (BinaryOp.or, false)
      | .all => (BinaryOp.and, true)
    match terms with
    | [] => return .const (.bool neutral)
    | t :: rest => return rest.foldl (.binary op) t

/-- A question about the rows of a select, where the rows are those that speak for (or, for all of
them, against) the answer. -/
def askRows (ctx : Context) (root : Bool) (quantifier : Quantifier) (s : Select Expr) :
    Binding Expr := do
  let found : Expr := .existsIn s
  let holds := match quantifier with
    | .some => found
    | .all => .negated found
  if !root then return holds
  if ctx.dialect.allowsSelectWithoutSource then return ← singleRow holds
  let column := ColumnDecl.of "value" (.aggregate .count none false)
  let count : Expr := .column ⟨s.rel, "value", column.type⟩
  let test := match quantifier with
    | .some => Expr.binary .gt count (.int 0)
    | .all => .equals count (.int 0)
  return .projection ⟨{ s with columns := [column] }, test, some .single⟩

def ask (ctx : Context) (root : Bool) (quantifier : Quantifier) (source : Binding Expr)
    (predicate : Option Body) : Binding Expr := do
  let rows ← match predicate, quantifier with
    | none, _ => sequence ctx source
    | some body, .some => filter ctx source body
    | some body, .all => filter ctx source { body with bind := do return .negated (← body.bind) }
  askRows ctx root quantifier rows.select

def listContains (root : Bool) (values : List Value) (item : Binding Expr) : Binding Expr := do
  answer root (.inValues (← item) (values.map .const))

/-- Whether an item is among the elements of a sequence: IN where an element is one column, and
otherwise whether some element equals it. -/
def contains (ctx : Context) (root : Bool) (source item : Binding Expr) : Binding Expr := do
  let p ← sequence ctx source
  if p.select.columns.length = 1 && (!root || ctx.dialect.allowsSelectWithoutSource) then
    answer root (.inSelect (← item) p.select)
  else
    let x ← Supply.freshParam
    ask ctx root .some (Expr.projection p).rebind
      (some ⟨[x], do return .equals (← param x) (← item)⟩)

end ObjectQuery.Binding
