import ObjectQuery.Tree.Encode

/-!
Reading trees from their JSON form. Members that a node does not know are passed over, an optional
member may be absent or `null`, and the members of a record may be written as a list, without their
names. Any other difference from the written form is refused.
-/

namespace ObjectQuery

namespace Json

mutual

def depth : Json → Nat
  | .arr items => itemsDepth items + 1
  | .obj members => membersDepth members + 1
  | _ => 0

def itemsDepth : List Json → Nat
  | [] => 0
  | j :: rest => max j.depth (itemsDepth rest)

def membersDepth : List (String × Json) → Nat
  | [] => 0
  | (_, j) :: rest => max j.depth (membersDepth rest)

end

def tag? : Json → Option (String × Json)
  | .obj [(kind, content)] => some (kind, content)
  | _ => none

def label? : Json → Option String
  | .str s => some s
  | .obj [(s, .null)] => some s
  | _ => none

/-- A record may be written as the list of its members, all of them in the order of `keys`. -/
def record (keys : List String) : Json → Json
  | .arr items => if items.length = keys.length then .obj (keys.zip items) else .null
  | j => j

def text? (key : String) (j : Json) : Option String := (j.get? key).bind asString?

def flag? (key : String) (j : Json) : Option Bool := (j.get? key).bind asBool?

def asId? : Json → Option Nat
  | .int n => if 0 ≤ n ∧ n < 0x10000000000000000 then some n.toNat else none
  | _ => none

def asInt64? : Json → Option Int
  | .int n => if -0x8000000000000000 ≤ n ∧ n < 0x8000000000000000 then some n else none
  | _ => none

def list? {α : Type} (key : String) (decode : Json → Option α) (j : Json) : Option (List α) := do
  (← (← j.get? key).asArray?).mapM decode

def option? {α : Type} (key : String) (decode : Json → Option α) (j : Json) : Option (Option α) :=
  match j.field? key with
  | none => some none
  | some content => (decode content).map some

def member? {α : Type} (key : String) (decode : Json → Option α) (j : Json) : Option α :=
  (j.get? key).bind decode

end Json

def ofLabel? {α : Type} (label : α → String) (cases : List α) (j : Json) : Option α := do
  let name ← j.label?
  cases.find? (label · == name)

def ColumnType.decode : Json → Option ColumnType :=
  ofLabel? label all

def BinaryOp.decode : Json → Option BinaryOp :=
  ofLabel? label [.add, .subtract, .multiply, .divide, .modulo, .eq, .notEq, .lt, .ltEq, .gt, .gtEq,
    .and, .or, .coalesce]

def UnaryOp.decode : Json → Option UnaryOp := ofLabel? label [.not, .negate]

def Direction.decode : Json → Option Direction := ofLabel? label [.ascending, .descending]

def JoinKind.decode : Json → Option JoinKind :=
  ofLabel? label [.cross, .inner, .leftOuter, .crossApply, .outerApply]

def SetKind.decode : Json → Option SetKind := ofLabel? label [.union, .unionAll]

def AggregateKind.decode (j : Json) : Option AggregateKind := j.label?.bind ofName?

def Pick.decode (j : Json) : Option Pick := j.label?.bind ofName?

def SetRequest.decode : Json → Option SetRequest :=
  ofLabel? label [.union, .concat, .intersect, .except]

def Alias.decode (j : Json) : Option Alias := j.asId?.map Alias.mk

def Param.decode (j : Json) : Option Param := j.asId?.map Param.mk

mutual

def Value.decode : Json → Option Value
  | .str "Null" => some .null
  | .obj [("Null", .null)] => some .null
  | .obj [("Bool", .bool b)] => some (.bool b)
  | .obj [("Int", j)] => j.asInt64?.map .int
  | .obj [("Float", .float x)] => some (.float x)
  | .obj [("Float", .int n)] => some (.float (Float.ofInt n))
  | .obj [("Text", .str s)] => some (.text s)
  | .obj [("List", .arr items)] => (decodeValues items).map .list
  | _ => none
termination_by structural j => j

def decodeValues : List Json → Option (List Value)
  | [] => some []
  | j :: rest => do
    let v ← Value.decode j
    let vs ← decodeValues rest
    some (v :: vs)
termination_by structural js => js

end

def Table.decode (j : Json) : Option Table := do
  let j := j.record ["alias", "entity", "name"]
  let rel ← j.member? "alias" Alias.decode
  let entity ← j.text? "entity"
  let name ← j.text? "name"
  some { rel, entity, name }

def Column.decode (j : Json) : Option Column := do
  let j := j.record ["alias", "name", "sql_type"]
  let rel ← j.member? "alias" Alias.decode
  let name ← j.text? "name"
  let type ← j.member? "sql_type" ColumnType.decode
  some { rel, name, type }

section Containers

variable {ε : Type} (decode : Json → Option ε)

def ColumnDecl.decodeWith (j : Json) : Option (ColumnDecl ε) := do
  let j := j.record ["name", "expression", "sql_type"]
  let name ← j.text? "name"
  let expr ← j.member? "expression" decode
  let type ← j.member? "sql_type" ColumnType.decode
  some { name, expr, type }

def Order.decodeWith (j : Json) : Option (Order ε) := do
  let j := j.record ["order_type", "expression"]
  let direction ← j.member? "order_type" Direction.decode
  let expr ← j.member? "expression" decode
  some { direction, expr }

def Field.decodeWith (j : Json) : Option (Field ε) := do
  let j := j.record ["name", "expr"]
  let name ← j.text? "name"
  let expr ← j.member? "expr" decode
  some { name, expr }

def Lambda.decodeWith (j : Json) : Option (Lambda ε) := do
  let j := j.record ["params", "body"]
  let params ← j.list? "params" Param.decode
  let body ← j.member? "body" decode
  some { params, body }

def Select.decodeWith (j : Json) : Option (Select ε) := do
  let j := j.record ["alias", "columns", "from", "where_clause", "order_by", "group_by",
    "is_distinct", "skip", "take", "is_reverse"]
  let rel ← j.member? "alias" Alias.decode
  let columns ← j.list? "columns" (ColumnDecl.decodeWith decode)
  let source ← j.option? "from" decode
  let filter ← j.option? "where_clause" decode
  let orderBy ← j.list? "order_by" (Order.decodeWith decode)
  let groupBy ← j.list? "group_by" decode
  let distinct ← j.flag? "is_distinct"
  let skip ← j.option? "skip" decode
  let take ← j.option? "take" decode
  let reversed ← j.flag? "is_reverse"
  some { rel, columns, source, filter, orderBy, groupBy, distinct, skip, take, reversed }

def Projection.decodeWith (j : Json) : Option (Projection ε) := do
  let j := j.record ["select", "projector", "aggregator"]
  let select ← j.member? "select" (Select.decodeWith decode)
  let projector ← j.member? "projector" decode
  let pick ← j.option? "aggregator" Pick.decode
  some { select, projector, pick }

def Assignment.decodeWith (j : Json) : Option (Assignment ε) := do
  let j := j.record ["column", "expression"]
  let column ← j.member? "column" Column.decode
  let expr ← j.member? "expression" decode
  some { column, expr }

def Command.decodeWith (fuel : Nat) (j : Json) : Option (Command ε) :=
  match fuel with
  | 0 => none
  | fuel + 1 => do
    let (kind, j) ← j.tag?
    match kind with
    | "Insert" =>
      let table ← j.member? "table" Table.decode
      let assignments ← j.list? "assignments" (Assignment.decodeWith decode)
      some (.insert table assignments)
    | "Update" =>
      let table ← j.member? "table" Table.decode
      let filter ← j.member? "where_clause" decode
      let assignments ← j.list? "assignments" (Assignment.decodeWith decode)
      some (.update table filter assignments)
    | "Delete" =>
      let table ← j.member? "table" Table.decode
      let filter ← j.option? "where_clause" decode
      some (.delete table filter)
    | "If" =>
      let check ← j.member? "check" decode
      let onTrue ← j.member? "if_true" (decodeWith fuel)
      let onFalse ← j.option? "if_false" (decodeWith fuel)
      some (.conditional check onTrue onFalse)
    | "Batch" =>
      let item ← j.member? "item" Param.decode
      let items ← j.list? "items" decode
      let operation ← j.member? "operation" (decodeWith fuel)
      some (.batch item items operation)
    | _ => none

def Operator.decodeWith (j : Json) : Option (Operator ε) := do
  let (kind, j) ← j.tag?
  let source := j.member? "source" decode
  let lambda := fun (key : String) => j.member? key (Lambda.decodeWith decode)
  let optionalLambda := fun (key : String) => j.option? key (Lambda.decodeWith decode)
  match kind with
  | "Table" => some (.table (← j.text? "entity"))
  | "Where" => some (.filter (← source) (← lambda "predicate"))
  | "Select" => some (.map (← source) (← lambda "selector"))
  | "SelectMany" =>
    some (.flatMap (← source) (← lambda "collection") (← optionalLambda "result"))
  | "Join" =>
    some (.join (← j.member? "outer" decode) (← j.member? "inner" decode) (← lambda "outer_key")
      (← lambda "inner_key") (← lambda "result"))
  | "GroupJoin" =>
    some (.groupJoin (← j.member? "outer" decode) (← j.member? "inner" decode)
      (← lambda "outer_key") (← lambda "inner_key") (← lambda "result"))
  | "OrderBy" =>
    some (.orderBy (← source) (← lambda "key") (← j.member? "order_type" Direction.decode))
  | "ThenBy" =>
    some (.thenBy (← source) (← lambda "key") (← j.member? "order_type" Direction.decode))
  | "GroupBy" =>
    some (.groupBy (← source) (← lambda "key") (← optionalLambda "element")
      (← optionalLambda "result"))
  | "Distinct" => some (.distinct (← source))
  | "Take" => some (.take (← source) (← j.member? "count" decode))
  | "Skip" => some (.skip (← source) (← j.member? "count" decode))
  | "Reverse" => some (.reverse (← source))
  | "Cast" => some (.cast (← source) (← j.text? "type_name"))
  | "DefaultIfEmpty" => some (.defaultIfEmpty (← source))
  | "Element" =>
    some (.element (← source) (← j.member? "aggregator" Pick.decode) (← optionalLambda "predicate"))
  | "Aggregate" =>
    some (.aggregate (← source) (← j.member? "kind" AggregateKind.decode)
      (← optionalLambda "argument"))
  | "Any" => some (.any (← source) (← optionalLambda "predicate"))
  | "All" => some (.all (← source) (← lambda "predicate"))
  | "Contains" => some (.contains (← source) (← j.member? "item" decode))
  | "SetOperation" =>
    some (.setOp (← j.member? "kind" SetRequest.decode) (← j.member? "left" decode)
      (← j.member? "right" decode))
  | "Insert" => some (.insert (← j.text? "entity") (← j.member? "instance" decode))
  | "Update" =>
    some (.update (← j.text? "entity") (← j.member? "instance" decode) (← optionalLambda "check"))
  | "InsertOrUpdate" =>
    some (.insertOrUpdate (← j.text? "entity") (← j.member? "instance" decode)
      (← optionalLambda "check"))
  | "Delete" =>
    some (.delete (← j.text? "entity") (← j.option? "instance" decode)
      (← optionalLambda "predicate"))
  | "Batch" => some (.batch (← j.list? "items" decode) (← lambda "operation"))
  | _ => none

end Containers

namespace Expr

def memberOrder : List (String × List String) :=
  [("Member", ["expr", "member"]), ("Binary", ["op", "left", "right"]),
    ("Unary", ["op", "operand"]), ("Conditional", ["test", "if_true", "if_false"]),
    ("Call", ["function", "args"]), ("New", ["type_name", "members"]),
    ("Join", ["kind", "left", "right", "condition"]),
    ("SetOperation", ["alias", "kind", "left", "right"]),
    ("Aggregate", ["kind", "argument", "is_distinct"]),
    ("AggregateSubquery",
      ["correlation_id", "group_by_alias", "aggregate_in_group_select", "subquery"]),
    ("Scalar", ["select"]), ("Exists", ["select"]), ("InSubquery", ["expr", "select"]),
    ("InValues", ["expr", "values"]), ("Between", ["expr", "lower", "upper"]),
    ("RowNumber", ["order_by"]), ("ClientJoin", ["projection", "outer_key", "inner_key"]),
    ("Entity", ["entity", "expr"]), ("OuterJoined", ["test", "expr"]),
    ("Grouping", ["key", "group"])]

def decodeWithin (fuel : Nat) (j : Json) : Option Expr :=
  match fuel with
  | 0 => none
  | fuel + 1 => do
    let decode := decodeWithin fuel
    let decodeSelect := Select.decodeWith decode
    let (kind, j) ← j.tag?
    let j := match memberOrder.lookup kind with
      | some keys => j.record keys
      | none => j
    let target := j.member? "expr" decode
    match kind with
    | "Constant" => some (.const (← Value.decode j))
    | "Parameter" => some (.param (← Param.decode j))
    | "Member" => some (.member (← target) (← j.text? "member"))
    | "Binary" =>
      some (.binary (← j.member? "op" BinaryOp.decode) (← j.member? "left" decode)
        (← j.member? "right" decode))
    | "Unary" => some (.unary (← j.member? "op" UnaryOp.decode) (← j.member? "operand" decode))
    | "Conditional" =>
      some (.cond (← j.member? "test" decode) (← j.member? "if_true" decode)
        (← j.member? "if_false" decode))
    | "Call" => some (.call (← j.text? "function") (← j.list? "args" decode))
    | "New" =>
      some (.construct (← j.option? "type_name" Json.asString?)
        (← j.list? "members" (Field.decodeWith decode)))
    | "Lambda" => some (.lambda (← Lambda.decodeWith decode j))
    | "Operator" => some (.operator (← Operator.decodeWith decode j))
    | "Table" => some (.table (← Table.decode j))
    | "Column" => some (.column (← Column.decode j))
    | "Select" => some (.select (← decodeSelect j))
    | "Join" =>
      some (.join (← j.member? "kind" JoinKind.decode) (← j.member? "left" decode)
        (← j.member? "right" decode) (← j.option? "condition" decode))
    | "SetOperation" =>
      some (.setOp (← j.member? "alias" Alias.decode) (← j.member? "kind" SetKind.decode)
        (← j.member? "left" decodeSelect) (← j.member? "right" decodeSelect))
    | "Aggregate" =>
      some (.aggregate (← j.member? "kind" AggregateKind.decode) (← j.option? "argument" decode)
        (← j.flag? "is_distinct"))
    | "AggregateSubquery" =>
      some (.groupAggregate (← j.member? "correlation_id" Json.asId?)
        (← j.member? "group_by_alias" Alias.decode)
        (← j.member? "aggregate_in_group_select" decode)
        (← ((← j.get? "subquery").record ["select"]).member? "select" decodeSelect))
    | "Scalar" => some (.scalar (← j.member? "select" decodeSelect))
    | "Exists" => some (.existsIn (← j.member? "select" decodeSelect))
    | "InSubquery" => some (.inSelect (← target) (← j.member? "select" decodeSelect))
    | "InValues" => some (.inValues (← target) (← j.list? "values" decode))
    | "IsNull" => some (.isNull (← decode j))
    | "Between" =>
      some (.between (← target) (← j.member? "lower" decode) (← j.member? "upper" decode))
    | "RowNumber" => some (.rowNumber (← j.list? "order_by" (Order.decodeWith decode)))
    | "Projection" => some (.projection (← Projection.decodeWith decode j))
    | "ClientJoin" =>
      some (.clientJoin (← j.member? "projection" (Projection.decodeWith decode))
        (← j.list? "outer_key" decode) (← j.list? "inner_key" decode))
    | "Entity" => some (.entity (← j.text? "entity") (← target))
    | "OuterJoined" => some (.outerJoined (← j.member? "test" decode) (← target))
    | "Grouping" => some (.grouping (← j.member? "key" decode) (← j.member? "group" decode))
    | "Command" => some (.command (← Command.decodeWith decode fuel j))
    | _ => none

def decode (j : Json) : Option Expr := decodeWithin (j.depth + 1) j

end Expr

end ObjectQuery
