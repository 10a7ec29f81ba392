import ObjectQuery.Json
import ObjectQuery.Tree.Basic

/-!
The JSON form of trees: every node is an object whose only key names its kind. The members of a node
stand in a fixed order, so that a document can be read in the order of its tree.
-/

namespace ObjectQuery

def Json.tagged (kind : String) (content : Json) : Json := .obj [(kind, content)]

def Json.node (kind : String) (members : List (String × Json)) : Json := .tagged kind (.obj members)

def BinaryOp.label : BinaryOp → String
  | .add => "Add"
  | .subtract => "Subtract"
  | .multiply => "Multiply"
  | .divide => "Divide"
  | .modulo => "Modulo"
  | .eq => "Eq"
  | .notEq => "NotEq"
  | .lt => "Lt"
  | .ltEq => "LtEq"
  | .gt => "Gt"
  | .gtEq => "GtEq"
  | .and => "And"
  | .or => "Or"
  | .coalesce => "Coalesce"

def UnaryOp.label : UnaryOp → String
  | .not => "Not"
  | .negate => "Negate"

def Direction.label : Direction → String
  | .ascending => "Ascending"
  | .descending => "Descending"

def JoinKind.label : JoinKind → String
  | .cross => "Cross"
  | .inner => "Inner"
  | .leftOuter => "LeftOuter"
  | .crossApply => "CrossApply"
  | .outerApply => "OuterApply"

def SetKind.label : SetKind → String
  | .union => "Union"
  | .unionAll => "UnionAll"

def AggregateKind.label : AggregateKind → String
  | .count => "Count"
  | .longCount => "LongCount"
  | .sum => "Sum"
  | .min => "Min"
  | .max => "Max"
  | .average => "Average"

def SetRequest.label : SetRequest → String
  | .union => "Union"
  | .concat => "Concat"
  | .intersect => "Intersect"
  | .except => "Except"

mutual

def Value.encode : Value → Json
  | .null => .str "Null"
  | .bool b => .tagged "Bool" (.bool b)
  | .int n => .tagged "Int" (.int n)
  | .float x => .tagged "Float" (.float x)
  | .text s => .tagged "Text" (.str s)
  | .list items => .tagged "List" (.arr (encodeValues items))

def encodeValues : List Value → List Json
  | [] => []
  | v :: rest => v.encode :: encodeValues rest

end

def Alias.encode (a : Alias) : Json := .int a.id

def Param.encode (p : Param) : Json := .int p.id

def Table.encode (t : Table) : Json :=
  .obj [("alias", t.rel.encode), ("entity", .str t.entity), ("name", .str t.name)]

def Column.encode (c : Column) : Json :=
  .obj [("alias", c.rel.encode), ("name", .str c.name), ("sql_type", .str c.type.label)]

mutual

def Expr.encode : Expr → Json
  | .const v => .tagged "Constant" v.encode
  | .param p => .tagged "Parameter" p.encode
  | .member target name => .node "Member" [("expr", target.encode), ("member", .str name)]
  | .binary op left right =>
    .node "Binary" [("op", .str op.label), ("left", left.encode), ("right", right.encode)]
  | .unary op operand => .node "Unary" [("op", .str op.label), ("operand", operand.encode)]
  | .cond test onTrue onFalse =>
    .node "Conditional" [("test", test.encode), ("if_true", onTrue.encode),
      ("if_false", onFalse.encode)]
  | .call function args =>
    .node "Call" [("function", .str function), ("args", .arr (encodeExprs args))]
  | .construct typeName fields =>
    .node "New" [("type_name", .ofOption .str typeName), ("members", .arr (encodeFields fields))]
  | .lambda l => .tagged "Lambda" (encodeLambda l)
  | .operator op => .tagged "Operator" (encodeOperator op)
  | .table t => .tagged "Table" t.encode
  | .column c => .tagged "Column" c.encode
  | .select s => .tagged "Select" (encodeSelect s)
  | .join kind left right on =>
    .node "Join" [("kind", .str kind.label), ("left", left.encode), ("right", right.encode),
      ("condition", encodeOption on)]
  | .setOp rel kind left right =>
    .node "SetOperation" [("alias", rel.encode), ("kind", .str kind.label),
      ("left", encodeSelect left), ("right", encodeSelect right)]
  | .aggregate kind argument distinct =>
    .node "Aggregate" [("kind", .str kind.label), ("argument", encodeOption argument),
      ("is_distinct", .bool distinct)]
  | .groupAggregate correlation owner inGroup fallback =>
    .node "AggregateSubquery" [("correlation_id", .int correlation),
      ("group_by_alias", owner.encode), ("aggregate_in_group_select", inGroup.encode),
      ("subquery", .obj [("select", encodeSelect fallback)])]
  | .scalar s => .node "Scalar" [("select", encodeSelect s)]
  | .existsIn s => .node "Exists" [("select", encodeSelect s)]
  | .inSelect item s => .node "InSubquery" [("expr", item.encode), ("select", encodeSelect s)]
  | .inValues item values =>
    .node "InValues" [("expr", item.encode), ("values", .arr (encodeExprs values))]
  | .isNull operand => .tagged "IsNull" operand.encode
  | .between operand lower upper =>
    .node "Between" [("expr", operand.encode), ("lower", lower.encode), ("upper", upper.encode)]
  | .rowNumber orderBy => .node "RowNumber" [("order_by", .arr (encodeOrders orderBy))]
  | .projection p => .tagged "Projection" (encodeProjection p)
  | .clientJoin p outerKey innerKey =>
    .node "ClientJoin" [("projection", encodeProjection p),
      ("outer_key", .arr (encodeExprs outerKey)), ("inner_key", .arr (encodeExprs innerKey))]
  | .entity name e => .node "Entity" [("entity", .str name), ("expr", e.encode)]
  | .outerJoined test e => .node "OuterJoined" [("test", test.encode), ("expr", e.encode)]
  | .grouping key group => .node "Grouping" [("key", key.encode), ("group", group.encode)]
  | .command c => .tagged "Command" (encodeCommand c)
termination_by structural e => e

def encodeExprs : List Expr → List Json
  | [] => []
  | e :: rest => e.encode :: encodeExprs rest
termination_by structural es => es

def encodeOption : Option Expr → Json
  | none => .null
  | some e => e.encode
termination_by structural e => e

def encodeFields : List (Field Expr) → List Json
  | [] => []
  | ⟨name, e⟩ :: rest => .obj [("name", .str name), ("expr", e.encode)] :: encodeFields rest
termination_by structural fs => fs

def encodeOrders : List (Order Expr) → List Json
  | [] => []
  | ⟨direction, e⟩ :: rest =>
    .obj [("order_type", .str direction.label), ("expression", e.encode)] :: encodeOrders rest
termination_by structural os => os

def encodeColumns : List (ColumnDecl Expr) → List Json
  | [] => []
  | ⟨name, e, type⟩ :: rest =>
    .obj [("name", .str name), ("expression", e.encode), ("sql_type", .str type.label)]
      :: encodeColumns rest
termination_by structural cs => cs

def encodeSelect : Select Expr → Json
  | ⟨rel, columns, source, filter, orderBy, groupBy, distinct, skip, take, reversed⟩ =>
    .obj [("alias", rel.encode), ("columns", .arr (encodeColumns columns)),
      ("from", encodeOption source), ("where_clause", encodeOption filter),
      ("order_by", .arr (encodeOrders orderBy)), ("group_by", .arr (encodeExprs groupBy)),
      ("is_distinct", .bool distinct), ("skip", encodeOption skip), ("take", encodeOption take),
      ("is_reverse", .bool reversed)]
termination_by structural s => s

def encodeProjection : Projection Expr → Json
  | ⟨s, projector, pick⟩ =>
    .obj [("select", encodeSelect s), ("projector", projector.encode),
      ("aggregator", .ofOption (fun k => .str k.name) pick)]
termination_by structural p => p

def encodeLambda : Lambda Expr → Json
  | ⟨params, body⟩ => .obj [("params", .arr (params.map Param.encode)), ("body", body.encode)]
termination_by structural l => l

def encodeLambdaOption : Option (Lambda Expr) → Json
  | none => .null
  | some l => encodeLambda l
termination_by structural l => l

def encodeAssignments : List (Assignment Expr) → List Json
  | [] => []
  | ⟨column, e⟩ :: rest =>
    .obj [("column", column.encode), ("expression", e.encode)] :: encodeAssignments rest
termination_by structural as => as

def encodeCommand : Command Expr → Json
  | .insert table assignments =>
    .node "Insert" [("table", table.encode), ("assignments", .arr (encodeAssignments assignments))]
  | .update table filter assignments =>
    .node "Update" [("table", table.encode), ("where_clause", filter.encode),
      ("assignments", .arr (encodeAssignments assignments))]
  | .delete table filter =>
    .node "Delete" [("table", table.encode), ("where_clause", encodeOption filter)]
  | .conditional check onTrue onFalse =>
    .node "If" [("check", check.encode), ("if_true", encodeCommand onTrue),
      ("if_false", encodeCommandOption onFalse)]
  | .batch item items operation =>
    .node "Batch" [("item", item.encode), ("items", .arr (encodeExprs items)),
      ("operation", encodeCommand operation)]
termination_by structural c => c

def encodeCommandOption : Option (Command Expr) → Json
  | none => .null
  | some c => encodeCommand c
termination_by structural c => c

def encodeOperator : Operator Expr → Json
  | .table entity => .node "Table" [("entity", .str entity)]
  | .filter source predicate =>
    .node "Where" [("source", source.encode), ("predicate", encodeLambda predicate)]
  | .map source selector =>
    .node "Select" [("source", source.encode), ("selector", encodeLambda selector)]
  | .flatMap source collection result =>
    .node "SelectMany" [("source", source.encode), ("collection", encodeLambda collection),
      ("result", encodeLambdaOption result)]
  | .join outer inner outerKey innerKey result =>
    .node "Join" [("outer", outer.encode), ("inner", inner.encode),
      ("outer_key", encodeLambda outerKey), ("inner_key", encodeLambda innerKey),
      ("result", encodeLambda result)]
  | .groupJoin outer inner outerKey innerKey result =>
    .node "GroupJoin" [("outer", outer.encode), ("inner", inner.encode),
      ("outer_key", encodeLambda outerKey), ("inner_key", encodeLambda innerKey),
      ("result", encodeLambda result)]
  | .orderBy source key direction =>
    .node "OrderBy" [("source", source.encode), ("key", encodeLambda key),
      ("order_type", .str direction.label)]
  | .thenBy source key direction =>
    .node "ThenBy" [("source", source.encode), ("key", encodeLambda key),
      ("order_type", .str direction.label)]
  | .groupBy source key element result =>
    .node "GroupBy" [("source", source.encode), ("key", encodeLambda key),
      ("element", encodeLambdaOption element), ("result", encodeLambdaOption result)]
  | .distinct source => .node "Distinct" [("source", source.encode)]
  | .take source count => .node "Take" [("source", source.encode), ("count", count.encode)]
  | .skip source count => .node "Skip" [("source", source.encode), ("count", count.encode)]
  | .reverse source => .node "Reverse" [("source", source.encode)]
  | .cast source typeName =>
    .node "Cast" [("source", source.encode), ("type_name", .str typeName)]
  | .defaultIfEmpty source => .node "DefaultIfEmpty" [("source", source.encode)]
  | .element source pick predicate =>
    .node "Element" [("source", source.encode), ("aggregator", .str pick.name),
      ("predicate", encodeLambdaOption predicate)]
  | .aggregate source kind argument =>
    .node "Aggregate" [("source", source.encode), ("kind", .str kind.label),
      ("argument", encodeLambdaOption argument)]
  | .any source predicate =>
    .node "Any" [("source", source.encode), ("predicate", encodeLambdaOption predicate)]
  | .all source predicate =>
    .node "All" [("source", source.encode), ("predicate", encodeLambda predicate)]
  | .contains source item => .node "Contains" [("source", source.encode), ("item", item.encode)]
  | .setOp kind left right =>
    .node "SetOperation" [("kind", .str kind.label), ("left", left.encode),
      ("right", right.encode)]
  | .insert entity e => .node "Insert" [("entity", .str entity), ("instance", e.encode)]
  | .update entity e check =>
    .node "Update" [("entity", .str entity), ("instance", e.encode),
      ("check", encodeLambdaOption check)]
  | .insertOrUpdate entity e check =>
    .node "InsertOrUpdate" [("entity", .str entity), ("instance", e.encode),
      ("check", encodeLambdaOption check)]
  | .delete entity e predicate =>
    .node "Delete" [("entity", .str entity), ("instance", encodeOption e),
      ("predicate", encodeLambdaOption predicate)]
  | .batch items operation =>
    .node "Batch" [("items", .arr (encodeExprs items)), ("operation", encodeLambda operation)]
termination_by structural op => op

end

end ObjectQuery
