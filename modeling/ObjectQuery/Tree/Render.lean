import ObjectQuery.Tree.Basic

/-!
Readable text of trees in the shape of SQL. Paging is written the same way for every dialect, and
what runs on the client stands in braces.
-/

namespace ObjectQuery

def optionally {α : Type} (text : α → String) : Option α → String
  | none => ""
  | some a => text a

def clause (keyword : String) (items : List String) : String :=
  if items.isEmpty then "" else keyword ++ ", ".intercalate items

mutual

def Expr.renderIn (inSource : Bool) : Expr → String
  | .const v => v.render
  | .param p => "@" ++ p.render
  | .member target name => target.renderIn false ++ "." ++ name
  | .binary op left right =>
    "(" ++ left.renderIn false ++ " " ++ op.symbol ++ " " ++ right.renderIn false ++ ")"
  | .unary .not operand => "NOT " ++ operand.renderIn false
  | .unary .negate operand => "-" ++ operand.renderIn false
  | .cond test onTrue onFalse =>
    "CASE WHEN " ++ test.renderIn false ++ " THEN " ++ onTrue.renderIn false ++ " ELSE "
      ++ onFalse.renderIn false ++ " END"
  | .call function args => function ++ "(" ++ ", ".intercalate (renderExprs args) ++ ")"
  | .construct typeName fields =>
    "\x7bnew " ++ optionally (· ++ " ") typeName ++ "\x7b "
      ++ ", ".intercalate (renderFields fields) ++ " \x7d\x7d"
  | .lambda l =>
    match l with
    | ⟨params, body⟩ =>
      "(" ++ ", ".intercalate (params.map Param.render) ++ ") => " ++ body.renderIn false
  | .operator op => "\x7b" ++ op.name ++ "(...)\x7d"
  | .table t => t.name ++ " AS " ++ t.rel.render
  | .column c => c.rel.render ++ "." ++ c.name
  | .select s =>
    if inSource then "(" ++ renderSelect s ++ ") AS " ++ s.rel.render else renderSelect s
  | .join kind left right on =>
    left.renderIn true ++ " " ++ kind.keyword ++ " " ++ right.renderIn true
      ++ renderOption " ON " on
  | .setOp rel kind left right =>
    let text := renderSelect left ++ " " ++ kind.keyword ++ " " ++ renderSelect right
    if inSource then "(" ++ text ++ ") AS " ++ rel.render else text
  | .aggregate kind argument distinct =>
    kind.keyword ++ "(" ++ (if distinct then "DISTINCT " else "")
      ++ (match argument with
        | none => "*"
        | some e => e.renderIn false) ++ ")"
  | .groupAggregate _ _ _ fallback => "(" ++ renderSelect fallback ++ ")"
  | .scalar s => "(" ++ renderSelect s ++ ")"
  | .existsIn s => "EXISTS(" ++ renderSelect s ++ ")"
  | .inSelect item s => item.renderIn false ++ " IN (" ++ renderSelect s ++ ")"
  | .inValues item values =>
    item.renderIn false ++ " IN (" ++ ", ".intercalate (renderExprs values) ++ ")"
  | .isNull operand => operand.renderIn false ++ " IS NULL"
  | .between operand lower upper =>
    operand.renderIn false ++ " BETWEEN " ++ lower.renderIn false ++ " AND "
      ++ upper.renderIn false
  | .rowNumber orderBy =>
    "ROW_NUMBER() OVER (ORDER BY " ++ ", ".intercalate (renderOrders orderBy) ++ ")"
  | .projection p => renderProjection p
  | .clientJoin p outerKey innerKey =>
    "\x7bclient join ON [" ++ ", ".intercalate (renderExprs outerKey) ++ "] = ["
      ++ ", ".intercalate (renderExprs innerKey) ++ "] " ++ renderProjection p ++ "\x7d"
  | .entity name e => "\x7b" ++ name ++ " " ++ e.renderIn false ++ "\x7d"
  | .outerJoined test e => "\x7bouter " ++ test.renderIn false ++ " ? " ++ e.renderIn false ++ "\x7d"
  | .grouping key group =>
    "\x7bgroup " ++ key.renderIn false ++ " => " ++ group.renderIn false ++ "\x7d"
  | .command c => renderCommand c
termination_by structural e => e

def renderExprs : List Expr → List String
  | [] => []
  | e :: rest => e.renderIn false :: renderExprs rest
termination_by structural es => es

def renderOption (before : String) : Option Expr → String
  | none => ""
  | some e => before ++ e.renderIn false
termination_by structural e => e

def renderSource : Option Expr → String
  | none => ""
  | some e => " FROM " ++ e.renderIn true
termination_by structural e => e

def renderFields : List (Field Expr) → List String
  | [] => []
  | ⟨name, e⟩ :: rest => (name ++ " = " ++ e.renderIn false) :: renderFields rest
termination_by structural fs => fs

def renderOrders : List (Order Expr) → List String
  | [] => []
  | ⟨direction, e⟩ :: rest =>
    (e.renderIn false ++ if direction = .descending then " DESC" else "") :: renderOrders rest
termination_by structural os => os

def renderColumns : List (ColumnDecl Expr) → List String
  | [] => []
  | ⟨name, e, _⟩ :: rest => (e.renderIn false ++ " AS " ++ name) :: renderColumns rest
termination_by structural cs => cs

def renderSelect : Select Expr → String
  | ⟨_, columns, source, filter, orderBy, groupBy, distinct, skip, take, reversed⟩ =>
    "SELECT " ++ (if distinct then "DISTINCT " else "")
      ++ (if columns.isEmpty then "NULL" else ", ".intercalate (renderColumns columns))
      ++ renderSource source ++ renderOption " WHERE " filter
      ++ clause " GROUP BY " (renderExprs groupBy) ++ clause " ORDER BY " (renderOrders orderBy)
      ++ renderOption " OFFSET " skip ++ renderOption " LIMIT " take
      ++ (if reversed then " /* REVERSE */" else "")
termination_by structural s => s

def renderProjection : Projection Expr → String
  | ⟨s, projector, pick⟩ =>
    "\x7bprojection " ++ projector.renderIn false ++ optionally (" |> " ++ ·.name) pick ++ " FROM "
      ++ renderSelect s ++ "\x7d"
termination_by structural p => p

def renderValues : List (Assignment Expr) → List String
  | [] => []
  | ⟨_, e⟩ :: rest => e.renderIn false :: renderValues rest
termination_by structural as => as

def renderAssignments : List (Assignment Expr) → List String
  | [] => []
  | ⟨column, e⟩ :: rest => (column.name ++ " = " ++ e.renderIn false) :: renderAssignments rest
termination_by structural as => as

def renderCommand : Command Expr → String
  | .insert table assignments =>
    "INSERT INTO " ++ table.name ++ " (" ++ ", ".intercalate (assignments.map (·.column.name))
      ++ ") VALUES (" ++ ", ".intercalate (renderValues assignments) ++ ")"
  | .update table filter assignments =>
    "UPDATE " ++ table.name ++ " AS " ++ table.rel.render ++ " SET "
      ++ ", ".intercalate (renderAssignments assignments) ++ " WHERE " ++ filter.renderIn false
  | .delete table filter =>
    "DELETE FROM " ++ table.name ++ " AS " ++ table.rel.render ++ renderOption " WHERE " filter
  | .conditional check onTrue onFalse =>
    "IF " ++ check.renderIn false ++ " BEGIN " ++ renderCommand onTrue ++ " END"
      ++ renderOtherwise onFalse
  | .batch item items operation =>
    "BATCH " ++ item.render ++ " IN [" ++ toString items.length ++ " items] \x7b "
      ++ renderCommand operation ++ " \x7d"
termination_by structural c => c

def renderOtherwise : Option (Command Expr) → String
  | none => ""
  | some c => " ELSE BEGIN " ++ renderCommand c ++ " END"
termination_by structural c => c

end

abbrev Expr.render (e : Expr) : String := e.renderIn false

abbrev Select.render (s : Select Expr) : String := renderSelect s

end ObjectQuery
