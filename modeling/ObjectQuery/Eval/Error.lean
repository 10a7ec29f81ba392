import ObjectQuery.Text.Case
import ObjectQuery.Text.HiddenTables
import ObjectQuery.Tree.Basic

/-!
Why an evaluation fails, and how a value is shown in such a message.
-/

namespace ObjectQuery

inductive EvalError where
  | unknownTable (name : String)
  | danglingAlias (rel : Alias)
  | unknownColumn (rel : Alias) (column : String)
  | typeMismatch (operation left right : String)
  | noElements
  | moreThanOneElement
  | divisionByZero
  | overflow
  | scalarRows (count : Nat)
  | aggregateOutsideGroup
  | rowNumberOutsideSelect
  | unknownFunction (name : String) (count : Nat)
  | unsupported (what : String)
  | badData
deriving DecidableEq, Repr

def EvalError.message : EvalError → String
  | .unknownTable name => "table `" ++ name ++ "` is not in the fixture"
  | .danglingAlias rel => "alias " ++ rel.render ++ " is not bound in the current scope"
  | .unknownColumn rel column => "column `" ++ column ++ "` not found on " ++ rel.render
  | .typeMismatch operation left right =>
    "type mismatch: " ++ operation ++ " over " ++ left ++ " and " ++ right
  | .noElements => "sequence contains no elements"
  | .moreThanOneElement => "sequence contains more than one element"
  | .divisionByZero => "division by zero"
  | .overflow => "integer overflow"
  | .scalarRows count => "scalar subquery returned " ++ toString count ++ " rows"
  | .aggregateOutsideGroup => "aggregate outside of a grouped select"
  | .rowNumberOutsideSelect => "ROW_NUMBER() outside of a numbered select"
  | .unknownFunction name count =>
    "unknown function `" ++ name ++ "` with " ++ toString count ++ " argument(s)"
  | .unsupported what => what ++ " cannot be evaluated"
  | .badData => "fixture"

namespace Value

def hexDigits (n : Nat) : List Char := Nat.toDigits 16 n

def isHidden (c : Char) : Bool := Text.inTable HiddenTables.hidden c

def showChar (c : Char) : List Char :=
  if c = '"' then ['\\', '"']
  else if c = '\\' then ['\\', '\\']
  else if c = '\n' then ['\\', 'n']
  else if c = '\r' then ['\\', 'r']
  else if c = '\t' then ['\\', 't']
  else if c.toNat = 0 then ['\\', '0']
  else if isHidden c then ['\\', 'u', '\x7b'] ++ hexDigits c.toNat ++ ['\x7d']
  else [c]

mutual

def describe : Value → String
  | .null => "Null"
  | .bool b => "Bool(" ++ (if b then "true" else "false") ++ ")"
  | .int n => "Int(" ++ toString n ++ ")"
  | .float x => "Float(" ++ Decimal.marked x ++ ")"
  | .text s => "Text(\"" ++ String.ofList (s.toList.flatMap showChar) ++ "\")"
  | .list items => "List([" ++ ", ".intercalate (describeAll items) ++ "])"

def describeAll : List Value → List String
  | [] => []
  | v :: rest => describe v :: describeAll rest

end

end Value

def EvalError.mismatch (operation : String) (left right : Value) : EvalError :=
  .typeMismatch operation left.describe right.describe

end ObjectQuery
