import ObjectQuery.Value

/-!
The syntax of the query language: method chains over named tables, with lambdas, object
initialisers, lists of constants and the usual operators.
-/

namespace ObjectQuery.Language

inductive Literal where
  | null
  | bool (b : Bool)
  | int (n : Int)
  | float (x : Float)
  | text (s : String)

inductive Op where
  | or | and
  | equal | notEqual | less | lessEqual | greater | greaterEqual
  | plus | minus | times | divide | modulo
  | coalesce
  | not | negate
deriving DecidableEq, Repr

def Op.symbol : Op → String
  | .or => "||"
  | .and => "&&"
  | .equal => "=="
  | .notEqual => "!="
  | .less => "<"
  | .lessEqual => "<="
  | .greater => ">"
  | .greaterEqual => ">="
  | .plus => "+"
  | .minus => "-"
  | .times => "*"
  | .divide => "/"
  | .modulo => "%"
  | .coalesce => "??"
  | .not => "!"
  | .negate => "-"

inductive Term where
  | literal (l : Literal)
  | variable (name : String)
  | list (items : List Term)
  | get (target : Term) (member : String)
  | method (target : Term) (name : String) (args : List Term)
  | function (name : String) (args : List Term)
  | lambda (params : List String) (body : Term)
  | construct (typeName : Option String) (fields : List (Option String × Term))
  | apply (op : Op) (operands : List Term)
  | cond (test onTrue onFalse : Term)

inductive Error where
  | parse (offset : Nat) (message : String)
  | unknownOperator (name : String)
  | arity (operator expected : String) (found : Nat)
  | expectedLambda (operator : String) (params : Nat)
  | unexpectedLambda
  | anonymousMember
  | nonConstantList
deriving DecidableEq, Repr

def Error.message : Error → String
  | .parse offset message => "parse error at offset " ++ toString offset ++ ": " ++ message
  | .unknownOperator name => "unknown operator or function `" ++ name ++ "`"
  | .arity operator expected found =>
    operator ++ " takes " ++ expected ++ " argument(s), found " ++ toString found
  | .expectedLambda operator params =>
    operator ++ " expects a lambda with " ++ toString params ++ " parameter(s)"
  | .unexpectedLambda => "lambda outside of an operator argument"
  | .anonymousMember => "cannot infer a member name in `new \x7b \x7d`"
  | .nonConstantList => "list literals may only hold constants"

end ObjectQuery.Language
