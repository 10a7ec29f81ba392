import ObjectQuery.Dialect
import ObjectQuery.Language.Parser
import ObjectQuery.Tree.Basic

/-!
From the syntax of a query to its operator tree. A name that no lambda binds is a table; a lambda
parameter becomes a new parameter of the tree; a method named after an operator becomes that
operator, and any other method is a function whose first argument is its receiver.
-/

namespace ObjectQuery.Language

abbrev Lower := StateT Supply (Except Error)

abbrev Names := List (String × Param)

structure Argument where
  term : Term
  asExpr : Lower Expr
  asLambda : (operator : String) → (params : Nat) → Lower (Lambda Expr)

def Literal.value : Literal → Value
  | .null => .null
  | .bool b => .bool b
  | .int n => .int n
  | .float x => .float x
  | .text s => .text s

def Op.binary? : Op → Option BinaryOp
  | .or => some .or
  | .and => some .and
  | .equal => some .eq
  | .notEqual => some .notEq
  | .less => some .lt
  | .lessEqual => some .ltEq
  | .greater => some .gt
  | .greaterEqual => some .gtEq
  | .plus => some .add
  | .minus => some .subtract
  | .times => some .multiply
  | .divide => some .divide
  | .modulo => some .modulo
  | .coalesce => some .coalesce
  | .not | .negate => none

def fieldName : Option String → Term → Lower String
  | some name, _ => return name
  | none, .get _ member => return member
  | none, .variable name => return name
  | none, _ => throw .anonymousMember

def negative : Expr → Expr
  | .const (.int n) => .const (.int (-n))
  | .const (.float x) => .const (.float (-x))
  | e => .unary .negate e

def checkArity (method : String) (args : List Argument) (least most : Nat) (expected : String) :
    Lower Unit :=
  if args.length < least || most < args.length then
    throw (.arity method expected args.length)
  else return

def orderingOf? : String → Option (Direction × Bool)
  | "OrderBy" => some (.ascending, false)
  | "OrderByDescending" => some (.descending, false)
  | "ThenBy" => some (.ascending, true)
  | "ThenByDescending" => some (.descending, true)
  | _ => none

def setRequestOf? : String → Option SetRequest
  | "Union" => some .union
  | "Concat" => some .concat
  | "Intersect" => some .intersect
  | "Except" => some .except
  | _ => none

def isOperator : Expr → Bool
  | .operator _ => true
  | _ => false

def isCollection : Expr → Bool
  | .operator _ | .const (.list _) => true
  | _ => false

def oneArgument (method : String) (args : List Argument) : Lower Argument :=
  match args with
  | [a] => return a
  | _ => throw (.arity method "1" args.length)

def optionalLambda (method : String) (args : List Argument) : Lower (Option (Lambda Expr)) :=
  match args with
  | [] => return none
  | [a] => return some (← a.asLambda method 1)
  | _ => throw (.arity method "0 or 1" args.length)

def callMethod (source : Expr) (method : String) (args : List Argument) : Lower Expr := do
  let args ← args.mapM (·.asExpr)
  return .call method (source :: args)

def otherMethod (source : Expr) (method : String) (args : List Argument) : Lower Expr :=
  match method with
  | "Where" => do
    return .operator (.filter source (← (← oneArgument method args).asLambda method 1))
  | "Select" => do
    return .operator (.map source (← (← oneArgument method args).asLambda method 1))
  | "SelectMany" =>
    match args with
    | [a] => do return .operator (.flatMap source (← a.asLambda method 1) none)
    | [a, b] => do
      let collection ← a.asLambda method 1
      let result ← b.asLambda method 2
      return .operator (.flatMap source collection (some result))
    | _ => throw (.arity method "1 or 2" args.length)
  | "Join" | "GroupJoin" =>
    match args with
    | [a, b, c, d] => do
      let inner ← a.asExpr
      let outerKey ← b.asLambda method 1
      let innerKey ← c.asLambda method 1
      let result ← d.asLambda method 2
      if method == "Join" then return .operator (.join source inner outerKey innerKey result)
      else return .operator (.groupJoin source inner outerKey innerKey result)
    | _ => throw (.arity method "4" args.length)
  | "GroupBy" =>
    match args with
    | [a] => do return .operator (.groupBy source (← a.asLambda method 1) none none)
    | [a, b] => do
      let key ← a.asLambda method 1
      match b.term with
      | .lambda [_, _] _ => do
        return .operator (.groupBy source key none (some (← b.asLambda method 2)))
      | _ => return .operator (.groupBy source key (some (← b.asLambda method 1)) none)
    | _ => throw (.arity method "1 or 2" args.length)
  | "Distinct" => do
    checkArity method args 0 0 "0"
    return .operator (.distinct source)
  | "Reverse" => do
    checkArity method args 0 0 "0"
    return .operator (.reverse source)
  | "DefaultIfEmpty" => do
    checkArity method args 0 0 "0"
    return .operator (.defaultIfEmpty source)
  | "Take" => do
    return .operator (.take source (← (← oneArgument method args).asExpr))
  | "Skip" => do
    return .operator (.skip source (← (← oneArgument method args).asExpr))
  | "Cast" => do
    match (← oneArgument method args).term with
    | .variable name => return .operator (.cast source name)
    | .literal (.text name) => return .operator (.cast source name)
    | _ => throw (.arity method "a type name" args.length)
  | "Any" => do
    return .operator (.any source (← optionalLambda method args))
  | "All" => do
    return .operator (.all source (← (← oneArgument method args).asLambda method 1))
  | "Contains" =>
    if isCollection source then do
      return .operator (.contains source (← (← oneArgument method args).asExpr))
    else callMethod source method args
  | _ => callMethod source method args

def method (source : Expr) (method : String) (args : List Argument) : Lower Expr :=
  match orderingOf? method with
  | some (direction, isFurther) => do
    let key ← (← oneArgument method args).asLambda method 1
    if isFurther then return .operator (.thenBy source key direction)
    else return .operator (.orderBy source key direction)
  | none =>
    match Pick.ofName? method with
    | some pick => do
      return .operator (.element source pick (← optionalLambda method args))
    | none =>
      match AggregateKind.ofName? method with
      | some kind => do
        return .operator (.aggregate source kind (← optionalLambda method args))
      | none =>
        match setRequestOf? method with
        | some kind =>
          if kind != .concat || isOperator source then do
            return .operator (.setOp kind source (← (← oneArgument method args).asExpr))
          else otherMethod source method args
        | none => otherMethod source method args

def constant : Expr → Lower Value
  | .const v => return v
  | _ => throw .nonConstantList

mutual

def lower (names : Names) : Term → Lower Expr
  | .literal l => return .const l.value
  | .variable name =>
    match names.lookup name with
    | some p => return .param p
    | none => return .operator (.table name)
  | .list items => do return .const (.list (← lowerConstants names items))
  | .get target member => do return .member (← lower names target) member
  | .method target name args => do
    let source ← lower names target
    method source name (lowerArguments names args)
  | .function name args =>
    if ServerFunction.accepts name args.length then do
      return .call name (← lowerAll names args)
    else throw (.unknownOperator name)
  | .lambda _ _ => throw .unexpectedLambda
  | .construct typeName fields => do return .construct typeName (← lowerFields names fields)
  | .apply op operands => lowerApply names op operands
  | .cond test onTrue onFalse => do
    let test ← lower names test
    let onTrue ← lower names onTrue
    let onFalse ← lower names onFalse
    return .cond test onTrue onFalse
termination_by structural t => t

def lowerAll (names : Names) : List Term → Lower (List Expr)
  | [] => return []
  | t :: rest => do
    let e ← lower names t
    let es ← lowerAll names rest
    return e :: es
termination_by structural ts => ts

def lowerConstants (names : Names) : List Term → Lower (List Value)
  | [] => return []
  | t :: rest => do
    let v ← constant (← lower names t)
    let vs ← lowerConstants names rest
    return v :: vs
termination_by structural ts => ts

def lowerFields (names : Names) : List (Option String × Term) → Lower (List (Field Expr))
  | [] => return []
  | (given, t) :: rest => do
    let name ← fieldName given t
    let e ← lower names t
    let fields ← lowerFields names rest
    return ⟨name, e⟩ :: fields
termination_by structural fs => fs

def lowerApply (names : Names) (op : Op) : List Term → Lower Expr
  | [a] => do
    match op with
    | .not => return .negated (← lower names a)
    | .negate => return negative (← lower names a)
    | op => throw (.unknownOperator op.symbol)
  | [a, b] =>
    match op.binary? with
    | some op => do
      let left ← lower names a
      let right ← lower names b
      return .binary op left right
    | none => throw (.unknownOperator op.symbol)
  | _ => throw (.unknownOperator op.symbol)
termination_by structural ts => ts

def lowerLambda (names : Names) : Term → (operator : String) → (count : Nat) →
    Lower (Lambda Expr)
  | .lambda params body, operator, count =>
    if params.length = count then do
      let ids ← (params.mapM fun _ => Supply.freshParam : Mint (List Param))
      let body ← lower (params.zip ids ++ names) body
      return ⟨ids, body⟩
    else throw (.expectedLambda operator count)
  | _, operator, count => throw (.expectedLambda operator count)
termination_by structural t => t

def lowerArguments (names : Names) : List Term → List Argument
  | [] => []
  | t :: rest => ⟨t, lower names t, lowerLambda names t⟩ :: lowerArguments names rest
termination_by structural ts => ts

end

def query (text : String) : Lower Expr := do
  lower [] (← parse text)

end ObjectQuery.Language
