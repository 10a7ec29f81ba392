import ObjectQuery.Value

/-!
Query trees. One type, `Expr`, covers query operators before they are bound, the relations they are
bound to (tables, selects, joins, set operations), the scalar expressions inside relations, and the
projections that rebuild objects from rows.

Relations and lambda parameters are named by numbers. Two relations of the same shape stay apart as
long as their aliases differ. New aliases, parameters and correlations are all drawn from one counter, so no
number is handed out twice.
-/

namespace ObjectQuery

structure Alias where
  id : Nat
deriving DecidableEq, Inhabited, Repr

structure Param where
  id : Nat
deriving DecidableEq, Inhabited, Repr

def Alias.render (a : Alias) : String := "t" ++ toString a.id

def Param.render (p : Param) : String := "p" ++ toString p.id

structure Table where
  rel : Alias
  entity : String
  name : String
deriving DecidableEq, Inhabited, Repr

structure Column where
  rel : Alias
  name : String
  type : ColumnType
deriving DecidableEq, Inhabited, Repr

structure ColumnDecl (ε : Type) where
  name : String
  expr : ε
  type : ColumnType

structure Order (ε : Type) where
  direction : Direction
  expr : ε

structure Field (ε : Type) where
  name : String
  expr : ε

structure Lambda (ε : Type) where
  params : List Param
  body : ε

structure Select (ε : Type) where
  rel : Alias
  columns : List (ColumnDecl ε)
  source : Option ε
  filter : Option ε
  orderBy : List (Order ε)
  groupBy : List ε
  distinct : Bool
  skip : Option ε
  take : Option ε
  reversed : Bool

structure Projection (ε : Type) where
  select : Select ε
  projector : ε
  pick : Option Pick

structure Assignment (ε : Type) where
  column : Column
  expr : ε

inductive Command (ε : Type) where
  | insert (table : Table) (assignments : List (Assignment ε))
  | update (table : Table) (filter : ε) (assignments : List (Assignment ε))
  | delete (table : Table) (filter : Option ε)
  | conditional (check : ε) (onTrue : Command ε) (onFalse : Option (Command ε))
  | batch (item : Param) (items : List ε) (operation : Command ε)

inductive Operator (ε : Type) where
  | table (entity : String)
  | filter (source : ε) (predicate : Lambda ε)
  | map (source : ε) (selector : Lambda ε)
  | flatMap (source : ε) (collection : Lambda ε) (result : Option (Lambda ε))
  | join (outer inner : ε) (outerKey innerKey result : Lambda ε)
  | groupJoin (outer inner : ε) (outerKey innerKey result : Lambda ε)
  | orderBy (source : ε) (key : Lambda ε) (direction : Direction)
  | thenBy (source : ε) (key : Lambda ε) (direction : Direction)
  | groupBy (source : ε) (key : Lambda ε) (element result : Option (Lambda ε))
  | distinct (source : ε)
  | take (source count : ε)
  | skip (source count : ε)
  | reverse (source : ε)
  | cast (source : ε) (typeName : String)
  | defaultIfEmpty (source : ε)
  | element (source : ε) (pick : Pick) (predicate : Option (Lambda ε))
  | aggregate (source : ε) (kind : AggregateKind) (argument : Option (Lambda ε))
  | any (source : ε) (predicate : Option (Lambda ε))
  | all (source : ε) (predicate : Lambda ε)
  | contains (source item : ε)
  | setOp (kind : SetRequest) (left right : ε)
  | insert (entity : String) (instanceExpr : ε)
  | update (entity : String) (instanceExpr : ε) (check : Option (Lambda ε))
  | insertOrUpdate (entity : String) (instanceExpr : ε) (check : Option (Lambda ε))
  | delete (entity : String) (instanceExpr : Option ε) (predicate : Option (Lambda ε))
  | batch (items : List ε) (operation : Lambda ε)

inductive Expr where
  | const (value : Value)
  | param (p : Param)
  | member (target : Expr) (name : String)
  | binary (op : BinaryOp) (left right : Expr)
  | unary (op : UnaryOp) (operand : Expr)
  | cond (test onTrue onFalse : Expr)
  | call (function : String) (args : List Expr)
  | construct (typeName : Option String) (fields : List (Field Expr))
  | lambda (l : Lambda Expr)
  | operator (op : Operator Expr)
  | table (t : Table)
  | column (c : Column)
  | select (s : Select Expr)
  | join (kind : JoinKind) (left right : Expr) (on : Option Expr)
  | setOp (rel : Alias) (kind : SetKind) (left right : Select Expr)
  | aggregate (kind : AggregateKind) (argument : Option Expr) (distinct : Bool)
  /-- An aggregate over the elements of a group: `aggregate` computes it as a column of the grouped
  select `owner`, `fallback` computes it from scratch. -/
  | groupAggregate (correlation : Nat) (owner : Alias) (aggregate : Expr) (fallback : Select Expr)
  | scalar (s : Select Expr)
  | existsIn (s : Select Expr)
  | inSelect (item : Expr) (s : Select Expr)
  | inValues (item : Expr) (values : List Expr)
  | isNull (operand : Expr)
  | between (operand lower upper : Expr)
  | rowNumber (orderBy : List (Order Expr))
  | projection (p : Projection Expr)
  /-- A projection that is run once and matched with the outer rows on equal keys. -/
  | clientJoin (p : Projection Expr) (outerKey innerKey : List Expr)
  | entity (name : String) (expr : Expr)
  /-- A value from the optional side of a join, present when `test` is not null. -/
  | outerJoined (test expr : Expr)
  | grouping (key group : Expr)
  | command (c : Command Expr)

instance : Inhabited Expr := ⟨.const .null⟩

namespace Select

def plain {ε : Type} (rel : Alias) (columns : List (ColumnDecl ε)) (source filter : Option ε) :
    Select ε :=
  { rel, columns, source, filter, orderBy := [], groupBy := [], distinct := false,
    skip := none, take := none, reversed := false }

def columnNames {ε : Type} (s : Select ε) : List String :=
  s.columns.map (·.name)

def hasNoClauses {ε : Type} (s : Select ε) : Bool :=
  s.filter.isNone && s.orderBy.isEmpty && s.groupBy.isEmpty && !s.distinct && s.skip.isNone
    && s.take.isNone && !s.reversed

end Select

namespace Expr

def null : Expr := .const .null

def int (n : Int) : Expr := .const (.int n)

def equals (a b : Expr) : Expr := .binary .eq a b

def both (a b : Expr) : Expr := .binary .and a b

def either (a b : Expr) : Expr := .binary .or a b

def negated (a : Expr) : Expr := .unary .not a

def isNullConst : Expr → Bool
  | .const .null => true
  | _ => false

def asColumn? : Expr → Option Column
  | .column c => some c
  | _ => none

def isRelation : Expr → Bool
  | .table _ | .select _ | .join .. | .setOp .. => true
  | _ => false

def columnType : Expr → ColumnType
  | .const v => v.columnType
  | .column c => c.type
  | .binary op left right =>
    if op.isComparison || op == .and || op == .or then .bool
    else match left.columnType with
      | .unknown => right.columnType
      | t => t
  | .unary .not _ => .bool
  | .unary .negate operand => operand.columnType
  | .existsIn _ | .inSelect .. | .inValues .. | .isNull _ | .between .. => .bool
  | .aggregate kind argument _ =>
    match kind, argument with
    | .count, _ | .longCount, _ => .int
    | .average, _ => .float
    | _, some e => e.columnType
    | _, none => .unknown
  | .groupAggregate _ _ inGroup _ => inGroup.columnType
  | .scalar s => ((s.columns.head?).map (·.type)).getD .unknown
  | .rowNumber _ => .int
  | .cond _ onTrue _ => onTrue.columnType
  | _ => .unknown

end Expr

def ColumnDecl.of (name : String) (expr : Expr) : ColumnDecl Expr :=
  ⟨name, expr, expr.columnType⟩

def Operator.name {ε : Type} : Operator ε → String
  | .table .. => "Table"
  | .filter .. => "Where"
  | .map .. => "Select"
  | .flatMap .. => "SelectMany"
  | .join .. => "Join"
  | .groupJoin .. => "GroupJoin"
  | .orderBy .. => "OrderBy"
  | .thenBy .. => "ThenBy"
  | .groupBy .. => "GroupBy"
  | .distinct .. => "Distinct"
  | .take .. => "Take"
  | .skip .. => "Skip"
  | .reverse .. => "Reverse"
  | .cast .. => "Cast"
  | .defaultIfEmpty .. => "DefaultIfEmpty"
  | .element .. => "Element"
  | .aggregate .. => "Aggregate"
  | .any .. => "Any"
  | .all .. => "All"
  | .contains .. => "Contains"
  | .setOp .. => "SetOperation"
  | .insert .. => "Insert"
  | .update .. => "Update"
  | .insertOrUpdate .. => "InsertOrUpdate"
  | .delete .. => "Delete"
  | .batch .. => "Batch"

structure Supply where
  next : Nat
deriving DecidableEq, Inhabited, Repr

abbrev Mint := StateM Supply

/-- Minting cannot fail, so it can be done among steps that can. -/
instance {ε : Type} : MonadLift Mint (StateT Supply (Except ε)) where
  monadLift mint := fun supply => .ok (mint.run supply)

namespace Supply

def fresh : Mint Nat := do
  let n := (← get).next
  set (Supply.mk (n + 1))
  return n

def freshAlias : Mint Alias := return ⟨← fresh⟩

def freshParam : Mint Param := return ⟨← fresh⟩

end Supply

end ObjectQuery
