import ObjectQuery.Text.Decimal

/-!
Scalar values, the column types they carry, and the small vocabularies of operators that trees are
built from.
-/

namespace ObjectQuery

inductive Value where
  | null
  | bool (b : Bool)
  | int (n : Int)
  | float (x : Float)
  | text (s : String)
  | list (items : List Value)
deriving Inhabited

inductive ColumnType where
  | int
  | float
  | text
  | bool
  | dateTime
  | unknown
deriving DecidableEq, Inhabited, Repr

namespace ColumnType

def all : List ColumnType := [.int, .float, .text, .bool, .dateTime, .unknown]

def label : ColumnType → String
  | .int => "int"
  | .float => "float"
  | .text => "text"
  | .bool => "bool"
  | .dateTime => "datetime"
  | .unknown => "unknown"

end ColumnType

inductive BinaryOp where
  | add | subtract | multiply | divide | modulo
  | eq | notEq | lt | ltEq | gt | gtEq
  | and | or | coalesce
deriving DecidableEq, Repr

inductive UnaryOp where
  | not
  | negate
deriving DecidableEq, Repr

inductive Direction where
  | ascending
  | descending
deriving DecidableEq, Repr

inductive JoinKind where
  | cross
  | inner
  | leftOuter
  | crossApply
  | outerApply
deriving DecidableEq, Repr

inductive SetKind where
  | union
  | unionAll
deriving DecidableEq, Repr

inductive AggregateKind where
  | count
  | longCount
  | sum
  | min
  | max
  | average
deriving DecidableEq, Repr

inductive Pick where
  | first
  | firstOrDefault
  | single
  | singleOrDefault
  | last
  | lastOrDefault
deriving DecidableEq, Repr

inductive SetRequest where
  | union
  | concat
  | intersect
  | except
deriving DecidableEq, Repr

namespace Value

mutual

/-- Equality of values, with numbers compared as numbers: no NaN equals itself, and the two zeros are
equal. -/
def same : Value → Value → Bool
  | .null, .null => true
  | .bool a, .bool b => a == b
  | .int a, .int b => a == b
  | .float a, .float b => a == b
  | .text a, .text b => a == b
  | .list a, .list b => sameList a b
  | _, _ => false

def sameList : List Value → List Value → Bool
  | [], [] => true
  | a :: as, b :: bs => same a b && sameList as bs
  | _, _ => false

end

instance : BEq Value := ⟨same⟩

def isNull : Value → Bool
  | .null => true
  | _ => false

def columnType : Value → ColumnType
  | .null => .unknown
  | .bool _ => .bool
  | .int _ => .int
  | .float _ => .float
  | .text _ => .text
  | .list _ => .unknown

def quoted (s : String) : String :=
  "'" ++ String.ofList (s.toList.flatMap fun c => if c = '\'' then ['\'', '\''] else [c]) ++ "'"

mutual

def render : Value → String
  | .null => "NULL"
  | .bool b => if b then "1" else "0"
  | .int n => toString n
  | .float x => Decimal.plain x
  | .text s => quoted s
  | .list items => "(" ++ ", ".intercalate (renderList items) ++ ")"

def renderList : List Value → List String
  | [] => []
  | v :: rest => render v :: renderList rest

end

end Value

namespace BinaryOp

def isComparison : BinaryOp → Bool
  | .eq | .notEq | .lt | .ltEq | .gt | .gtEq => true
  | _ => false

def symbol : BinaryOp → String
  | .add => "+"
  | .subtract => "-"
  | .multiply => "*"
  | .divide => "/"
  | .modulo => "%"
  | .eq => "="
  | .notEq => "<>"
  | .lt => "<"
  | .ltEq => "<="
  | .gt => ">"
  | .gtEq => ">="
  | .and => "AND"
  | .or => "OR"
  | .coalesce => "??"

end BinaryOp

def Direction.inverted : Direction → Direction
  | .ascending => .descending
  | .descending => .ascending

namespace JoinKind

def isApply : JoinKind → Bool
  | .crossApply | .outerApply => true
  | _ => false

def keyword : JoinKind → String
  | .cross => "CROSS JOIN"
  | .inner => "INNER JOIN"
  | .leftOuter => "LEFT OUTER JOIN"
  | .crossApply => "CROSS APPLY"
  | .outerApply => "OUTER APPLY"

end JoinKind

def SetKind.keyword : SetKind → String
  | .union => "UNION"
  | .unionAll => "UNION ALL"

namespace AggregateKind

def ofName? : String → Option AggregateKind
  | "Count" => some .count
  | "LongCount" => some .longCount
  | "Sum" => some .sum
  | "Min" => some .min
  | "Max" => some .max
  | "Average" => some .average
  | _ => none

def isCount : AggregateKind → Bool
  | .count | .longCount => true
  | _ => false

def keyword : AggregateKind → String
  | .count => "COUNT"
  | .longCount => "COUNT_BIG"
  | .sum => "SUM"
  | .min => "MIN"
  | .max => "MAX"
  | .average => "AVG"

end AggregateKind

namespace Pick

def ofName? : String → Option Pick
  | "First" => some .first
  | "FirstOrDefault" => some .firstOrDefault
  | "Single" => some .single
  | "SingleOrDefault" => some .singleOrDefault
  | "Last" => some .last
  | "LastOrDefault" => some .lastOrDefault
  | _ => none

def name : Pick → String
  | .first => "First"
  | .firstOrDefault => "FirstOrDefault"
  | .single => "Single"
  | .singleOrDefault => "SingleOrDefault"
  | .last => "Last"
  | .lastOrDefault => "LastOrDefault"

def orDefault : Pick → Bool
  | .firstOrDefault | .singleOrDefault | .lastOrDefault => true
  | _ => false

def isLast : Pick → Bool
  | .last | .lastOrDefault => true
  | _ => false

def isSingle : Pick → Bool
  | .single | .singleOrDefault => true
  | _ => false

end Pick

end ObjectQuery
