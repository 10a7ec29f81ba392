import ObjectQuery.Tree.Basic

/-!
What a database can express: how it pages, and which shapes of subquery it allows. The affinity says
on which side an expression runs when both sides could compute it. A call of a scalar function can
become a column only if the server knows the function with that number of arguments, receiver included.
-/

namespace ObjectQuery

structure ServerFunction where
  name : String
  sqlName : String
  arities : List Nat
deriving DecidableEq, Repr

namespace ServerFunction

def all : List ServerFunction :=
  [⟨"ToUpper", "UPPER", [1]⟩, ⟨"ToLower", "LOWER", [1]⟩, ⟨"Trim", "TRIM", [1]⟩,
    ⟨"Length", "LEN", [1]⟩, ⟨"Substring", "SUBSTRING", [2, 3]⟩, ⟨"StartsWith", "LIKE", [2]⟩,
    ⟨"EndsWith", "LIKE", [2]⟩, ⟨"Concat", "CONCAT", [2, 3, 4]⟩, ⟨"Abs", "ABS", [1]⟩,
    ⟨"Round", "ROUND", [1, 2]⟩, ⟨"Floor", "FLOOR", [1]⟩, ⟨"Ceiling", "CEILING", [1]⟩]

def ofName? (name : String) : Option ServerFunction :=
  all.find? (·.name == name)

def accepts (name : String) (count : Nat) : Bool :=
  (ofName? name).any (·.arities.contains count)

end ServerFunction

inductive Pagination where
  | offsetFetch
  | nestedTop
  | rowNumber
deriving DecidableEq, Repr

inductive Affinity where
  | client
  | server
deriving DecidableEq, Repr

structure Dialect where
  name : String
  supportsOffsetFetch : Bool
  allowsSelectWithoutSource : Bool
  allowsDistinctInAggregates : Bool
  pagination : Pagination
deriving DecidableEq, Repr

namespace Dialect

def ansi : Dialect := ⟨"ansi", true, true, true, .offsetFetch⟩

def tsql : Dialect := ⟨"tsql", false, true, true, .rowNumber⟩

def access : Dialect := ⟨"access", false, false, false, .nestedTop⟩

def ofName? (name : String) : Option Dialect :=
  match name.toLower with
  | "ansi" | "postgres" | "sqlite" => some ansi
  | "tsql" | "mssql" | "sqlserver" => some tsql
  | "access" => some access
  | _ => none

/-- The strategy in use: native paging whenever there is some, and row numbers where the dialect has
none and names no other way. -/
def paging (d : Dialect) : Pagination :=
  if d.supportsOffsetFetch then .offsetFetch
  else match d.pagination with
    | .offsetFetch => .rowNumber
    | other => other

end Dialect

namespace Expr

def mustBeColumn : Expr → Bool
  | .aggregate .. | .groupAggregate .. | .scalar _ | .existsIn _ | .inSelect .. | .rowNumber _ =>
    true
  | _ => false

def canBeColumn : Expr → Bool
  | .binary .. | .unary .. | .cond .. | .isNull _ | .between .. | .inValues .. | .const _ => true
  | .call function args => ServerFunction.accepts function args.length
  | _ => false

end Expr

end ObjectQuery
