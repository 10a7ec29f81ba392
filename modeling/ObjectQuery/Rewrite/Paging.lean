import ObjectQuery.Rewrite.Orderings

/-!
Paging for dialects that cannot skip rows.

With row numbers, a select that skips rows numbers its rows instead, in its order, and a select around
it keeps those whose numbers lie in the page. A select that groups or drops repeated rows is wrapped
first, so that the number takes no part in that.

With first rows only, the last `take` of the first `skip + take` rows are taken by inverting the order,
and then sorted again. A select without an ordering, a skip or a take is left alone.
-/

namespace ObjectQuery

/-- A sum, added up when both terms are integer constants. Where 64 bits do not hold it, it is left to
the execution, which fails on it. -/
def Expr.plus : Expr → Expr → Expr
  | .const (.int a), .const (.int b) =>
    if -0x8000000000000000 ≤ a + b ∧ a + b < 0x8000000000000000 then .int (a + b)
    else .binary .add (.int a) (.int b)
  | a, b => .binary .add a b

theorem Expr.plus_eq (a b : Expr) : (∃ n, a.plus b = .int n) ∨ a.plus b = .binary .add a b := by
  unfold Expr.plus
  split
  · split
    · exact .inl ⟨_, rfl⟩
    · exact .inr rfl
  · exact .inr rfl

namespace RowNumbers

def columnName : String := "_rownum"

def through (rel : Alias) :
    List (Order Expr) → List (ColumnDecl Expr) → List (Order Expr) × List (ColumnDecl Expr)
  | [], columns => ([], columns)
  | o :: rest, columns =>
    let (d, columns) := ColumnDecl.provide columns (o.expr.baseName "o") o.expr
    let (orderings, columns) := through rel rest columns
    (⟨o.direction, .column ⟨rel, d.name, d.type⟩⟩ :: orderings, columns)

/-- The select without paging and the order of its rows, with a layer between if numbers in its
columns would change its rows. -/
def unpaged (s : Select Expr) : Mint (Select Expr × List (Order Expr)) := do
  let s := { s with skip := none, take := none }
  if s.distinct || !s.groupBy.isEmpty then
    let rel ← Supply.freshAlias
    let (orderings, columns) := through rel s.orderBy s.columns
    let below := { s with rel, columns }
    return ({ s.wrapped rel with source := some (.select below) }, orderings)
  else return (s, s.orderBy)

def inPage (number skip : Expr) : Option Expr → Expr
  | some take => .between number (skip.plus (.int 1)) (skip.plus take)
  | none => .binary .gt number skip

def finish (s : Select Expr) : Mint (Select Expr) := do
  match s.skip with
  | none => return s
  | some skip =>
    let (unpaged, orderBy) ← unpaged s
    let number : ColumnDecl Expr := ⟨columnName, .rowNumber orderBy, .int⟩
    let numbered := { unpaged with columns := unpaged.columns ++ [number] }
    let rel ← Supply.freshAlias
    let outer := numbered.wrapped rel
    return { outer with
      columns := outer.columns.filter (·.name ≠ columnName)
      filter := some (inPage (.column ⟨rel, columnName, .int⟩) skip s.take) }

end RowNumbers

def Expr.skipByRowNumbers (e : Expr) : Mint Expr :=
  e.bottomUp ⟨pure, RowNumbers.finish⟩

namespace NestedTop

open Orderings (inverted)

def page (s : Select Expr) (skip take : Expr) : Mint (Select Expr) := do
  let first := { s with take := some (skip.plus take), skip := none }
  let last := { first.wrapped (← Supply.freshAlias) with take := some take }.hoistOrderings
  let last := { last with orderBy := inverted last.orderBy }
  -- Any take makes the ordering stay on the outer select.
  let sorted := { last.wrapped (← Supply.freshAlias) with take := some (.int 0) }.hoistOrderings
  return { sorted with orderBy := inverted sorted.orderBy, take := none }

def finish (s : Select Expr) : Mint (Select Expr) :=
  match s.skip, s.take with
  | some skip, some take => if s.orderBy.isEmpty then return s else page s skip take
  | _, _ => return s

end NestedTop

def Expr.skipByNestedTop (e : Expr) : Mint Expr :=
  e.bottomUp ⟨pure, NestedTop.finish⟩

end ObjectQuery
