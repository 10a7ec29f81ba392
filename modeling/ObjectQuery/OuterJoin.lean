import ObjectQuery.Tree.Aliases
import ObjectQuery.Tree.Member

/-!
Telling whether the optional side of an outer join produced a row. The test is a column on which the
select is correlated with the outside, since such a column cannot be null in a row that matched, and
a constant column when there is none.
-/

namespace ObjectQuery

def addJoinColumn (aliases : List Alias) (found : List Column) (c : Column) : List Column :=
  if aliases.contains c.rel && !found.contains c then found ++ [c] else found

def joinColumnsFrom (aliases : List Alias) (found : List Column) : Expr → List Column
  | .binary .eq left right | .binary .notEq left right =>
    let inner :=
      if left.isColumnOutside aliases then right.asColumn?
      else if right.isColumnOutside aliases then left.asColumn?
      else none
    match inner with
    | some c => addJoinColumn aliases found c
    | none => found
  | .binary .and left right =>
    joinColumnsFrom aliases (joinColumnsFrom aliases found left) right
  | _ => found

def joinColumns (aliases : List Alias) (predicate : Expr) : List Column :=
  joinColumnsFrom aliases [] predicate

/-- An expression over the source of a select that is never null in its rows. -/
def Select.joinTest (s : Select Expr) : Expr :=
  let found := (s.filter.map (joinColumns s.sourceAliases)).getD []
  match found.find? fun c => s.columns.any (·.expr == .column c) with
  | some c => .column c
  | none =>
    match found with
    | c :: _ => .column c
    | [] => .int 1

def Projection.withJoinTest (p : Projection Expr) : Projection Expr :=
  let test := p.select.joinTest
  let (d, columns) := ColumnDecl.provide p.select.columns (test.baseName "Test") test
  { p with
    select := { p.select with columns }
    projector := .outerJoined (.column ⟨p.select.rel, d.name, test.columnType⟩) p.projector }

end ObjectQuery
