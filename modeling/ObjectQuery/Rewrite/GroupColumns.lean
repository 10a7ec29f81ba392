import ObjectQuery.Tree.Aliases
import ObjectQuery.Tree.Traverse

/-!
Aggregates of a group as columns of the select that groups. Every aggregate over the elements of a
group becomes one more column of the grouping select, and is read from there. An aggregate whose
grouping select is not in sight is computed by a subquery.
-/

namespace ObjectQuery

namespace GroupColumns

structure Candidate where
  correlation : Nat
  owner : Alias
  aggregate : Expr

/-- Adds a candidate to those found so far, once per correlation. -/
def addCandidate (found : List Candidate) (c : Candidate) : List Candidate :=
  if found.any (·.correlation == c.correlation) then found else found ++ [c]

def candidates (e : Expr) : List Candidate :=
  ((Part.expr e).gather (fun
    | .expr (.groupAggregate correlation owner aggregate _) => [⟨correlation, owner, aggregate⟩]
    | _ => []) fun _ => true).foldl addCandidate []

structure State where
  waiting : List Candidate
  placed : List (Nat × Column)

def place (s : Select Expr) (c : Candidate) : Select Expr × Column :=
  let name := s.availableName ("agg" ++ toString s.columns.length)
  let d := ColumnDecl.of name c.aggregate
  ({ s with columns := s.columns ++ [d] }, ⟨s.rel, name, d.type⟩)

def settle (s : Select Expr) : StateM State (Select Expr) := do
  let state ← get
  let (mine, others) := state.waiting.partition (·.owner == s.rel)
  let (s, placed) := mine.foldl (fun (s, placed) c =>
    let (s, column) := place s c
    (s, (c.correlation, column) :: placed)) (s, state.placed)
  set (State.mk others placed)
  return s

end GroupColumns

open GroupColumns in
mutual

def Expr.groupColumns : Expr → StateM State Expr
  | .groupAggregate correlation _ _ fallback => do
    match (← get).placed.lookup correlation with
    | some column => return .column column
    | none => return .scalar (← fallback.groupColumns)
  | e => e.traverse (fun c _ => c.groupColumns) (fun s _ => s.groupColumns)
      fun p _ => p.groupColumns
termination_by e => (Part.expr e).weight
decreasing_by
  · exact Part.weight_lt (by simp [Part.parts])
  all_goals exact Part.weight_lt ‹_›

def Select.groupColumns (s : Select Expr) : StateM State (Select Expr) := do
  settle (← s.traverse fun e _ => e.groupColumns)
termination_by (Part.select s).weight
decreasing_by all_goals exact Part.weight_lt ‹_›

def Projection.groupColumns (p : Projection Expr) : StateM State (Projection Expr) :=
  p.traverse (fun e _ => e.groupColumns) fun s _ => s.groupColumns
termination_by (Part.projection p).weight
decreasing_by all_goals exact Part.weight_lt ‹_›

end

def Expr.withGroupColumns (e : Expr) : Expr :=
  (e.groupColumns.run ⟨GroupColumns.candidates e, []⟩).1

end ObjectQuery
