import ObjectQuery.Dialect
import ObjectQuery.Tree.Aliases
import ObjectQuery.Tree.Same
import ObjectQuery.Tree.Traverse

/-!
Splitting an expression into the columns that a select has to produce and an expression over those
columns that rebuilds its value on the client.

The walk goes from the top down. A subtree that the server can compute as one column of the new
select is replaced by a reference to that column; otherwise the walk goes on into its parts. Inside
a nested relation or projection only bare columns of the sources are lifted out, which points
correlated references at the new select.
-/

namespace ObjectQuery

inductive ColumnState where
  | must
  | can
  | cannot
deriving DecidableEq, Repr

structure Nomination where
  state : ColumnState
  chosen : Bool
deriving DecidableEq, Repr

def Nomination.allowsParent (n : Nomination) : Bool :=
  n.chosen || n.state == .can

/-- Whether an expression becomes a column of a select over the `sources`. Below a nested relation
(`nested`), a subquery stays where it is. -/
def Expr.nominate (affinity : Affinity) (sources : List Alias) (nested : Bool) (e : Expr) :
    Nomination :=
  match e with
  | .column c => if sources.contains c.rel then ⟨.must, true⟩ else ⟨.cannot, false⟩
  | .const _ => ⟨.can, false⟩
  | .groupAggregate _ _ _ fallback =>
    if !nested && (Part.select fallback).free.all sources.contains then ⟨.must, true⟩
    else ⟨.cannot, false⟩
  | e =>
    if e.mustBeColumn then
      if !nested && e.free.all sources.contains then ⟨.must, true⟩ else ⟨.cannot, false⟩
    else if e.canBeColumn && affinity == .server
        && (Part.expr e).parts.attach.all (fun
          | ⟨.expr c, _⟩ => (nominate affinity sources nested c).allowsParent
          | _ => true) then
      ⟨.can, true⟩
    else ⟨.cannot, false⟩
termination_by (Part.expr e).weight
decreasing_by exact Part.weight_lt ‹_›

structure Split where
  affinity : Affinity
  rel : Alias
  sources : List Alias

structure Split.State where
  columns : List (ColumnDecl Expr)
  next : Nat

namespace Split

def column (split : Split) (e : Expr) : StateM State Expr := do
  let state ← get
  match state.columns.find? (·.expr == e) with
  | some d => return .column ⟨split.rel, d.name, d.type⟩
  | none =>
    let taken := state.columns.map (·.name)
    let (name, next) := match e with
      | .column c => (Names.available taken c.name, state.next)
      | _ =>
        let n := Names.nextNumber taken state.next
        ("c" ++ toString n, n + 1)
    set (State.mk (state.columns ++ [ColumnDecl.of name e]) next)
    return .column ⟨split.rel, name, e.columnType⟩

mutual

def expr (split : Split) (nested : Bool) (e : Expr) : StateM State Expr :=
  if (e.nominate split.affinity split.sources nested).chosen then split.column e
  else
    let below := nested || match e with
      | .projection _ | .clientJoin .. => true
      | _ => false
    e.traverse (fun c _ => split.expr below c) (fun s _ => split.select s)
      fun p _ => split.projection below p
termination_by (Part.expr e).weight
decreasing_by all_goals exact Part.weight_lt ‹_›

def select (split : Split) (s : Select Expr) : StateM State (Select Expr) :=
  s.traverse fun e _ => split.expr true e
termination_by (Part.select s).weight
decreasing_by all_goals exact Part.weight_lt ‹_›

def projection (split : Split) (nested : Bool) (p : Projection Expr) :
    StateM State (Projection Expr) :=
  p.traverse (fun e _ => split.expr nested e) fun s _ => split.select s
termination_by (Part.projection p).weight
decreasing_by all_goals exact Part.weight_lt ‹_›

end

end Split

structure SplitColumns where
  projector : Expr
  columns : List (ColumnDecl Expr)

/-- Splits an expression for a select named `rel` whose source declares `sources`. The `existing`
columns are kept and used where they fit. -/
def Expr.split (e : Expr) (affinity : Affinity) (existing : List (ColumnDecl Expr)) (rel : Alias)
    (sources : List Alias) : SplitColumns :=
  let (projector, state) := (Split.expr ⟨affinity, rel, sources⟩ false e).run ⟨existing, 0⟩
  { projector, columns := state.columns }

end ObjectQuery
