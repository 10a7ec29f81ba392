import ObjectQuery.Tree.Traverse

/-!
Replacing columns throughout a tree, subqueries included.
-/

namespace ObjectQuery

mutual

def Expr.substitute (f : Column → Option Expr) : Expr → Expr
  | .column c => (f c).getD (.column c)
  | e => Id.run (e.traverse (fun c _ => pure (c.substitute f)) (fun s _ => pure (s.substitute f))
      fun p _ => pure (p.substitute f))
termination_by e => (Part.expr e).weight
decreasing_by all_goals exact Part.weight_lt ‹_›

def Select.substitute (f : Column → Option Expr) (s : Select Expr) : Select Expr :=
  Id.run (s.traverse fun e _ => pure (e.substitute f))
termination_by (Part.select s).weight
decreasing_by all_goals exact Part.weight_lt ‹_›

def Projection.substitute (f : Column → Option Expr) (p : Projection Expr) : Projection Expr :=
  Id.run (p.traverse (fun e _ => pure (e.substitute f)) fun s _ => pure (s.substitute f))
termination_by (Part.projection p).weight
decreasing_by all_goals exact Part.weight_lt ‹_›

end

def Expr.repoint (e : Expr) (rel : Alias) (old : List Alias) : Expr :=
  e.substitute fun c => if old.contains c.rel then some (.column { c with rel }) else none

/-- Points columns through a list of renames and leaves the other aliases alone; the last rename
of an alias counts. -/
def Expr.remap (e : Expr) (renames : List (Alias × Alias)) : Expr :=
  e.substitute fun c =>
    (renames.reverse.lookup c.rel).map fun rel => .column { c with rel }

end ObjectQuery
