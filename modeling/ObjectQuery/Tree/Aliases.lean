import ObjectQuery.Tree.Parts

/-!
What a tree says about names: the aliases it declares, the columns it reads, the aliases it leaves
free, whether a select aggregates, and the terms of a conjunction. A new name is chosen among `base`,
`base1`, `base2`, and so on; of any `n + 1` candidates one is free when `n` names are taken, so the
search is bounded by the number of names taken.
-/

namespace ObjectQuery

namespace Names

def candidate (base : String) : Nat → String
  | 0 => base
  | n + 1 => base ++ toString (n + 1)

def available (taken : List String) (base : String) : String :=
  let candidates := (List.range (taken.length + 1)).map (candidate base)
  (candidates.find? (!taken.contains ·)).getD base

def nextNumber (taken : List String) (start : Nat) : Nat :=
  let numbers := (List.range (taken.length + 1)).map (start + ·)
  (numbers.find? fun n => !taken.contains ("c" ++ toString n)).getD start

end Names

namespace Expr

def declares : Expr → List Alias
  | .select s => [s.rel]
  | .table t => [t.rel]
  | .setOp rel _ _ _ => [rel]
  | .join _ left right _ => left.declares ++ right.declares
  | _ => []

end Expr

def Select.sourceAliases (s : Select Expr) : List Alias :=
  (s.source.map Expr.declares).getD []

namespace Part

def columnRefs (p : Part) : List Column :=
  p.gather (fun
    | .expr (.column c) => [c]
    | _ => []) fun _ => true

def declared (p : Part) : List Alias :=
  p.gather (fun
    | .expr (.table t) => [t.rel]
    | .expr (.setOp rel _ _ _) => [rel]
    | .select s => [s.rel]
    | _ => []) fun _ => true

def columns (p : Part) : List Column :=
  p.columnRefs.eraseDups

def referenced (p : Part) : List Alias :=
  (p.columnRefs.map (·.rel)).eraseDups

def free (p : Part) : List Alias :=
  let declared := p.declared
  p.referenced.filter (!declared.contains ·)

/-- Whether an aggregate is computed here, and not in a subquery, which aggregates at its own
level. -/
def aggregates (p : Part) : Bool :=
  !(p.gather (fun
    | .expr (.aggregate ..) => [()]
    | _ => []) (fun
    | .expr e =>
      match e with
      | .aggregate .. | .scalar _ | .existsIn _ | .inSelect .. | .groupAggregate .. | .select _
      | .projection _ => false
      | _ => true
    | _ => true)).isEmpty

end Part

namespace Expr

abbrev free (e : Expr) : List Alias := (Part.expr e).free

abbrev referenced (e : Expr) : List Alias := (Part.expr e).referenced

abbrev columns (e : Expr) : List Column := (Part.expr e).columns

def isColumnOutside (aliases : List Alias) : Expr → Bool
  | .column c => !aliases.contains c.rel
  | _ => false

def conjuncts : Expr → List Expr
  | .binary .and left right => left.conjuncts ++ right.conjuncts
  | e => [e]

def conjoin? : List Expr → Option Expr
  | [] => none
  | e :: rest => some (rest.foldl .both e)

end Expr

namespace Select

def hasAggregates (s : Select Expr) : Bool :=
  s.filter.any (fun e => (Part.expr e).aggregates)
    || s.orderBy.any (fun o => (Part.expr o.expr).aggregates)
    || s.columns.any (fun c => (Part.expr c.expr).aggregates)

def availableName (s : Select Expr) (base : String) : String :=
  Names.available s.columnNames base

def wrapped (s : Select Expr) (inner : Alias) : Select Expr :=
  let columns := s.columns.map fun d =>
    { d with expr := Expr.column ⟨inner, d.name, d.type⟩ }
  Select.plain s.rel columns (some (.select { s with rel := inner })) none

end Select

end ObjectQuery
