import ObjectQuery.Eval.Scope
import ObjectQuery.Tree.Aliases
import ObjectQuery.Tree.Render
import ObjectQuery.Tree.Traverse

/-!
The meaning of relations and scalar expressions over stored tables. Every relation is a list of rows
in order; a correlated subquery is evaluated anew for each row around it. The steps of a select are
given the evaluator of its expressions.
-/

namespace ObjectQuery

def Expr.summary (e : Expr) : String :=
  let text := e.render.toList
  if 60 < text.length then String.ofList (text.take 60) ++ "..." else String.ofList text

namespace Eval

abbrev Result := Except EvalError

def compareKeys : List Direction → List Value → List Value → Ordering
  | d :: ds, a :: as, b :: bs =>
    let first := match d with
      | .ascending => Value.sortOrder a b
      | .descending => Value.sortOrder b a
    if first == .eq then compareKeys ds as bs else first
  | _, _, _ => .eq

/-- Puts an item into a list sorted from the end, behind the items that are not greater. -/
def insertFromEnd {α : Type} (less : α → α → Bool) (a : α) : List α → List α
  | [] => [a]
  | b :: rest => if less a b then b :: insertFromEnd less a rest else a :: b :: rest

def sortStable {α : Type} (less : α → α → Bool) (items : List α) : List α :=
  (items.foldl (fun sorted a => insertFromEnd less a sorted) []).reverse

def distinctBy {α : Type} (key : α → List Value) (items : List α) : List α :=
  items.foldl (fun kept a =>
    if kept.any (fun b => Value.keysEqual (key b) (key a)) then kept else kept ++ [a]) []

def addToGroup (key : List Value) (frame : Frame) :
    List (List Value × List Frame) → List (List Value × List Frame)
  | [] => [(key, [frame])]
  | (k, frames) :: rest =>
    if Value.keysEqual k key then (k, frames ++ [frame]) :: rest
    else (k, frames) :: addToGroup key frame rest

def groupFrames (keyed : List (List Value × Frame)) : List (List Value × List Frame) :=
  keyed.foldl (fun groups (key, frame) => addToGroup key frame groups) []

def nullFrame (source : Option Expr) : Frame :=
  ((source.map Expr.declares).getD []).map fun rel => (rel, none)

/-- The scopes of a grouped select, one a group; the first frame of a group stands for it. Without
grouping keys there is always one group. -/
def groupScopes (s : Select Expr) (env : Scope) (keyed : List (List Value × Frame)) : List Scope :=
  let groups := groupFrames keyed
  let groups := if groups.isEmpty && s.groupBy.isEmpty then [([], [])] else groups
  groups.map fun (_, frames) =>
    { env.extend (frames.head?.getD (nullFrame s.source)) with group := some frames }

def numberScopes (directions : List Direction) (keyed : List (List Value × Scope)) : List Scope :=
  let indexed := keyed.zipIdx
  let sorted := sortStable (fun a b => compareKeys directions a.1.1 b.1.1 == .lt) indexed
  let ranks := sorted.zipIdx.map fun ((_, index), rank) => (index, rank + 1)
  indexed.map fun ((_, scope), index) => { scope with rowNumber := ranks.lookup index }

structure Produced where
  row : Row
  keys : List Value

def arrange (s : Select Expr) (produced : List Produced) : List Row :=
  let kept := if s.distinct then distinctBy (·.row.values) produced else produced
  let directions := s.orderBy.map (·.direction)
  let sorted := sortStable (fun a b => compareKeys directions a.keys b.keys == .lt) kept
  let rows := sorted.map (·.row)
  if s.reversed then rows.reverse else rows

def combine (kind : SetKind) (names : List String) (left right : List Row) : List Row :=
  let rows := left ++ right.map fun row => names.zip row.values
  match kind with
  | .unionAll => rows
  | .union => distinctBy Row.values rows

def numbering? (s : Select Expr) :
    Option { orders : List (Order Expr) // ∃ c ∈ s.columns, c.expr = .rowNumber orders } :=
  s.columns.attach.findSome? fun ⟨c, h⟩ =>
    match hc : c.expr with
    | .rowNumber orders => some ⟨orders, c, h, hc⟩
    | _ => none

theorem weight_numbering {s : Select Expr} {orders : List (Order Expr)} {o : Order Expr}
    (h : ∃ c ∈ s.columns, c.expr = .rowNumber orders) (ho : o ∈ orders) :
    (Part.expr o.expr).weight < (Part.select s).weight := by
  obtain ⟨c, hc, he⟩ := h
  have outer := Part.weight_lt (Select.columns_mem hc)
  have inner : (Part.expr o.expr).weight < (Part.expr c.expr).weight := by
    rw [he]
    exact Part.weight_lt (by simpa [Part.parts] using ⟨o, ho, rfl⟩)
  omega

def holds (v : Value) : Result Bool := do
  return (← v.truth) == some true

def onlyValue (rows : List Row) : Result Value :=
  match rows with
  | [] => .ok .null
  | [row] => .ok row.head
  | rows => .error (.scalarRows rows.length)

section Steps

variable (s : Select Expr)
  (eval : (e : Expr) → (Part.expr e).weight < (Part.select s).weight → Scope → Result Value)

def filtered (env : Scope) (frames : List Frame) : Result (List Frame) :=
  match s.filter.attach with
  | none => .ok frames
  | some ⟨e, h⟩ => frames.filterM fun frame => do
    holds (← eval e (Part.weight_lt (Select.filter_mem h)) (env.extend frame))

def scopes (env : Scope) (frames : List Frame) : Result (List Scope) :=
  if !s.groupBy.isEmpty || s.hasAggregates then do
    let keyed ← frames.mapM fun frame => do
      let key ← s.groupBy.attach.mapM fun ⟨e, h⟩ =>
        eval e (Part.weight_lt (Select.groupBy_mem h)) (env.extend frame)
      return (key, frame)
    return groupScopes s env keyed
  else .ok (frames.map env.extend)

def numbered (scopes : List Scope) : Result (List Scope) :=
  match numbering? s with
  | none => .ok scopes
  | some ⟨orders, h⟩ => do
    let keyed ← scopes.mapM fun scope => do
      let key ← orders.attach.mapM fun ⟨o, ho⟩ => eval o.expr (weight_numbering h ho) scope
      return (key, scope)
    return numberScopes (orders.map (·.direction)) keyed

def produce (scope : Scope) : Result Produced := do
  let row ← s.columns.attach.mapM fun ⟨c, h⟩ => do
    return (c.name, ← eval c.expr (Part.weight_lt (Select.columns_mem h)) scope)
  let keys ← s.orderBy.attach.mapM fun ⟨o, h⟩ =>
    eval o.expr (Part.weight_lt (Select.orderBy_mem h)) scope
  return { row, keys }

def skipped (env : Scope) (rows : List Row) : Result (List Row) :=
  match s.skip.attach with
  | none => .ok rows
  | some ⟨e, h⟩ => do
    let n ← (← eval e (Part.weight_lt (Select.skip_mem h)) env).asInt
    return rows.drop n.toNat

def taken (env : Scope) (rows : List Row) : Result (List Row) :=
  match s.take.attach with
  | none => .ok rows
  | some ⟨e, h⟩ => do
    let n ← (← eval e (Part.weight_lt (Select.take_mem h)) env).asInt
    return rows.take n.toNat

end Steps

mutual

def scalar (tables : Tables) (e : Expr) (scope : Scope) : Result Value :=
  match e with
  | .const v => .ok v
  | .column c => scope.column c
  | .binary op left right => do
    let left ← scalar tables left scope
    let right ← scalar tables right scope
    Value.binary op left right
  | .unary op operand => do
    Value.unary op (← scalar tables operand scope)
  | .cond test onTrue onFalse => do
    if ← holds (← scalar tables test scope) then scalar tables onTrue scope
    else scalar tables onFalse scope
  | .call function args => do
    let args ← args.attach.mapM fun ⟨a, _⟩ => scalar tables a scope
    Value.call function args
  | .isNull operand => do
    return .bool (← scalar tables operand scope).isNull
  | .between operand lower upper => do
    let v ← scalar tables operand scope
    let lower ← scalar tables lower scope
    let upper ← scalar tables upper scope
    let above ← Value.binary .gtEq v lower
    let below ← Value.binary .ltEq v upper
    Value.binary .and above below
  | .inValues item values => do
    let v ← scalar tables item scope
    let candidates ← values.attach.mapM fun ⟨c, _⟩ => do
      match ← scalar tables c scope with
      | .list items => return items
      | single => return [single]
    v.isIn candidates.flatten
  | .inSelect item s => do
    let v ← scalar tables item scope
    let rows ← select tables s scope
    v.isIn (rows.map Row.head)
  | .existsIn s => do
    return .bool !(← select tables s scope).isEmpty
  | .scalar s => do
    onlyValue (← select tables s scope)
  | .groupAggregate _ _ _ fallback => do
    onlyValue (← select tables fallback scope)
  | .aggregate kind argument distinct =>
    match scope.group with
    | none => .error .aggregateOutsideGroup
    | some frames =>
      match argument with
      | none =>
        if kind.isCount then .ok (.int frames.length)
        else .error (.unsupported (kind.keyword ++ " without an argument"))
      | some e => do
        let values ← frames.mapM fun frame => scalar tables e (scope.extend frame)
        Value.aggregate kind (Value.aggregated distinct values)
  | .rowNumber _ =>
    match scope.rowNumber with
    | some n => .ok (.int n)
    | none => .error .rowNumberOutsideSelect
  | other => .error (.unsupported other.summary)
termination_by (Part.expr e).weight
decreasing_by all_goals exact Part.weight_lt (by simp_all [Part.parts])

def source (tables : Tables) (e : Expr) (env : Scope) : Result (List Frame) :=
  match e with
  | .table t =>
    match tables.get? t.name with
    | some rows => .ok (rows.map fun row => [(t.rel, some row)])
    | none => .error (.unknownTable t.name)
  | .select s => do
    return (← select tables s env).map fun row => [(s.rel, some row)]
  | .setOp rel kind left right => do
    let leftRows ← select tables left env
    let rightRows ← select tables right env
    return (combine kind left.columnNames leftRows rightRows).map fun row => [(rel, some row)]
  | .join kind left right on => do
    let lefts ← source tables left env
    let shared ← if kind.isApply then pure [] else source tables right env
    let joined ← lefts.mapM fun frame => do
      let scope := env.extend frame
      let rights ← if kind.isApply then source tables right scope else pure shared
      let matched ← rights.filterM fun other =>
        match on with
        | none => pure true
        | some condition => do holds (← scalar tables condition (scope.extend other))
      let keepsUnmatched := kind == .leftOuter || kind == .outerApply
      if matched.isEmpty && keepsUnmatched then return [frame ++ nullFrame (some right)]
      else return matched.map (frame ++ ·)
    return joined.flatten
  | other => .error (.unsupported ("source " ++ other.summary))
termination_by (Part.expr e).weight
decreasing_by all_goals exact Part.weight_lt (by simp_all [Part.parts])

def select (tables : Tables) (s : Select Expr) (env : Scope) : Result (List Row) := do
  let frames ← match s.source.attach with
    | none => pure [[]]
    | some ⟨e, _⟩ => source tables e env
  let frames ← filtered s (fun e _ scope => scalar tables e scope) env frames
  let scopes ← scopes s (fun e _ scope => scalar tables e scope) env frames
  let scopes ← numbered s (fun e _ scope => scalar tables e scope) scopes
  let produced ← scopes.mapM (produce s fun e _ scope => scalar tables e scope)
  let rows ← skipped s (fun e _ scope => scalar tables e scope) env (arrange s produced)
  taken s (fun e _ scope => scalar tables e scope) env rows
termination_by (Part.select s).weight
decreasing_by all_goals first | exact Part.weight_lt (Select.source_mem ‹_›) | assumption

end

end Eval

end ObjectQuery
