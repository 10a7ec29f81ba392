import ObjectQuery.Eval.Relation

/-!
The objects that a projection rebuilds from its rows. The projector is evaluated once per row of its
select. A nested projection is run anew for each outer row; the side of a client join is run once
and matched with the outer rows on equal keys.
-/

namespace ObjectQuery

inductive ClientValue where
  | null
  | scalar (v : Value)
  | object (typeName : Option String) (members : List (String × ClientValue))
  | list (items : List ClientValue)
  | grouping (key : ClientValue) (elements : List ClientValue)
deriving Inhabited

namespace ClientValue

mutual

def ofValue : Value → ClientValue
  | .null => .null
  | .list items => .list (ofValues items)
  | v => .scalar v

def ofValues : List Value → List ClientValue
  | [] => []
  | v :: rest => ofValue v :: ofValues rest

end

def member? (name : String) : ClientValue → Option ClientValue
  | .object _ members => members.lookup name
  | _ => none

def elements : ClientValue → List ClientValue
  | .list items => items
  | .null => []
  | single => [single]

mutual

def valueJson : Value → Json
  | .null => .null
  | .bool b => .bool b
  | .int n => .int n
  | .float x => .float x
  | .text s => .str s
  | .list items => .arr (valuesJson items)

def valuesJson : List Value → List Json
  | [] => []
  | v :: rest => valueJson v :: valuesJson rest

end

mutual

def toJson : ClientValue → Json
  | .null => .null
  | .scalar v => valueJson v
  | .object _ members => .obj (membersJson [] members)
  | .list items => .arr (itemsJson items)
  | .grouping key elements => .obj [("key", toJson key), ("elements", .arr (itemsJson elements))]
termination_by structural v => v

def itemsJson : List ClientValue → List Json
  | [] => []
  | v :: rest => toJson v :: itemsJson rest
termination_by structural vs => vs

def membersJson (before : List (String × Json)) :
    List (String × ClientValue) → List (String × Json)
  | [] => before
  | (name, v) :: rest => membersJson (putMember before name (toJson v)) rest
termination_by structural ms => ms

end

end ClientValue

namespace Eval

abbrev JoinedRows := List (List Value × ClientValue)

abbrev Client := StateT (List (Alias × JoinedRows)) Result

def picked (pick : Option Pick) (values : List ClientValue) : Result ClientValue :=
  match pick with
  | none => .ok (.list values)
  | some pick =>
    if pick.isSingle && 1 < values.length then .error .moreThanOneElement
    else match if pick.isLast then values.getLast? else values.head? with
      | some v => .ok v
      | none => if pick.orDefault then .ok .null else .error .noElements

mutual

def client (tables : Tables) (e : Expr) (scope : Scope) : Client ClientValue :=
  match e with
  | .construct typeName fields => do
    let members ← fields.attach.mapM fun ⟨f, _⟩ => do
      return (f.name, ← client tables f.expr scope)
    return .object typeName members
  | .entity _ e => client tables e scope
  | .outerJoined test e => do
    if (← scalar tables test scope).isNull then return .null else client tables e scope
  | .cond test onTrue onFalse => do
    if ← holds (← scalar tables test scope) then client tables onTrue scope
    else client tables onFalse scope
  | .grouping key group => do
    let key ← client tables key scope
    let group ← client tables group scope
    return .grouping key group.elements
  | .member target name => do
    match ← client tables target scope with
    | .null => return .null
    | v =>
      match v.member? name with
      | some m => return m
      | none => throw (.unsupported ("member " ++ name))
  | .projection p => project tables p scope
  | .clientJoin p outerKey innerKey => do
    let joined ← match (← get).lookup p.select.rel with
      | some joined => pure joined
      | none => do
        let joined ← joinedRows tables p innerKey
        modify ((p.select.rel, joined) :: ·)
        pure joined
    let key ← outerKey.mapM fun k => scalar tables k scope
    let matched := joined.filter fun (inner, _) => Value.keysEqual inner key
    picked p.pick (matched.map (·.2))
  | e => do return .ofValue (← scalar tables e scope)
termination_by (Part.expr e).weight
decreasing_by
  all_goals first
    | exact Part.weight_lt (Expr.field_mem ‹_›)
    | exact Part.weight_lt (by simp [Part.parts])

def joinedRows (tables : Tables) (p : Projection Expr) (innerKey : List Expr) :
    Client JoinedRows := do
  let rows ← select tables p.select .root
  rows.mapM fun row => do
    let scope := Scope.root.bind p.select.rel row
    let key ← innerKey.mapM fun k => scalar tables k scope
    return (key, ← client tables p.projector scope)
termination_by (Part.projection p).weight
decreasing_by exact Part.weight_lt Projection.projector_mem

def project (tables : Tables) (p : Projection Expr) (scope : Scope) : Client ClientValue := do
  let rows ← select tables p.select scope
  let values ← rows.mapM fun row => client tables p.projector (scope.bind p.select.rel row)
  picked p.pick values
termination_by (Part.projection p).weight
decreasing_by exact Part.weight_lt Projection.projector_mem

end

end Eval

def Expr.execute (e : Expr) (tables : Tables) : Except EvalError ClientValue :=
  match e with
  | .command _ => .error (.unsupported "command")
  | e => do
    let (v, _) ← (Eval.client tables e .root).run []
    return v

end ObjectQuery
