import ObjectQuery.Eval.Arithmetic
import ObjectQuery.Json

/-!
Rows, the tables that hold them, and what an expression can see: one row for each relation around
it, and the frames of the current group in a grouped select.
-/

namespace ObjectQuery

abbrev Row := List (String × Value)

namespace Row

def get? (row : Row) (name : String) : Option Value := row.lookup name

def values (row : Row) : List Value := row.map (·.2)

def head (row : Row) : Value := (row.head?.map (·.2)).getD .null

end Row

structure Tables where
  tables : List (String × List Row)

namespace Tables

def get? (t : Tables) (name : String) : Option (List Row) := t.tables.lookup name

end Tables

def putMember {α : Type} (members : List (String × α)) (key : String) (value : α) :
    List (String × α) :=
  if members.any (·.1 == key) then
    members.map fun (k, v) => if k == key then (k, value) else (k, v)
  else members ++ [(key, value)]

mutual

/-- A stored value. Integers beyond 64 bits are floats, and objects are null. -/
def Value.ofJson : Json → Value
  | .null => .null
  | .bool b => .bool b
  | .int n =>
    if -0x8000000000000000 ≤ n ∧ n < 0x8000000000000000 then .int n else .float (Float.ofInt n)
  | .float x => .float x
  | .str s => .text s
  | .arr items => .list (valuesOfJson items)
  | .obj _ => .null

def valuesOfJson : List Json → List Value
  | [] => []
  | j :: rest => Value.ofJson j :: valuesOfJson rest

end

def Row.ofJson? (j : Json) : Option Row := do
  let members ← j.asObject?
  some (members.foldl (fun row (key, value) => putMember row key (Value.ofJson value)) [])

def Tables.ofJson? (j : Json) : Option Tables := do
  let members ← j.asObject?
  let tables ← members.mapM fun (name, rows) => do
    some (name, ← (← rows.asArray?).mapM Row.ofJson?)
  some ⟨tables.reverse⟩

def Tables.parse (text : String) : Except EvalError Tables :=
  match (Json.parse? text).bind Tables.ofJson? with
  | some tables => .ok tables
  | none => .error .badData

abbrev Frame := List (Alias × Option Row)

structure Scope where
  rows : Frame
  group : Option (List Frame)
  rowNumber : Option Nat

namespace Scope

def root : Scope := ⟨[], none, none⟩

/-- Adds the rows of a frame. A group and a row number are seen only in their own select. -/
def extend (scope : Scope) (frame : Frame) : Scope :=
  ⟨frame.reverse ++ scope.rows, none, none⟩

def bind (scope : Scope) (rel : Alias) (row : Row) : Scope :=
  scope.extend [(rel, some row)]

def column (scope : Scope) (c : Column) : Except EvalError Value :=
  match scope.rows.lookup c.rel with
  | none => .error (.danglingAlias c.rel)
  | some none => .ok .null
  | some (some row) =>
    match row.get? c.name with
    | some v => .ok v
    | none => .error (.unknownColumn c.rel c.name)

end Scope

end ObjectQuery
