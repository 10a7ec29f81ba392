import ObjectQuery.Tree.Decode

/-!
Canonical numbering: the ids of a tree are replaced by 1, 2, 3, ... in the order in which they appear
in its JSON form. Aliases, parameters and correlations share one numbering. Two trees that differ
only in which ids were handed out have the same canonical form.
-/

namespace ObjectQuery

abbrev Numbering := List (Int × Nat)

def Numbering.number (id : Int) : StateM Numbering Nat := do
  let seen ← get
  match seen.lookup id with
  | some n => return n
  | none =>
    let n := seen.length + 1
    set ((id, n) :: seen)
    return n

namespace Json

def isIdKey (key : String) : Bool :=
  ["alias", "group_by_alias", "correlation_id", "item", "Parameter", "params"].contains key

mutual

def renumber (key : String) : Json → StateM Numbering Json
  | .int n =>
    if isIdKey key then do return .int (← Numbering.number n) else return .int n
  | .arr items => do return .arr (← renumberItems (if key = "params" then key else "") items)
  | .obj members => do return .obj (← renumberMembers members)
  | j => return j
termination_by structural j => j

def renumberItems (key : String) : List Json → StateM Numbering (List Json)
  | [] => return []
  | j :: rest => do return (← j.renumber key) :: (← renumberItems key rest)
termination_by structural js => js

def renumberMembers : List (String × Json) → StateM Numbering (List (String × Json))
  | [] => return []
  | (key, j) :: rest => do return (key, ← j.renumber key) :: (← renumberMembers rest)
termination_by structural js => js

end

def canonical (j : Json) : Json := ((j.renumber "").run []).1

def ids (j : Json) : List Int := ((j.renumber "").run []).2.map (·.1)

end Json

def Expr.canonical (e : Expr) : Expr := (Expr.decode e.encode.canonical).getD e

def Expr.nextId (e : Expr) : Nat :=
  e.encode.ids.foldl (fun n id => max n (id.toNat + 1)) 1

end ObjectQuery
