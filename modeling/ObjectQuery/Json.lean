import ObjectQuery.Numeral

/-!
JSON documents: values whose objects keep the order of their members, a reader and a writer.
Integers and doubles are told apart, and a document is not nested deeper than `deepest`.
-/

namespace ObjectQuery

inductive Json where
  | null
  | bool (b : Bool)
  | int (n : Int)
  | float (x : Float)
  | str (s : String)
  | arr (items : List Json)
  | obj (members : List (String × Json))
deriving Inhabited

namespace Json

def get? (key : String) : Json → Option Json
  | .obj members => (members.reverse.find? (·.1 == key)).map (·.2)
  | _ => none

/-- The member of an object, where a missing member and `null` are the same. -/
def field? (key : String) (j : Json) : Option Json :=
  match j.get? key with
  | some .null => none
  | other => other

def asString? : Json → Option String
  | .str s => some s
  | _ => none

def asBool? : Json → Option Bool
  | .bool b => some b
  | _ => none

def asArray? : Json → Option (List Json)
  | .arr items => some items
  | _ => none

def asObject? : Json → Option (List (String × Json))
  | .obj members => some members
  | _ => none

def ofOption (encode : α → Json) : Option α → Json
  | none => .null
  | some a => encode a

def hexDigit (n : Nat) : Char :=
  if n < 10 then Char.ofNat (48 + n) else Char.ofNat (87 + n)

def escapeChar (c : Char) : List Char :=
  if c = '"' then ['\\', '"']
  else if c = '\\' then ['\\', '\\']
  else if c = '\n' then ['\\', 'n']
  else if c = '\r' then ['\\', 'r']
  else if c = '\t' then ['\\', 't']
  else if c.toNat < 32 then ['\\', 'u', '0', '0', hexDigit (c.toNat / 16), hexDigit (c.toNat % 16)]
  else [c]

def quote (s : String) : String :=
  "\"" ++ String.ofList (s.toList.flatMap escapeChar) ++ "\""

mutual

def render : Json → String
  | .null => "null"
  | .bool true => "true"
  | .bool false => "false"
  | .int n => toString n
  | .float x => if Decimal.isFinite x then Decimal.marked x else "null"
  | .str s => quote s
  | .arr items => "[" ++ ",".intercalate (renderItems items) ++ "]"
  | .obj members => "\x7b" ++ ",".intercalate (renderMembers members) ++ "\x7d"

def renderItems : List Json → List String
  | [] => []
  | item :: rest => render item :: renderItems rest

def renderMembers : List (String × Json) → List String
  | [] => []
  | (key, value) :: rest => (quote key ++ ":" ++ render value) :: renderMembers rest

end

def indent (n : Nat) : String :=
  String.ofList (List.replicate (2 * n) ' ')

mutual

def pretty (depth : Nat) : Json → String
  | .arr [] => "[]"
  | .arr items =>
    "[\n" ++ ",\n".intercalate (prettyItems (depth + 1) items) ++ "\n" ++ indent depth ++ "]"
  | .obj [] => "\x7b\x7d"
  | .obj members =>
    "\x7b\n" ++ ",\n".intercalate (prettyMembers (depth + 1) members) ++ "\n" ++ indent depth
      ++ "\x7d"
  | other => other.render

def prettyItems (depth : Nat) : List Json → List String
  | [] => []
  | item :: rest => (indent depth ++ pretty depth item) :: prettyItems depth rest

def prettyMembers (depth : Nat) : List (String × Json) → List String
  | [] => []
  | (key, value) :: rest =>
    (indent depth ++ quote key ++ ": " ++ pretty depth value) :: prettyMembers depth rest

end

def isBlank (c : Char) : Bool :=
  c = ' ' || c = '\n' || c = '\r' || c = '\t'

def skipBlanks : List Char → List Char
  | c :: rest => if isBlank c then skipBlanks rest else c :: rest
  | [] => []

def hexValue? (c : Char) : Option Nat :=
  if '0' ≤ c ∧ c ≤ '9' then some (c.toNat - 48)
  else if 'a' ≤ c ∧ c ≤ 'f' then some (c.toNat - 87)
  else if 'A' ≤ c ∧ c ≤ 'F' then some (c.toNat - 55)
  else none

def fourHex? : List Char → Option (Nat × List Char)
  | a :: b :: c :: d :: rest => do
    let a ← hexValue? a
    let b ← hexValue? b
    let c ← hexValue? c
    let d ← hexValue? d
    some (((a * 16 + b) * 16 + c) * 16 + d, rest)
  | _ => none

def unicodeEscape? (cs : List Char) : Option (Char × List Char) := do
  let (high, rest) ← fourHex? cs
  if high < 0xD800 || 0xDFFF < high then some (Char.ofNat high, rest)
  else if 0xDC00 ≤ high then none
  else match rest with
    | '\\' :: 'u' :: rest => do
      let (low, rest) ← fourHex? rest
      if 0xDC00 ≤ low ∧ low ≤ 0xDFFF then
        some (Char.ofNat (0x10000 + (high - 0xD800) * 0x400 + (low - 0xDC00)), rest)
      else none
    | _ => none

/-- The text up to the closing quote, `fuel` characters at most; `seen` holds what was read, last
character first. -/
def stringBody (fuel : Nat) (seen : List Char) (cs : List Char) : Option (String × List Char) :=
  match fuel, cs with
  | 0, _ => none
  | _, [] => none
  | _ + 1, '"' :: rest => some (String.ofList seen.reverse, rest)
  | fuel + 1, '\\' :: c :: rest =>
    match c with
    | '"' => stringBody fuel ('"' :: seen) rest
    | '\\' => stringBody fuel ('\\' :: seen) rest
    | '/' => stringBody fuel ('/' :: seen) rest
    | 'b' => stringBody fuel ('\x08' :: seen) rest
    | 'f' => stringBody fuel ('\x0c' :: seen) rest
    | 'n' => stringBody fuel ('\n' :: seen) rest
    | 'r' => stringBody fuel ('\r' :: seen) rest
    | 't' => stringBody fuel ('\t' :: seen) rest
    | 'u' =>
      match unicodeEscape? rest with
      | some (c, rest) => stringBody fuel (c :: seen) rest
      | none => none
    | _ => none
  | fuel + 1, c :: rest =>
    if c.toNat < 32 || c = '\\' then none else stringBody fuel (c :: seen) rest

def unsignedNumber (negative : Bool) (cs : List Char) : Option (Json × List Char) := do
  let (numeral, rest) ← Numeral.unsigned? negative cs
  match ← numeral.value? with
  | .int n => some (.int n, rest)
  | .float x => some (.float x, rest)

def deepest : Nat := 127

mutual

def value (fuel room : Nat) (cs : List Char) : Option (Json × List Char) :=
  match fuel with
  | 0 => none
  | fuel + 1 =>
    match skipBlanks cs with
    | 'n' :: 'u' :: 'l' :: 'l' :: rest => some (.null, rest)
    | 't' :: 'r' :: 'u' :: 'e' :: rest => some (.bool true, rest)
    | 'f' :: 'a' :: 'l' :: 's' :: 'e' :: rest => some (.bool false, rest)
    | '"' :: rest => (stringBody fuel [] rest).map fun (s, rest) => (.str s, rest)
    | '[' :: rest =>
      match room, skipBlanks rest with
      | 0, _ => none
      | _ + 1, ']' :: rest => some (.arr [], rest)
      | room + 1, rest => (items fuel room rest).map fun (items, rest) => (.arr items, rest)
    | '\x7b' :: rest =>
      match room, skipBlanks rest with
      | 0, _ => none
      | _ + 1, '\x7d' :: rest => some (.obj [], rest)
      | room + 1, rest => (entries fuel room rest).map fun (entries, rest) => (.obj entries, rest)
    | '-' :: rest => unsignedNumber true rest
    | rest => unsignedNumber false rest

def items (fuel room : Nat) (cs : List Char) : Option (List Json × List Char) :=
  match fuel with
  | 0 => none
  | fuel + 1 => do
    let (first, rest) ← value fuel room cs
    match skipBlanks rest with
    | ',' :: rest =>
      let (others, rest) ← items fuel room rest
      some (first :: others, rest)
    | ']' :: rest => some ([first], rest)
    | _ => none

def entries (fuel room : Nat) (cs : List Char) : Option (List (String × Json) × List Char) :=
  match fuel with
  | 0 => none
  | fuel + 1 =>
    match skipBlanks cs with
    | '"' :: rest => do
      let (key, rest) ← stringBody fuel [] rest
      match skipBlanks rest with
      | ':' :: rest =>
        let (first, rest) ← value fuel room rest
        match skipBlanks rest with
        | ',' :: rest =>
          let (others, rest) ← entries fuel room rest
          some ((key, first) :: others, rest)
        | '\x7d' :: rest => some ([(key, first)], rest)
        | _ => none
      | _ => none
    | _ => none

end

def parse? (text : String) : Option Json := do
  let cs := text.toList
  let (document, rest) ← value (3 * cs.length + 3) deepest cs
  guard (skipBlanks rest).isEmpty
  some document

end Json

end ObjectQuery
