import ObjectQuery.Text.Case

/-!
Files that set environment variables. A line is `NAME=value`, with `export` before it or not; a value
may be quoted, and inside double quotes or outside all quotes `$NAME` and `${NAME}` stand for
values set before. A variable that already has a value keeps it, and the first line that makes no sense
ends the file.
-/

namespace ObjectQuery.EnvFile

inductive Cover where
  | plain
  | blank
  | escape
  | weak
  | weakEscape
  | strong
  | strongEscape
deriving DecidableEq, Repr

namespace Cover

def opened : Char → Cover
  | '\\' => .escape
  | '"' => .weak
  | '\'' => .strong
  | _ => .plain

def step : Cover → Char → Option Cover
  | .plain, c => some (if Text.isBlank c && c ≠ '\n' && c ≠ '\r' then .blank else opened c)
  | .blank, c => if c = '#' then none else some (opened c)
  | .escape, _ => some .plain
  | .weak, c => some (if c = '\\' then .weakEscape else if c = '"' then .plain else .weak)
  | .weakEscape, _ => some .weak
  | .strong, c => some (if c = '\\' then .strongEscape else if c = '\'' then .plain else .strong)
  | .strongEscape, _ => some .strong

def scan (cover : Cover) : List Char → List Char × Option Cover
  | [] => ([], some cover)
  | c :: rest =>
    match cover.step c with
    | none => ([], none)
    | some next =>
      let (kept, last) := next.scan rest
      (c :: kept, last)

end Cover

def physicalLines (text : String) : List (List Char) :=
  (text.toList.splitBy fun c _ => c ≠ '\n')

def withoutLineEnd (cs : List Char) : List Char :=
  match cs.reverse with
  | '\n' :: '\r' :: rest => rest.reverse
  | '\n' :: rest => rest.reverse
  | _ => cs

def startsComment (cs : List Char) : Bool :=
  (cs.dropWhile Text.isBlank).head? == some '#'

/-- Joins lines that belong together. Nothing stands for a line that the text leaves open. -/
def logicalLines (carried : List Char) (cover : Cover) :
    List (List Char) → List (Option (List Char))
  | [] => if cover = .plain then [] else [none]
  | line :: rest =>
    let whole := carried ++ line
    if startsComment whole then some [] :: logicalLines [] .plain rest
    else
      match cover.scan line with
      | (kept, none) => some (carried ++ kept) :: logicalLines [] .plain rest
      | (_, some .plain) => some (withoutLineEnd whole) :: logicalLines [] .plain rest
      | (_, some cover) => logicalLines whole cover rest

inductive Place where
  | plain
  | weak
  | strong
  | escape (quoted : Bool)
  | name (quoted braced : Bool) (chars : List Char)
  | ended

def Place.outer (quoted : Bool) : Place := if quoted then .weak else .plain

def escaped? : Char → Option Char
  | 'n' => some '\n'
  | c => if ['\\', '\'', '"', '$', ' '].contains c then some c else none

def readValue (value : List Char → List Char) : Place → List Char → Option (List Char)
  | .plain, [] | .ended, [] | .escape false, [] => some []
  | .name false false chars, [] => some (value chars)
  | .weak, [] | .strong, [] | .escape true, [] | .name .., [] => none
  | .ended, c :: rest =>
    if c = ' ' || c = '\t' then readValue value .ended rest
    else if c = '#' then some []
    else none
  | .escape quoted, c :: rest => do
    let c ← escaped? c
    return c :: (← readValue value (.outer quoted) rest)
  | .strong, c :: rest =>
    if c = '\'' then readValue value .plain rest
    else (readValue value .strong rest).map (c :: ·)
  | .name quoted braced chars, c :: rest =>
    if Text.isLetterOrNumber c then readValue value (.name quoted braced (chars ++ [c])) rest
    else if braced then
      if c = '\x7d' then (readValue value (.outer quoted) rest).map (value chars ++ ·)
      else readValue value (.name quoted true (chars ++ [c])) rest
    else if c = '\x7b' && chars.isEmpty then readValue value (.name quoted true []) rest
    else if c = '$' then (readValue value (.name quoted false []) rest).map (value chars ++ ·)
    else (readValue value (.outer quoted) rest).map (value chars ++ c :: ·)
  | .weak, c :: rest =>
    if c = '$' then readValue value (.name true false []) rest
    else if c = '"' then readValue value .plain rest
    else if c = '\\' then readValue value (.escape true) rest
    else (readValue value .weak rest).map (c :: ·)
  | .plain, c :: rest =>
    if c = '$' then readValue value (.name false false []) rest
    else if c = '\'' then readValue value .strong rest
    else if c = '"' then readValue value .weak rest
    else if c = '\\' then readValue value (.escape false) rest
    else if c = ' ' || c = '\t' then readValue value .ended rest
    else (readValue value .plain rest).map (c :: ·)

def skipBlanks (cs : List Char) : List Char := cs.dropWhile Text.isBlank

def readName (cs : List Char) : Option (String × List Char) :=
  match cs with
  | c :: _ =>
    if c.isAlpha || c = '_' then
      let inName (c : Char) : Bool := c.isAlphanum || c = '_' || c = '.'
      some (String.ofList (cs.takeWhile inName), skipBlanks (cs.dropWhile inName))
    else none
  | [] => none

def readTarget (cs : List Char) : Option (String × List Char) := do
  match ← readName cs with
  | (name, '=' :: rest) => return (name, skipBlanks rest)
  | ("export", rest) =>
    match ← readName rest with
    | (name, '=' :: rest) => return (name, skipBlanks rest)
    | _ => none
  | _ => none

def assignment? (value : String → String) (line : List Char) : Option (Option (String × String)) :=
  match skipBlanks (skipBlanks line.reverse).reverse with
  | [] | '#' :: _ => some none
  | cs => do
    let (name, rest) ← readTarget cs
    match rest with
    | [] | '#' :: _ => return some (name, "")
    | rest =>
      let text ← readValue (fun chars => (value (String.ofList chars)).toList) .plain rest
      return some (name, String.ofList text)

def addFrom (value? : String → Option String) (added : List (String × String)) :
    List (Option (List Char)) → List (String × String)
  | [] | none :: _ => added
  | some line :: rest =>
    let known (name : String) : Option String := (value? name).or (added.lookup name)
    match assignment? (fun name => (known name).getD "") line with
    | none => added
    | some none => addFrom value? added rest
    | some (some (name, text)) =>
      addFrom value? (if (known name).isSome then added else added ++ [(name, text)]) rest

def extend (value? : String → Option String) (text : String) : String → Option String :=
  let text := match text.toList with
    | '\uFEFF' :: rest => String.ofList rest
    | _ => text
  let added := addFrom value? [] (logicalLines [] .plain (physicalLines text))
  fun name => (value? name).or (added.lookup name)

end ObjectQuery.EnvFile
