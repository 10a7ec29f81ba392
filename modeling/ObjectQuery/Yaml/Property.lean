import ObjectQuery.Yaml.Scalar

/-!
What may be said about a value in front of it, and about a document before it starts: anchors, which
name a value for later, tags, and the directives that shorten tags.
-/

namespace ObjectQuery.Yaml

def anchor? (c : Cursor) : Option (String × Cursor) :=
  let (name, c) := c.step.span isWordChar
  let ends := endsToken c.rest
    || c.rest.head?.any ['?', ':', ',', ']', '\x7d', '%', '@', '\x60'].contains
  if name.isEmpty || !ends then none else some (String.ofList name, c)

structure Tag where
  handle : String
  suffix : String
deriving DecidableEq, Repr

def percentByte? : List Char → Option Nat
  | '%' :: a :: b :: _ => do return 16 * (← hexDigit? a) + (← hexDigit? b)
  | _ => none

def leadingByte? (byte : Nat) : Option (Nat × Nat) :=
  if byte < 0x80 then some (1, byte)
  else if byte < 0xC0 then none
  else if byte < 0xE0 then some (2, byte % 0x20)
  else if byte < 0xF0 then some (3, byte % 0x10)
  else if byte < 0xF8 then some (4, byte % 0x08)
  else none

def trailingBytes? (code : Nat) (c : Cursor) : Nat → Option (Nat × Cursor)
  | 0 => some (code, c)
  | n + 1 => do
    let byte ← percentByte? c.rest
    if byte / 0x40 = 2 then trailingBytes? (code * 0x40 + byte % 0x40) (c.drop 3) n else none

def percentChar? (c : Cursor) : Option (Char × Cursor) := do
  let (size, bits) ← leadingByte? (← percentByte? c.rest)
  let (code, c) ← trailingBytes? bits (c.drop 3) (size - 1)
  some (Char.ofNat code, c)

def isTagChar (bracketed : Bool) (c : Char) : Bool :=
  isWordChar c || [';', '/', '?', ':', '@', '&', '=', '+', '$', '.', '%', '!', '~', '*', '\'', '(',
    ')'].contains c || (bracketed && [',', '[', ']'].contains c)

def tagChars? (bracketed : Bool) (fuel : Nat) (c : Cursor) : Option (List Char × Cursor) :=
  match fuel, c.rest with
  | 0, _ => none
  | _ + 1, [] => some ([], c)
  | fuel + 1, x :: _ =>
    if !isTagChar bracketed x then some ([], c)
    else do
      let (x, c) ← if x = '%' then percentChar? c else some (x, c.step)
      let (more, c) ← tagChars? bracketed fuel c
      some (x :: more, c)

def tagRest? (bracketed : Bool) (c : Cursor) : Option (List Char × Cursor) := do
  let (cs, c) ← tagChars? bracketed (c.rest.length + 1) c
  if cs.isEmpty then none else some (cs, c)

def handle (c : Cursor) : List Char × Bool × Cursor :=
  let (word, c) := c.step.span isWordChar
  if c.starts '!' then ('!' :: word ++ ['!'], true, c.step) else ('!' :: word, false, c)

def tagBody? (c : Cursor) : Option (Tag × Cursor) :=
  if c.step.starts '<' then do
    let (cs, c) ← tagRest? true (c.drop 2)
    if c.starts '>' then some (⟨"", String.ofList cs⟩, c.step) else none
  else
    match handle c with
    | (handle, true, c) => do
      let (cs, c) ← tagRest? false c
      some (⟨String.ofList handle, String.ofList cs⟩, c)
    | (word, false, c) => do
      let (cs, c) ← tagChars? false (c.rest.length + 1) c
      let suffix := word.tail ++ cs
      some (if suffix.isEmpty then ⟨"", "!"⟩ else ⟨"!", String.ofList suffix⟩, c)

def tag? (flow : Bool) (c : Cursor) : Option (Tag × Cursor) := do
  let (tag, c) ← tagBody? c
  if endsToken c.rest || (flow && c.starts ',') then some (tag, c) else none

def commonHandles : List (String × String) := [("!", "!"), ("!!", "tag:yaml.org,2002:")]

def Tag.resolve? (handles : List (String × String)) (tag : Tag) : Option String :=
  if tag.handle = "" then some tag.suffix
  else (handles.lookup tag.handle).map (· ++ tag.suffix)

inductive Directive where
  | version (major minor : Nat)
  | tag (handle front : String)
deriving DecidableEq, Repr

def versionNumber? (c : Cursor) : Option (Nat × Cursor) :=
  let (digits, c) := c.span Char.isDigit
  if digits.isEmpty || 9 < digits.length then none
  else some (digits.foldl (fun n d => 10 * n + (d.toNat - 48)) 0, c)

def version? (c : Cursor) : Option (Directive × Cursor) := do
  let (major, c) ← versionNumber? (c.skipWhile isBlank)
  guard (c.starts '.')
  let (minor, c) ← versionNumber? c.step
  some (.version major minor, c)

def handleDirective? (c : Cursor) : Option (Directive × Cursor) := do
  let c := c.skipWhile isBlank
  guard (c.starts '!')
  let (name, closed, c) := handle c
  guard (closed || name = ['!'])
  guard (c.rest.head?.any isBlank)
  let (front, c) ← tagRest? true (c.skipWhile isBlank)
  guard (endsToken c.rest)
  some (.tag (String.ofList name) (String.ofList front), c)

def directive? (c : Cursor) : Option (Directive × Cursor) := do
  let (name, c) := c.step.span isWordChar
  guard (endsToken c.rest)
  let (directive, c) ← match String.ofList name with
    | "YAML" => version? c
    | "TAG" => handleDirective? c
    | _ => none
  some (directive, ← c.skipLine?)

end ObjectQuery.Yaml
