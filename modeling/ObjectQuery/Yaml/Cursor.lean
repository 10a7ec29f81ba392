/-!
Positions in a YAML text. The text is taken as a list of characters in which every line ends alike:
a line feed stands for each way to end one, only the two Unicode separators are kept. A cursor knows
its line and column, because the indentation of a token decides what it belongs to.
-/

namespace ObjectQuery.Yaml

def isBlank (c : Char) : Bool := c = ' ' || c = '\t'

def isBreak (c : Char) : Bool := c = '\n' || c = '\u2028' || c = '\u2029'

def isGap (c : Char) : Bool := isBlank c || isBreak c

def isFlowMark (c : Char) : Bool := [',', '[', ']', '\x7b', '\x7d'].contains c

def isWordChar (c : Char) : Bool := c.isAlphanum || c = '_' || c = '-'

def endsToken (cs : List Char) : Bool := cs.head?.all isGap

def byteOrderMark : Char := '\uFEFF'

def isAllowed (c : Char) : Bool :=
  let n := c.toNat
  n = 0x9 || n = 0xA || n = 0xD || (0x20 ≤ n && n ≤ 0x7E) || n = 0x85
    || (0xA0 ≤ n && n ≤ 0xFFFD) || 0x10000 ≤ n

def plainBreaks : List Char → List Char
  | '\r' :: '\n' :: rest => '\n' :: plainBreaks rest
  | '\r' :: rest => '\n' :: plainBreaks rest
  | c :: rest => (if c = '\u0085' then '\n' else c) :: plainBreaks rest
  | [] => []

/-- The characters of a text, refused if one of them is not allowed. A mark of byte order in front
does not count. -/
def source? (text : String) : Option (List Char) :=
  let cs := match text.toList with
    | c :: rest => if c = byteOrderMark then rest else c :: rest
    | [] => []
  if cs.all isAllowed then some (plainBreaks cs) else none

structure Cursor where
  rest : List Char
  line : Nat
  column : Nat
deriving DecidableEq, Repr

namespace Cursor

def start (cs : List Char) : Cursor := ⟨cs, 0, 0⟩

def step (c : Cursor) : Cursor :=
  match c.rest with
  | [] => c
  | x :: rest => if isBreak x then ⟨rest, c.line + 1, 0⟩ else ⟨rest, c.line, c.column + 1⟩

def drop (c : Cursor) : Nat → Cursor
  | 0 => c
  | n + 1 => c.step.drop n

def span (c : Cursor) (test : Char → Bool) : List Char × Cursor :=
  let run := c.rest.takeWhile test
  (run, c.drop run.length)

def skipWhile (c : Cursor) (test : Char → Bool) : Cursor := (c.span test).2

def starts (c : Cursor) (x : Char) : Bool := c.rest.head? = some x

def atBreak (c : Cursor) : Bool := c.rest.head?.all isBreak

def atMark (c : Cursor) (mark : Char) : Bool :=
  c.column = 0 && c.rest.take 3 = List.replicate 3 mark && endsToken (c.rest.drop 3)

def atDocumentMark (c : Cursor) : Bool := c.atMark '-' || c.atMark '.'

def skipComment (c : Cursor) : Cursor :=
  if c.starts '#' then c.skipWhile fun x => !isBreak x else c

def skipLine? (c : Cursor) : Option Cursor :=
  let c := (c.skipWhile isBlank).skipComment
  if c.atBreak then some c.step else none

@[simp] theorem rest_step (c : Cursor) : c.step.rest = c.rest.tail := by
  cases h : c.rest <;> simp [step, h]
  split <;> rfl

end Cursor

end ObjectQuery.Yaml
