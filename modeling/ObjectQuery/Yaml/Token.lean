import ObjectQuery.Yaml.Property

/-!
Tokens. Blocks have no marks of their own in a text: a token in a column further right than the
block around it opens a block, one further left closes it. Nor is a key marked: what may turn out to
be one is kept in mind as a candidate, and a colon behind it puts the mark in front of it.
-/

namespace ObjectQuery.Yaml

inductive Token where
  | directive (d : Directive)
  | documentStart
  | documentEnd
  | blockList
  | blockRecord
  | blockEnd
  | flowList
  | flowListEnd
  | flowRecord
  | flowRecordEnd
  | item
  | entry
  | key
  | value
  | reference (name : String)
  | anchor (name : String)
  | tag (t : Tag)
  | scalar (text : String) (style : Style)
deriving DecidableEq, Repr

structure Candidate where
  position : Nat
  line : Nat
  column : Nat
  required : Bool
deriving DecidableEq, Repr

/-- A key stands on one line and is not longer than this. -/
def Candidate.longest : Nat := 1024

def Candidate.isStale (k : Candidate) (c : Cursor) : Bool :=
  k.line < c.line || k.column + longest < c.column

structure Scan where
  cursor : Cursor
  tokens : Array Token
  blocks : List Nat
  candidate : Option Candidate
  outer : List (Option Candidate)
  keyAllowed : Bool

namespace Scan

def start (cs : List Char) : Scan := ⟨.start cs, #[], [], none, [], true⟩

def inFlow (s : Scan) : Bool := !s.outer.isEmpty

def floor (s : Scan) : Nat :=
  match s.blocks with
  | [] => 0
  | column :: _ => column + 1

def emit (s : Scan) (t : Token) : Scan := { s with tokens := s.tokens.push t }

def mark (s : Scan) (t : Token) (size : Nat) : Scan :=
  { s.emit t with cursor := s.cursor.drop size }

def openBlock (s : Scan) (t : Token) (column position : Nat) : Scan :=
  if s.inFlow || column < s.floor then s
  else { s with blocks := column :: s.blocks, tokens := s.tokens.insertIdxIfInBounds position t }

def closeBlocks (s : Scan) (stays : Nat → Bool) : Scan :=
  if s.inFlow then s
  else
    let closed := s.blocks.takeWhile fun column => !stays column
    { s with
      blocks := s.blocks.drop closed.length
      tokens := s.tokens ++ Array.replicate closed.length .blockEnd }

def dropCandidate? (s : Scan) : Option Scan :=
  if s.candidate.any (·.required) then none else some { s with candidate := none }

def saveCandidate? (s : Scan) : Option Scan :=
  if !s.keyAllowed then some s
  else do
    let s ← s.dropCandidate?
    let column := s.cursor.column
    some { s with
      candidate := some {
        position := s.tokens.size
        line := s.cursor.line
        column
        required := !s.inFlow && s.floor = column + 1 } }

def dropStale? (s : Scan) : Option Scan :=
  let isStale (k : Option Candidate) : Bool := k.any (·.isStale s.cursor)
  let fresh (k : Option Candidate) : Option Candidate := if isStale k then none else k
  if (s.candidate :: s.outer).any fun k => isStale k && k.any (·.required) then none
  else some { s with candidate := fresh s.candidate, outer := s.outer.map fresh }

def betweenDocuments? (s : Scan) : Option Scan := do
  let s ← (s.closeBlocks fun _ => false).dropCandidate?
  some { s with keyAllowed := false }

def openFlow? (s : Scan) (t : Token) : Option Scan := do
  let s ← s.saveCandidate?
  some { s.mark t 1 with
    outer := s.candidate :: s.outer
    candidate := none
    keyAllowed := true }

def closeFlow? (s : Scan) (t : Token) : Option Scan := do
  let s ← s.dropCandidate?
  some { s.mark t 1 with
    candidate := s.outer.head?.join
    outer := s.outer.tail
    keyAllowed := false }

def entry? (s : Scan) : Option Scan := do
  let s ← s.dropCandidate?
  some { s.mark .entry 1 with keyAllowed := true }

def item? (s : Scan) : Option Scan := do
  guard (s.inFlow || s.keyAllowed)
  let s ← (s.openBlock .blockList s.cursor.column s.tokens.size).dropCandidate?
  some { s.mark .item 1 with keyAllowed := true }

def key? (s : Scan) : Option Scan := do
  guard (s.inFlow || s.keyAllowed)
  let s ← (s.openBlock .blockRecord s.cursor.column s.tokens.size).dropCandidate?
  some { s.mark .key 1 with keyAllowed := !s.inFlow }

def value? (s : Scan) : Option Scan :=
  match s.candidate with
  | some k =>
    let s := { s with
      candidate := none
      tokens := s.tokens.insertIdxIfInBounds k.position .key
      keyAllowed := false }
    some ((s.openBlock .blockRecord k.column k.position).mark .value 1)
  | none => do
    guard (s.inFlow || s.keyAllowed)
    let s := s.openBlock .blockRecord s.cursor.column s.tokens.size
    some { s.mark .value 1 with keyAllowed := !s.inFlow }

def keyLike? (s : Scan) (scan : Cursor → Option (Token × Cursor)) : Option Scan := do
  let s ← s.saveCandidate?
  let (t, cursor) ← scan s.cursor
  some { s.emit t with cursor, keyAllowed := false }

def blockScalar? (s : Scan) (style : Style) : Option Scan := do
  let s ← s.dropCandidate?
  let (text, cursor) ← block? style s.floor s.cursor.step
  some { s.emit (.scalar (String.ofList text) style) with cursor, keyAllowed := true }

def quotedScalar? (s : Scan) (fuel : Nat) (quote : Char) : Option Scan :=
  s.keyLike? fun c => do
    let (text, c) ← quoted? quote fuel c.step
    some (.scalar (String.ofList text) .quoted, c)

def plainScalar? (s : Scan) (fuel : Nat) : Option Scan := do
  let s ← s.saveCandidate?
  let (text, broken, cursor) ← plain? s.inFlow s.floor fuel s.cursor
  some { s.emit (.scalar (String.ofList text) .plain) with cursor, keyAllowed := broken }

def reserved : List Char := ['#', '&', '*', '!', '|', '>', '\'', '"', '%', '@', '\x60']

def startsPlain (flow : Bool) : List Char → Bool
  | [] => false
  | c :: rest =>
    if c = '-' then !rest.head?.any isBlank
    else if c = '?' || c = ':' then !flow && !endsToken rest
    else !isGap c && !isFlowMark c && !reserved.contains c

/-- Past blanks, comments and line ends. Behind a line end in a block a key may start, and where one
may start a tab is no blank. -/
def skipGap (fuel : Nat) (s : Scan) : Scan :=
  match fuel with
  | 0 => s
  | fuel + 1 =>
    let c := s.cursor
    let c := if c.column = 0 && c.starts byteOrderMark then c.step else c
    let c := (c.skipWhile fun x => x = ' ' || (x = '\t' && (s.inFlow || !s.keyAllowed))).skipComment
    if c.rest.head?.any isBreak then
      skipGap fuel { s with cursor := c.step, keyAllowed := s.keyAllowed || !s.inFlow }
    else { s with cursor := c }

def token? (fuel : Nat) (s : Scan) : Option Scan :=
  let c := s.cursor
  match c.rest with
  | [] => s.betweenDocuments?
  | x :: rest =>
    if c.column = 0 && x = '%' then do
      let s ← s.betweenDocuments?
      let (d, cursor) ← directive? c
      some { s.emit (.directive d) with cursor }
    else if c.atMark '-' then do return (← s.betweenDocuments?).mark .documentStart 3
    else if c.atMark '.' then do return (← s.betweenDocuments?).mark .documentEnd 3
    else if x = '[' then s.openFlow? .flowList
    else if x = '\x7b' then s.openFlow? .flowRecord
    else if x = ']' then s.closeFlow? .flowListEnd
    else if x = '\x7d' then s.closeFlow? .flowRecordEnd
    else if x = ',' then s.entry?
    else if x = '-' && endsToken rest then s.item?
    else if x = '?' && (s.inFlow || endsToken rest) then s.key?
    else if x = ':' && (s.inFlow || endsToken rest) then s.value?
    else if x = '*' then s.keyLike? fun c => do
      let (name, c) ← anchor? c
      some (.reference name, c)
    else if x = '&' then s.keyLike? fun c => do
      let (name, c) ← anchor? c
      some (.anchor name, c)
    else if x = '!' then s.keyLike? fun c => do
      let (t, c) ← tag? s.inFlow c
      some (.tag t, c)
    else if x = '|' && !s.inFlow then s.blockScalar? .literal
    else if x = '>' && !s.inFlow then s.blockScalar? .folded
    else if x = '\'' || x = '"' then s.quotedScalar? fuel x
    else if startsPlain s.inFlow c.rest then s.plainScalar? fuel
    else none

def tokens? (fuel : Nat) (s : Scan) : Option (List Token) :=
  match fuel with
  | 0 => none
  | fuel + 1 => do
    let s ← (s.skipGap (fuel + 1)).dropStale?
    let done := s.cursor.rest.isEmpty
    let s ← (s.closeBlocks (· ≤ s.cursor.column)).token? (fuel + 1)
    if done then some s.tokens.toList else tokens? fuel s

end Scan

def Token.scan? (cs : List Char) : Option (List Token) := (Scan.start cs).tokens? (cs.length + 1)

end ObjectQuery.Yaml
