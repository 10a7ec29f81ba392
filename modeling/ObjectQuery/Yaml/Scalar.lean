import ObjectQuery.Yaml.Cursor

/-!
Scalars: plain ones, quoted ones and blocks of lines. A scalar may go over several lines. Where it
is folded, a single line end reads as a blank, and of several line ends the first is dropped.
-/

namespace ObjectQuery.Yaml

inductive Style where
  | plain
  | quoted
  | literal
  | folded
deriving DecidableEq, Repr

def foldedGap (gap : List Char) : List Char :=
  match gap.filter isBreak with
  | [] => gap
  | ['\n'] => [' ']
  | '\n' :: more => more
  | breaks => breaks

def endsWord (flow : Bool) : List Char → Bool
  | [] => true
  | c :: rest => isGap c || (c = ':' && endsToken rest) || (flow && isFlowMark c)

def word? (flow : Bool) : List Char → Option (List Char)
  | [] => some []
  | c :: rest =>
    if endsWord flow (c :: rest) then some []
    else if flow && c = ':' && rest.head?.any (fun d => isFlowMark d || d = '?') then none
    else (word? flow rest).map (c :: ·)

/-- Whether a tab stands in front of the column `floor`, on a line that starts inside the gap. -/
def hasEarlyTab (floor : Nat) (gap : List Char) : Bool :=
  go 0 (gap.dropWhile isBlank)
where
  go (column : Nat) : List Char → Bool
    | [] => false
    | c :: rest =>
      if isBreak c then go 0 rest else (c = '\t' && column < floor) || go (column + 1) rest

def Cursor.goesOn (c : Cursor) (flow : Bool) (floor : Nat) : Bool :=
  !c.atDocumentMark && !c.starts '#' && (flow || floor ≤ c.column) && !endsWord flow c.rest

def plain? (flow : Bool) (floor : Nat) (fuel : Nat) (c : Cursor) :
    Option (List Char × Bool × Cursor) :=
  match fuel with
  | 0 => none
  | fuel + 1 => do
    let word ← word? flow c.rest
    let (gap, next) := (c.drop word.length).span isGap
    if hasEarlyTab floor gap then none
    else if next.goesOn flow floor then
      let (more, ending) ← plain? flow floor fuel next
      some (word ++ foldedGap gap ++ more, ending)
    else some (word, gap.any isBreak, next)

structure Chunk where
  text : List Char
  size : Nat

def Chunk.empty : Chunk := ⟨[], 0⟩

def Chunk.cons (c : Char) (size : Nat) (chunk : Chunk) : Chunk :=
  ⟨c :: chunk.text, size + chunk.size⟩

def singleChunk : List Char → Chunk
  | '\'' :: '\'' :: rest => (singleChunk rest).cons '\'' 2
  | c :: rest => if c = '\'' || isGap c then .empty else (singleChunk rest).cons c 1
  | [] => .empty

def hexDigit? (c : Char) : Option Nat :=
  if c.isDigit then some (c.toNat - 48)
  else if 'a' ≤ c && c ≤ 'f' then some (c.toNat - 87)
  else if 'A' ≤ c && c ≤ 'F' then some (c.toNat - 55)
  else none

def hexChar? (digits : List Char) : Option Char := do
  let code := (← digits.mapM hexDigit?).foldl (fun n d => 16 * n + d) 0
  if code.isValidChar then some (Char.ofNat code) else none

def escaped? (c : Char) : Option Char :=
  ([('0', 0), ('a', 7), ('b', 8), ('t', 9), ('\t', 9), ('n', 10), ('v', 11), ('f', 12), ('r', 13),
    ('e', 27), (' ', 32), ('"', 34), ('/', 47), ('\\', 92), ('N', 0x85), ('_', 0xA0), ('L', 0x2028),
    ('P', 0x2029)].lookup c).map Char.ofNat

def doubleChunk? : List Char → Option Chunk
  | '\\' :: 'x' :: a :: b :: rest => do
    return (← doubleChunk? rest).cons (← hexChar? [a, b]) 4
  | '\\' :: 'u' :: a :: b :: c :: d :: rest => do
    return (← doubleChunk? rest).cons (← hexChar? [a, b, c, d]) 6
  | '\\' :: 'U' :: a :: b :: c :: d :: e :: f :: g :: h :: rest => do
    return (← doubleChunk? rest).cons (← hexChar? [a, b, c, d, e, f, g, h]) 10
  | '\\' :: c :: rest =>
    if isBreak c then some .empty
    else do return (← doubleChunk? rest).cons (← escaped? c) 2
  | c :: rest =>
    if c = '"' || isGap c then some .empty
    else if c = '\\' then none
    else do return (← doubleChunk? rest).cons c 1
  | [] => some .empty

def quoted? (quote : Char) (fuel : Nat) (c : Cursor) : Option (List Char × Cursor) :=
  match fuel with
  | 0 => none
  | fuel + 1 => do
    guard !c.atDocumentMark
    let chunk ← if quote = '"' then doubleChunk? c.rest else some (singleChunk c.rest)
    let c := c.drop chunk.size
    match c.rest with
    | [] => none
    | x :: _ =>
      if x = quote then some (chunk.text, c.step)
      else if x = '\\' then
        let (gap, next) := (c.drop 2).span isGap
        let (more, c) ← quoted? quote fuel next
        some (chunk.text ++ gap.filter isBreak ++ more, c)
      else
        let (gap, next) := c.span isGap
        let (more, c) ← quoted? quote fuel next
        some (chunk.text ++ foldedGap gap ++ more, c)

inductive Chomp where
  | clip
  | strip
  | keep
deriving DecidableEq, Repr

def chomp? (c : Cursor) : Option (Chomp × Cursor) :=
  if c.starts '+' then some (.keep, c.step)
  else if c.starts '-' then some (.strip, c.step)
  else none

def increment? (c : Cursor) : Option (Nat × Cursor) :=
  match c.rest with
  | [] => some (0, c)
  | x :: _ =>
    if x = '0' then none
    else if x.isDigit then some (x.toNat - 48, c.step)
    else some (0, c)

def blockHeader? (c : Cursor) : Option (Chomp × Nat × Cursor) := do
  let (chomp, increment, c) ← match chomp? c with
    | some (chomp, c) => do
      let (increment, c) ← increment? c
      pure (chomp, increment, c)
    | none => do
      let (increment, c) ← increment? c
      if increment = 0 then pure (.clip, 0, c)
      else
        let (chomp, c) := (chomp? c).getD (.clip, c)
        pure (chomp, increment, c)
  return (chomp, increment, ← c.skipLine?)

/-- The line ends before the next line with content, the greatest column that was reached, and the
cursor on that line. Blanks count as indentation up to the column `indent`, and all do when it is
zero; a tab is no indentation. -/
def blockGap? (indent : Nat) (fuel : Nat) (c : Cursor) : Option (List Char × Nat × Cursor) :=
  match fuel with
  | 0 => none
  | fuel + 1 =>
    let blanks := (c.rest.takeWhile (· = ' ')).length
    let c := c.drop (if indent = 0 then blanks else min blanks (indent - c.column))
    match c.rest with
    | [] => some ([], c.column, c)
    | x :: _ =>
      if x = '\t' && (indent = 0 || c.column < indent) then none
      else if isBreak x then do
        let (breaks, widest, next) ← blockGap? indent fuel c.step
        some (x :: breaks, max c.column widest, next)
      else some ([], c.column, c)

/-- What stands between two lines of a block: the end of the first and the empty lines after it. In
a folded block a line feed is dropped, or a blank takes its place, unless one of the lines starts
with a blank. -/
def blockJoint (style : Style) (blanks : Bool) (ending empty : List Char) : List Char :=
  if style = .folded && ending = ['\n'] && !blanks then
    if empty.isEmpty then [' '] else empty
  else ending ++ empty

def blockLines? (style : Style) (indent fuel : Nat) (blank : Bool) (ending empty : List Char)
    (c : Cursor) : Option (List Char × List Char × List Char × Cursor) :=
  match fuel with
  | 0 => none
  | fuel + 1 =>
    if c.column ≠ indent || c.rest.isEmpty then some ([], ending, empty, c)
    else do
      let startsBlank := c.rest.head?.any isBlank
      let joint := blockJoint style (blank || startsBlank) ending empty
      let (line, c) := c.span fun x => !isBreak x
      let (breaks, _, next) ← blockGap? indent (c.rest.length + 1) c.step
      let (more, tail) ← blockLines? style indent fuel startsBlank (c.rest.take 1) breaks next
      some (joint ++ line ++ more, tail)

def block? (style : Style) (floor : Nat) (c : Cursor) : Option (List Char × Cursor) := do
  let (chomp, increment, c) ← blockHeader? c
  let fuel := c.rest.length + 1
  let stated := if increment = 0 then 0 else floor - 1 + increment
  let (breaks, widest, c) ← blockGap? stated fuel c
  let indent := if increment = 0 then max (max widest floor) 1 else stated
  let (text, ending, empty, c) ← blockLines? style indent fuel false [] breaks c
  let tail := match chomp with
    | .strip => []
    | .clip => ending
    | .keep => ending ++ empty
  some (text ++ tail, c)

end ObjectQuery.Yaml
