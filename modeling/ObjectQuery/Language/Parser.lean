import ObjectQuery.Json
import ObjectQuery.Language.Syntax
import ObjectQuery.Numeral
import ObjectQuery.Text.Case

/-!
Reading queries. A parser gives a value with the rest of the text, or a fault. After a recoverable
fault another alternative is tried; once a construct has been recognised its faults are final.

A term is nested less deep than its text is long, and every round of a loop takes at least one
character, so the length of the text bounds both. What reads a term is given the parser of the terms
inside it.
-/

namespace ObjectQuery.Language

structure Fault where
  rest : List Char
  notes : List String

inductive Reply (α : Type) where
  | ok (a : α) (rest : List Char)
  | recoverable (f : Fault)
  | final (f : Fault)

abbrev Parser (α : Type) := List Char → Reply α

namespace Parser

variable {α β γ : Type}

instance : Monad Parser where
  pure a := fun cs => .ok a cs
  bind p f := fun cs =>
    match p cs with
    | .ok a rest => f a rest
    | .recoverable e => .recoverable e
    | .final e => .final e

def unexpected : Parser α := fun cs => .recoverable ⟨cs, ["unexpected input"]⟩

/-- The second parser is tried where the first one failed; its fault counts. -/
def orElse (p q : Parser α) : Parser α := fun cs =>
  match p cs with
  | .recoverable _ => q cs
  | reply => reply

def commit (p : Parser α) : Parser α := fun cs =>
  match p cs with
  | .recoverable e => .final e
  | reply => reply

def inside (note : String) (p : Parser α) : Parser α := fun cs =>
  match p cs with
  | .ok a rest => .ok a rest
  | .recoverable e => .recoverable { e with notes := note :: e.notes }
  | .final e => .final { e with notes := note :: e.notes }

def optional (p : Parser α) : Parser (Option α) := fun cs =>
  match p cs with
  | .ok a rest => .ok (some a) rest
  | .recoverable _ => .ok none cs
  | .final e => .final e

def satisfy (test : Char → Bool) : Parser Char := fun cs =>
  match cs with
  | c :: rest => if test c then .ok c rest else unexpected cs
  | [] => unexpected cs

def char (c : Char) : Parser Unit := do
  let _ ← satisfy (· == c)

def token (text : List Char) : Parser Unit := fun cs =>
  if text.isPrefixOf cs then .ok () (cs.drop text.length) else unexpected cs

def notBefore (test : Char → Bool) : Parser Unit := fun cs =>
  match cs with
  | c :: _ => if test c then unexpected cs else .ok () cs
  | [] => .ok () cs

def blanks : Parser Unit := fun cs => .ok () (Json.skipBlanks cs)

def spaced (p : Parser α) : Parser α := do
  blanks
  let a ← p
  blanks
  return a

/-- More items, each after a separator; a separator without an item after it is left alone. -/
def moreItems (item : Parser α) (separator : Parser Unit) : Nat → List α → Parser (List α)
  | 0, before => fun cs => .ok before.reverse cs
  | fuel + 1, before => fun cs =>
    match separator cs with
    | .recoverable _ => .ok before.reverse cs
    | .final e => .final e
    | .ok _ rest =>
      match item rest with
      | .recoverable _ => .ok before.reverse cs
      | .final e => .final e
      | .ok a rest => moreItems item separator fuel (a :: before) rest

def items (item : Parser α) (separator : Parser Unit) : Parser (List α) := fun cs =>
  match item cs with
  | .recoverable _ => .ok [] cs
  | .final e => .final e
  | .ok a rest => moreItems item separator cs.length [a] rest

def commaItems (item : Parser α) : Parser (List α) := items item (spaced (char ','))

end Parser

open ObjectQuery.Language.Parser

def isNameChar (c : Char) : Bool := Text.isLetterOrNumber c || c == '_'

def name : Parser String := do
  let first ← satisfy fun c => Text.isLetter c || c == '_'
  fun cs => .ok (String.ofList (first :: cs.takeWhile isNameChar)) (cs.dropWhile isNameChar)

def keyword (word : String) : Parser Unit := do
  token word.toList
  notBefore isNameChar

def number : Parser Literal := fun cs =>
  let whole := cs.takeWhile Char.isDigit
  let rest := cs.dropWhile Char.isDigit
  if whole.isEmpty then unexpected cs
  else
    let integer : Reply Literal :=
      let n := Numeral.digitsValue whole
      if n < 0x8000000000000000 then .ok (.int n) rest else .final ⟨cs, ["number out of range"]⟩
    match rest with
    | '.' :: after =>
      let fraction := after.takeWhile Char.isDigit
      if fraction.isEmpty then integer
      else
        let mantissa := Numeral.digitsValue (whole ++ fraction)
        let x := Numeral.nearest mantissa (-(fraction.length : Int))
        .ok (.float x) (after.dropWhile Char.isDigit)
    | _ => integer

def unescaped : Char → Char
  | 'n' => '\n'
  | 't' => '\t'
  | c => c

def quotedBody (quote : Char) (before : List Char) : List Char → Option (String × List Char)
  | [] => none
  | c :: rest =>
    if c = quote then some (String.ofList before.reverse, rest)
    else if c = '\\' then
      match rest with
      | [] => none
      | e :: rest => quotedBody quote (unescaped e :: before) rest
    else quotedBody quote (c :: before) rest

def quoted : Parser String := fun cs =>
  match cs with
  | c :: rest =>
    if c == '"' || c == '\'' then
      match quotedBody c [] rest with
      | some (s, rest) => .ok s rest
      | none => .final ⟨cs, ["unterminated string"]⟩
    else unexpected cs
  | [] => unexpected cs

def operator (ops : List Op) : Parser Op :=
  ops.foldr (fun op otherwise => orElse (do token op.symbol.toList; return op) otherwise) unexpected

def levels : List (List Op) :=
  [[.coalesce], [.or], [.and], [.equal, .notEqual], [.lessEqual, .greaterEqual, .less, .greater],
    [.plus, .minus], [.times, .divide, .modulo]]

def moreOperands (operand : Parser Term) (ops : List Op) : Nat → Term → Parser Term
  | 0, left => fun cs => .ok left cs
  | fuel + 1, left => fun cs =>
    match spaced (operator ops) cs with
    | .recoverable _ => .ok left cs
    | .final e => .final e
    | .ok op rest =>
      match commit operand rest with
      | .ok right rest => moreOperands operand ops fuel (.apply op [left, right]) rest
      | .recoverable e => .recoverable e
      | .final e => .final e

def level (operand : Parser Term) (ops : List Op) : Parser Term := fun cs =>
  match operand cs with
  | .ok left rest => moreOperands operand ops rest.length left rest
  | reply => reply

def binary (operand : Parser Term) : Parser Term :=
  levels.foldr (fun ops tighter => level tighter ops) operand

def unary (operand : Parser Term) : Nat → Parser Term
  | 0 => operand
  | fuel + 1 =>
    orElse (do
      spaced (do char '!'; notBefore (· == '='))
      return .apply .not [← unary operand fuel])
    (orElse (do
      spaced (char '-')
      return .apply .negate [← unary operand fuel])
    operand)

section Nested

variable (term : Parser Term)

def arguments : Parser (List Term) := do
  spaced (char '(')
  let args ← inside "arguments" (commaItems term)
  commit (spaced (char ')'))
  return args

def moreMembers : Nat → Term → Parser Term
  | 0, target => fun cs => .ok target cs
  | fuel + 1, target => fun cs =>
    match (do spaced (char '.'); commit (spaced name) : Parser String) cs with
    | .recoverable _ => .ok target cs
    | .final e => .final e
    | .ok member rest =>
      match optional (arguments term) rest with
      | .ok (some args) rest => moreMembers fuel (.method target member args) rest
      | .ok none rest => moreMembers fuel (.get target member) rest
      | .recoverable e => .recoverable e
      | .final e => .final e

def named : Parser Term := do
  match ← name with
  | "null" => return .literal .null
  | "true" => return .literal (.bool true)
  | "false" => return .literal (.bool false)
  | name =>
    match ← optional (arguments term) with
    | some args => return .function name args
    | none => return .variable name

def field : Parser (Option String × Term) :=
  orElse (do
    let name ← spaced name
    spaced (do char '='; notBefore fun c => c == '=' || c == '>')
    return (some name, ← term))
  (do return (none, ← term))

def construct : Parser Term := do
  keyword "new"
  let typeName ← optional (spaced name)
  let fields ← inside "new initialiser" (commit (do
    spaced (char '\x7b')
    let fields ← commaItems (field term)
    spaced (char '\x7d')
    return fields))
  return .construct typeName fields

def primary : Parser Term := spaced
  (orElse (construct term)
  (orElse (do return .literal (← number))
  (orElse (do return .literal (.text (← quoted)))
  (orElse (do
    char '['
    let items ← commaItems term
    commit (spaced (char ']'))
    return .list items)
  (orElse (do
    char '('
    let inner ← term
    commit (spaced (char ')'))
    return inner)
  (named term))))))

def chained : Parser Term := fun cs =>
  match primary term cs with
  | .ok t rest => moreMembers term rest.length t rest
  | reply => reply

def conditional : Parser Term := do
  let test ← fun cs => binary (unary (chained term) cs.length) cs
  let branches ← optional (do
    spaced (do char '?'; notBefore (· == '?'))
    commit (do
      let onTrue ← term
      spaced (char ':')
      let onFalse ← term
      return (onTrue, onFalse)))
  match branches with
  | some (onTrue, onFalse) => return .cond test onTrue onFalse
  | none => return test

def lambda : Parser Term := do
  let params ← spaced (orElse (do return [← name]) (do
    char '('
    let params ← commaItems (spaced name)
    char ')'
    return params))
  spaced (token ['=', '>'])
  let body ← commit (inside "lambda body" term)
  return .lambda params body

end Nested

def term : Nat → Parser Term
  | 0 => unexpected
  | fuel + 1 => orElse (lambda (term fuel)) (conditional (term fuel))

def byteCount (cs : List Char) : Nat := (cs.map Char.utf8Size).foldr (· + ·) 0

/-- Reads a query that takes up the whole text. Faults are located by the number of bytes before
them. -/
def parse (text : String) : Except Error Term :=
  let cs := text.toList
  let offset := fun (rest : List Char) => byteCount cs - byteCount rest
  match term (cs.length + 1) cs with
  | .ok t rest =>
    if rest.all Text.isBlank then .ok t
    else .error (.parse (offset rest) "unexpected trailing input")
  | .recoverable e | .final e => .error (.parse (offset e.rest) (" > ".intercalate e.notes))

end ObjectQuery.Language
