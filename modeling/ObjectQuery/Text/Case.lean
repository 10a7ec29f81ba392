import ObjectQuery.Text.CaseTables
import ObjectQuery.Text.LetterTables

/-!
Letters and numbers, upper and lower case of whole texts, and blanks at their ends, for all of
Unicode.
-/

namespace ObjectQuery.Text

def inTable (ranges : List (Nat × Nat)) (c : Char) : Bool :=
  ranges.any fun (first, last) => first ≤ c.toNat && c.toNat ≤ last

def isLetter (c : Char) : Bool :=
  if c.toNat < 128 then c.isAlpha else inTable LetterTables.letters c

def isNumber (c : Char) : Bool :=
  if c.toNat < 128 then c.isDigit else inTable LetterTables.numbers c

def isLetterOrNumber (c : Char) : Bool := isLetter c || isNumber c

def shift? (shifts : List CaseTables.Shift) (n : Nat) : Option Nat :=
  (shifts.find? fun s => s.first ≤ n && n ≤ s.last && (n - s.first) % s.stride == 0).map fun s =>
    ((n : Int) + s.delta).toNat

def mapped (many : List (Nat × List Nat)) (shifts : List CaseTables.Shift) (c : Char) : List Char :=
  match many.lookup c.toNat with
  | some letters => letters.map Char.ofNat
  | none =>
    match shift? shifts c.toNat with
    | some n => [Char.ofNat n]
    | none => [c]

def upperChar (c : Char) : List Char :=
  if c.toNat < 128 then [c.toUpper] else mapped CaseTables.upperMany CaseTables.upper c

def lowerChar (c : Char) : List Char :=
  if c.toNat < 128 then [c.toLower] else mapped CaseTables.lowerMany CaseTables.lower c

def upperCase (s : String) : String :=
  String.ofList (s.toList.flatMap upperChar)

def startsCased (cs : List Char) : Bool :=
  match cs.dropWhile (inTable CaseTables.ignorable) with
  | c :: _ => inTable CaseTables.cased c
  | [] => false

/-- Lower case of the characters after `before`, which holds those already passed, last one first. A
sigma that ends a word takes its final form. -/
def lowerAfter (before : List Char) : List Char → List Char
  | [] => []
  | c :: rest =>
    let letters :=
      if c = 'Σ' then if startsCased before && !startsCased rest then ['ς'] else ['σ']
      else lowerChar c
    letters ++ lowerAfter (c :: before) rest

def lowerCase (s : String) : String :=
  String.ofList (lowerAfter [] s.toList)

def isBlank (c : Char) : Bool :=
  let n := c.toNat
  (9 ≤ n && n ≤ 13) || n == 32 || n == 0x85 || n == 0xA0 || n == 0x1680
    || (0x2000 ≤ n && n ≤ 0x200A) || n == 0x2028 || n == 0x2029 || n == 0x202F || n == 0x205F
    || n == 0x3000

def trimmed (s : String) : String :=
  String.ofList (((s.toList.dropWhile isBlank).reverse.dropWhile isBlank).reverse)

end ObjectQuery.Text
