import ObjectQuery.Text.Decimal

/-!
Numbers as they are written in digits. `nearest` is the double nearest to a decimal.
`Numeral.value?` is the value of a number in a JSON document: it keeps as many digits as fit 64 bits
and scales them by a power of ten in double arithmetic, so that a long numeral may miss the nearest
double.
-/

namespace ObjectQuery

structure Numeral where
  negative : Bool
  whole : List Char
  fraction : Option (List Char)
  exponent : Option Int
deriving DecidableEq, Repr

namespace Numeral

def digit (c : Char) : Nat := c.toNat - 48

def digitsValue (digits : List Char) : Nat :=
  digits.foldl (fun n c => n * 10 + digit c) 0

def nearest (mantissa : Nat) (exponent : Int) : Float :=
  if mantissa = 0 then 0.0
  else if 400 < exponent + Decimal.digitCount mantissa then 1.0 / 0.0
  else if exponent + Decimal.digitCount mantissa < -400 then 0.0
  else if 0 ≤ exponent then Float.ofScientific mantissa false exponent.toNat
  else Float.ofScientific mantissa true (-exponent).toNat

def fraction? : List Char → Option (Option (List Char) × List Char)
  | '.' :: rest =>
    let digits := rest.takeWhile Char.isDigit
    if digits.isEmpty then none else some (some digits, rest.dropWhile Char.isDigit)
  | rest => some (none, rest)

def exponentSign : List Char → Bool × List Char
  | '-' :: rest => (true, rest)
  | '+' :: rest => (false, rest)
  | rest => (false, rest)

def exponent? : List Char → Option (Option Int × List Char)
  | [] => some (none, [])
  | c :: rest =>
    if c = 'e' || c = 'E' then
      let (negative, rest) := exponentSign rest
      let digits := rest.takeWhile Char.isDigit
      let size : Int := digitsValue digits
      if digits.isEmpty then none
      else some (some (if negative then -size else size), rest.dropWhile Char.isDigit)
    else some (none, c :: rest)

def unsigned? (negative : Bool) (cs : List Char) : Option (Numeral × List Char) := do
  let whole := cs.takeWhile Char.isDigit
  guard (!whole.isEmpty && (whole.length == 1 || whole.head? != some '0'))
  let (fraction, rest) ← fraction? (cs.dropWhile Char.isDigit)
  let (exponent, rest) ← exponent? rest
  some (⟨negative, whole, fraction, exponent⟩, rest)

inductive Value where
  | int (n : Int)
  | float (x : Float)

def absorb (n : Nat) : List Char → Nat × Nat
  | [] => (n, 0)
  | c :: rest =>
    if n * 10 + digit c < 0x10000000000000000 then
      let (m, taken) := absorb (n * 10 + digit c) rest
      (m, taken + 1)
    else (n, 0)

/-- What absorbing gives fits 64 bits again. -/
theorem absorb_lt {n : Nat} (h : n < 0x10000000000000000) (cs : List Char) :
    (absorb n cs).1 < 0x10000000000000000 := by
  induction cs generalizing n with
  | nil => exact h
  | cons c rest ih =>
    simp only [absorb]
    split
    · rename_i fits
      exact ih fits
    · exact h

def topPower : Nat := 308

def power (exponent : Nat) : Float := nearest 1 exponent

/-- A number of 64 bits times a power of ten. Both are rounded to doubles before they meet, a power
that is no double is refused, and the inverse of one is divided out in two steps. -/
def scaled? (significand : Nat) (exponent : Int) : Option Float :=
  let x := significand.toUInt64.toFloat
  if topPower < exponent then
    if significand = 0 then some 0.0 else none
  else if 0 ≤ exponent then
    let product := x * power exponent.toNat
    if Decimal.isFinite product then some product else none
  else
    let places := (-exponent).toNat
    if places ≤ topPower then some (x / power places)
    else if places ≤ 2 * topPower then some (x / power topPower / power (places - topPower))
    else some 0.0

/-- An integer where all digits fit, the sign included, and neither a point nor an exponent is
written; a double otherwise. Zero with a sign is a double, for integers know one zero. -/
def value? (n : Numeral) : Option Value :=
  let (kept, taken) := absorb 0 n.whole
  let (significand, places) := absorb kept (n.fraction.getD [])
  let dropped := n.whole.length - taken
  if n.fraction.isNone && n.exponent.isNone && dropped == 0 then
    if !n.negative then some (.int significand)
    else if significand = 0 ∨ 0x8000000000000000 < significand then
      some (.float (-significand.toUInt64.toFloat))
    else some (.int (-significand))
  else
    (scaled? significand (dropped - places + n.exponent.getD 0)).map fun x =>
      .float (if n.negative then -x else x)

end Numeral

end ObjectQuery
