/-!
Shortest decimal text of floating-point numbers. A finite double `m * 2 ^ q` is written with the
fewest significant digits that read back to it; of two candidates on the same decimal grid the
nearer one wins, and a tie goes up. The remainder of division toward zero is always a double, so it is
computed exactly on the binary forms of the operands.
-/

namespace ObjectQuery.Decimal

/-- A finite double without its sign: `mantissa * 2 ^ exponent`. -/
structure Binary where
  mantissa : Nat
  exponent : Int
  narrowBelow : Bool
deriving Repr

structure Digits where
  coefficient : Nat
  exponent : Int
deriving Repr

inductive Class where
  | nan
  | infinite (negative : Bool)
  | finite (negative : Bool) (value : Binary)

def classify (x : Float) : Class :=
  let bits := x.toBits.toNat
  let negative := bits >>> 63 == 1
  let biased : Nat := bits >>> 52 % 0x800
  let fraction := bits % (1 <<< 52)
  if biased == 2047 then
    if fraction == 0 then .infinite negative else .nan
  else if biased == 0 then
    .finite negative ⟨fraction, -1074, false⟩
  else
    .finite negative ⟨fraction + 1 <<< 52, (biased : Int) - 1075, fraction == 0 && 1 < biased⟩

def digitCount (n : Nat) : Nat :=
  (Nat.toDigits 10 n).length

structure Interval where
  low : Nat
  middle : Nat
  high : Nat
  closed : Bool
  numerator : Nat
  denominator : Nat

def Binary.interval (b : Binary) : Interval :=
  let quarter := b.exponent - 2
  { low := 4 * b.mantissa - (if b.narrowBelow then 1 else 2)
    middle := 4 * b.mantissa
    high := 4 * b.mantissa + 2
    closed := b.mantissa % 2 == 0
    numerator := 1 <<< quarter.toNat
    denominator := 1 <<< (-quarter).toNat }

def Interval.contains (i : Interval) (d : Digits) : Bool :=
  let point := d.coefficient * Nat.pow 10 d.exponent.toNat * i.denominator
  let scale := i.numerator * Nat.pow 10 (-d.exponent).toNat
  if i.closed then i.low * scale ≤ point && point ≤ i.high * scale
  else i.low * scale < point && point < i.high * scale

def Binary.magnitude (b : Binary) : Int :=
  let shift : Nat := 340
  let scaled := b.mantissa <<< b.exponent.toNat * Nat.pow 10 shift / 1 <<< (-b.exponent).toNat
  (digitCount scaled : Int) - shift

def Binary.onGrid (b : Binary) (exponent : Int) : Option Digits :=
  let i := b.interval
  let up := i.middle * i.numerator * Nat.pow 10 (-exponent).toNat
  let down := i.denominator * Nat.pow 10 exponent.toNat
  let below : Digits := ⟨up / down, exponent⟩
  let above : Digits := ⟨up / down + 1, exponent⟩
  match i.contains below, i.contains above with
  | true, true => some (if 2 * (up % down) < down then below else above)
  | true, false => some below
  | false, true => some above
  | false, false => none

def Digits.trim (d : Digits) : Nat → Digits
  | 0 => d
  | fuel + 1 =>
    if d.coefficient ≠ 0 ∧ d.coefficient % 10 = 0 then
      Digits.trim ⟨d.coefficient / 10, d.exponent + 1⟩ fuel
    else d

def Binary.shortest (b : Binary) : Digits :=
  if b.mantissa = 0 then ⟨0, 0⟩
  else
    let magnitude := b.magnitude
    let found := (List.range 17).findSome? fun n => b.onGrid (magnitude - (n + 1 : Nat))
    match found with
    | some d => d.trim 20
    | none => ⟨0, 0⟩

def Digits.positional (d : Digits) : String :=
  let digits := (Nat.toDigits 10 d.coefficient)
  if 0 ≤ d.exponent then
    String.ofList (digits ++ List.replicate (if d.coefficient = 0 then 0 else d.exponent.toNat) '0')
  else
    let places := (-d.exponent).toNat
    let padded := List.replicate (places + 1 - digits.length) '0' ++ digits
    String.ofList (padded.take (padded.length - places) ++ '.' :: padded.drop (padded.length - places))

def Digits.scientific (d : Digits) : String :=
  let digits := Nat.toDigits 10 d.coefficient
  let exponent := d.exponent + digits.length - 1
  let mantissa := match digits with
    | [] => []
    | [c] => [c]
    | c :: rest => c :: '.' :: rest
  String.ofList mantissa ++ "e" ++ toString exponent

def sign (negative : Bool) : String :=
  if negative then "-" else ""

def plain (x : Float) : String :=
  match classify x with
  | .nan => "NaN"
  | .infinite negative => sign negative ++ "inf"
  | .finite negative b => sign negative ++ b.shortest.positional

/-- The text of a number that shows it is no integer: `1.0`, and an exponent below `1e-4` and from
`1e16` on. -/
def marked (x : Float) : String :=
  match classify x with
  | .nan => "NaN"
  | .infinite negative => sign negative ++ "inf"
  | .finite negative b =>
    let d := b.shortest
    let magnitude := d.exponent + digitCount d.coefficient
    if d.coefficient ≠ 0 ∧ (magnitude ≤ -4 ∨ 17 ≤ magnitude) then sign negative ++ d.scientific
    else if 0 ≤ d.exponent then sign negative ++ d.positional ++ ".0"
    else sign negative ++ d.positional

def isFinite (x : Float) : Bool :=
  match classify x with
  | .finite .. => true
  | _ => false

def stripTwos : Nat → Nat → Nat × Nat
  | 0, n => (n, 0)
  | fuel + 1, n =>
    if n ≠ 0 ∧ n % 2 = 0 then
      let (odd, twos) := stripTwos fuel (n / 2)
      (odd, twos + 1)
    else (n, 0)

def ofScaled (n : Nat) (exponent : Int) : Float :=
  let (odd, twos) := stripTwos 2200 n
  (Float.ofNat odd).scaleB (exponent + twos)

/-- The remainder of `x / y`, with the sign of `x`. -/
def remainder (x y : Float) : Float :=
  match classify x, classify y with
  | .finite negative a, .finite _ b =>
    if b.mantissa = 0 then 0.0 / 0.0
    else
      let exponent := min a.exponent b.exponent
      let n := a.mantissa <<< (a.exponent - exponent).toNat
      let d := b.mantissa <<< (b.exponent - exponent).toNat
      let r := ofScaled (n % d) exponent
      if negative then -r else r
  | .finite .., .infinite _ => x
  | _, _ => 0.0 / 0.0

end ObjectQuery.Decimal
