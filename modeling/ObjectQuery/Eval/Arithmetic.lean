import ObjectQuery.Eval.Error
import ObjectQuery.Text.Case
import ObjectQuery.Text.Decimal

/-!
Operations on values: three-valued logic, comparison, checked 64-bit arithmetic and the scalar
functions. Null stands for an unknown value.
-/

namespace ObjectQuery.Value

abbrev Result := Except EvalError

def truth : Value → Result (Option Bool)
  | .null => .ok none
  | .bool b => .ok (some b)
  | v => .error (.mismatch "truth test" v (.bool true))

def ofTruth : Option Bool → Value
  | none => .null
  | some b => .bool b

def and3 : Option Bool → Option Bool → Option Bool
  | some false, _ | _, some false => some false
  | some true, some true => some true
  | _, _ => none

def or3 : Option Bool → Option Bool → Option Bool
  | some true, _ | _, some true => some true
  | some false, some false => some false
  | _, _ => none

def compareFloat (a b : Float) : Option Ordering :=
  if a < b then some .lt else if a == b then some .eq else if b < a then some .gt else none

def compareBool : Bool → Bool → Ordering
  | false, true => .lt
  | true, false => .gt
  | _, _ => .eq

def compare : Value → Value → Result (Option Ordering)
  | .null, _ | _, .null => .ok none
  | .int a, .int b => .ok (some (Ord.compare a b))
  | .int a, .float b => .ok (compareFloat (Float.ofInt a) b)
  | .float a, .int b => .ok (compareFloat a (Float.ofInt b))
  | .float a, .float b => .ok (compareFloat a b)
  | .text a, .text b => .ok (some (Ord.compare a b))
  | .bool a, .bool b => .ok (some (compareBool a b))
  | a, b => .error (.mismatch "comparison" a b)

def isEqual (a b : Value) : Bool :=
  match compare a b with
  | .ok (some .eq) => true
  | _ => false

/-- The order of rows: nulls come first, and values that cannot be compared count as equal. -/
def sortOrder : Value → Value → Ordering
  | .null, .null => .eq
  | .null, _ => .lt
  | _, .null => .gt
  | a, b =>
    match compare a b with
    | .ok (some o) => o
    | _ => .eq

def keysEqual : List Value → List Value → Bool
  | [], [] => true
  | a :: as, b :: bs =>
    (match a, b with
      | .null, .null => true
      | a, b => isEqual a b) && keysEqual as bs
  | _, _ => false

def checked (n : Int) : Result Value :=
  if -0x8000000000000000 ≤ n ∧ n < 0x8000000000000000 then .ok (.int n) else .error .overflow

def asFloat? : Value → Option Float
  | .int n => some (Float.ofInt n)
  | .float x => some x
  | _ => none

def asInt : Value → Result Int
  | .int n => .ok n
  | v => .error (.mismatch "integer" v (.int 0))

def arithmeticInt (op : BinaryOp) (a b : Int) : Result Value :=
  match op with
  | .add => checked (a + b)
  | .subtract => checked (a - b)
  | .multiply => checked (a * b)
  | .divide => if b = 0 then .error .divisionByZero else checked (a.tdiv b)
  | .modulo =>
    if b = 0 then .error .divisionByZero
    else if a = -0x8000000000000000 ∧ b = -1 then .error .overflow
    else checked (a.tmod b)
  | op => .error (.mismatch op.symbol (.int a) (.int b))

def arithmeticFloat (op : BinaryOp) (left right : Value) (a b : Float) : Result Value :=
  match op with
  | .add => .ok (.float (a + b))
  | .subtract => .ok (.float (a - b))
  | .multiply => .ok (.float (a * b))
  | .divide => if b == 0.0 then .error .divisionByZero else .ok (.float (a / b))
  | .modulo => .ok (.float (Decimal.remainder a b))
  | op => .error (.mismatch op.symbol left right)

def arithmetic (op : BinaryOp) : Value → Value → Result Value
  | .null, _ | _, .null => .ok .null
  | .int a, .int b => arithmeticInt op a b
  | left, right =>
    match op, left, right with
    | .add, .text a, .text b => .ok (.text (a ++ b))
    | op, left, right =>
      match left.asFloat?, right.asFloat? with
      | some a, some b => arithmeticFloat op left right a b
      | _, _ => .error (.mismatch op.symbol left right)

def satisfies (op : BinaryOp) (o : Ordering) : Bool :=
  match op with
  | .eq => o == .eq
  | .notEq => o != .eq
  | .lt => o == .lt
  | .ltEq => o != .gt
  | .gt => o == .gt
  | _ => o != .lt

def binary (op : BinaryOp) (left right : Value) : Result Value :=
  match op with
  | .and => do return ofTruth (and3 (← left.truth) (← right.truth))
  | .or => do return ofTruth (or3 (← left.truth) (← right.truth))
  | .coalesce => .ok (if left.isNull then right else left)
  | op =>
    if op.isComparison then do return ofTruth ((← compare left right).map (satisfies op))
    else arithmetic op left right

def unary : UnaryOp → Value → Result Value
  | _, .null => .ok .null
  | .not, v => do return ofTruth ((← v.truth).map (!·))
  | .negate, .int n => checked (-n)
  | .negate, .float x => .ok (.float (-x))
  | .negate, v => .error (.mismatch "negation" v (.int 0))

def plainText : Value → String
  | .text s => s
  | .int n => toString n
  | .float x => Decimal.plain x
  | .bool b => if b then "true" else "false"
  | .null | .list _ => ""

def roundTo (x : Float) (places : Int) : Float :=
  let scale := Float.ofScientific 1 false (min (max places 0) 15).toNat
  (x * scale).round / scale

def call (name : String) (args : List Value) : Result Value :=
  if args.any isNull then .ok .null
  else match name, args with
    | "ToUpper", [.text s] => .ok (.text (Text.upperCase s))
    | "ToLower", [.text s] => .ok (.text (Text.lowerCase s))
    | "Trim", [.text s] => .ok (.text (Text.trimmed s))
    | "Length", [.text s] => .ok (.int s.length)
    | "Substring", [.text s, .int start] => .ok (.text (String.ofList (s.toList.drop start.toNat)))
    | "Substring", [.text s, .int start, .int length] =>
      .ok (.text (String.ofList ((s.toList.drop start.toNat).take length.toNat)))
    | "StartsWith", [.text s, .text p] => .ok (.bool (p.toList.isPrefixOf s.toList))
    | "EndsWith", [.text s, .text p] => .ok (.bool (p.toList.isSuffixOf s.toList))
    | "Concat", a :: b :: rest =>
      .ok (.text (String.join ((a :: b :: rest).map plainText)))
    | "Abs", [.int n] => checked n.natAbs
    | "Abs", [.float x] => .ok (.float x.abs)
    | "Floor", [.float x] => .ok (.float x.floor)
    | "Ceiling", [.float x] => .ok (.float x.ceil)
    | "Round", [.float x] => .ok (.float x.round)
    | "Round", [.float x, .int places] => .ok (.float (roundTo x places))
    | "Floor", .int n :: _ | "Ceiling", .int n :: _ | "Round", .int n :: _ => .ok (.int n)
    | name, args => .error (.unknownFunction name args.length)

/-- Membership in a list: unknown when nothing is equal and a null takes part. -/
def isInFrom (v : Value) (sawNull : Bool) : List Value → Result Value
  | [] => .ok (if sawNull then .null else .bool false)
  | c :: rest => do
    match ← compare v c with
    | some .eq => return .bool true
    | none => isInFrom v true rest
    | some _ => isInFrom v sawNull rest

def isIn (v : Value) (candidates : List Value) : Result Value :=
  if candidates.isEmpty then .ok (.bool false)
  else if v.isNull then .ok .null
  else isInFrom v false candidates

def extreme (wanted : Ordering) (values : List Value) : Result Value :=
  match values with
  | [] => .ok .null
  | first :: rest => rest.foldlM (fun best v => do
      match ← compare v best with
      | some o => return if o == wanted then v else best
      | none => return best) first

def isInt : Value → Bool
  | .int _ => true
  | _ => false

def sum (values : List Value) : Result Value :=
  if values.all isInt then
    values.foldlM (fun total v => arithmetic .add total v) (.int 0)
  else do
    let total ← values.foldlM (fun (total : Float) v =>
      match v.asFloat? with
      | some x => .ok (total + x)
      | none => .error (.mismatch "SUM" v (.float 0.0))) 0.0
    return .float total

def aggregate (kind : AggregateKind) (values : List Value) : Result Value :=
  match kind with
  | .count | .longCount => .ok (.int values.length)
  | kind =>
    if values.isEmpty then .ok .null
    else match kind with
      | .min => extreme .lt values
      | .max => extreme .gt values
      | .average => do
        match ← sum values with
        | .int total => return .float (Float.ofInt total / Float.ofNat values.length)
        | .float total => return .float (total / Float.ofNat values.length)
        | other => return other
      | _ => sum values

def aggregated (distinct : Bool) (values : List Value) : List Value :=
  let present := values.filter (!·.isNull)
  if distinct then
    present.foldl (fun kept v => if kept.any (isEqual · v) then kept else kept ++ [v]) []
  else present

end ObjectQuery.Value
