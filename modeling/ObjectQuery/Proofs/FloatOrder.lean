import Mathlib
import ObjectQuery.Eval.Arithmetic

/-!
The order of floats. Two floats are compared alike from both sides. Those that are numbers are compared by what
they unpack to: by sign, then by exponent, then by mantissa, where the infinities stand outside. An integer of
at most 53 bits is a float without rounding, and has the same place among the floats as among the integers.
-/

namespace ObjectQuery.FloatOrder

open Std Float.Model.UnpackedFloat
open Float.Model (UnpackedFloat)
open Float.Model.Format (binary64)

def key : UnpackedFloat → Int × Int × Int
  | .infinity .negative => (-2, 0, 0)
  | .finite .negative m e _ => (-1, -e, -m)
  | .zero _ | .notANumber => (0, 0, 0)
  | .finite .positive m e _ => (1, e, m)
  | .infinity .positive => (2, 0, 0)

def byKey (k l : Int × Int × Int) : Ordering :=
  (compare k.1 l.1).then ((compare k.2.1 l.2.1).then (compare k.2.2 l.2.2))

instance : TransCmp byKey :=
  inferInstanceAs (TransCmp (compareLex (compareOn fun k : Int × Int × Int => k.1)
    (compareLex (compareOn fun k => k.2.1) (compareOn fun k => k.2.2))))

theorem compare_neg (a b : Int) : compare (-a) (-b) = (compare a b).swap := by
  rw [← OrientedCmp.eq_swap]
  simp only [Int.compare_eq_ite_lt]
  grind

theorem compare_natCast (a b : Nat) : compare (a : Int) (b : Int) = compare a b := by
  simp only [Int.compare_eq_ite_lt, Nat.compare_eq_ite_lt]
  grind

theorem compare_eq_byKey {x y : UnpackedFloat} (hx : x.isNaN = false) (hy : y.isNaN = false) :
    x.compare y = some (byKey (key x) (key y)) := by
  rcases x with s | _ | s | ⟨s, m, e, pos⟩ <;> rcases y with t | _ | t | ⟨t, m', e', pos'⟩
  case finite.finite =>
    cases s <;> cases t
    · simp only [UnpackedFloat.compare, key, byKey, compare_neg, compare_natCast, Ordering.swap_then]
      rfl
    · rfl
    · rfl
    · simp only [UnpackedFloat.compare, key, byKey, compare_natCast]
      rfl
  all_goals first | (cases s <;> cases t <;> rfl) | exact Bool.noConfusion hx | exact Bool.noConfusion hy

theorem compare_notANumber (x : UnpackedFloat) : x.compare .notANumber = none := by
  cases x <;> rfl

theorem compare_swap (x y : UnpackedFloat) : y.compare x = (x.compare y).map Ordering.swap := by
  cases hx : x.isNaN with
  | true => rw [isNaN_iff.mp hx, compare_notANumber]; rfl
  | false =>
    cases hy : y.isNaN with
    | true => rw [isNaN_iff.mp hy, compare_notANumber]; rfl
    | false =>
      rw [compare_eq_byKey hx hy, compare_eq_byKey hy hx, @OrientedCmp.eq_swap _ byKey]
      rfl

theorem compareFloat_eq (a b : Float) :
    Value.compareFloat a b = a.toModel.unpack.compare b.toModel.unpack := by
  have less (a b : Float) : a < b ↔ a.toModel.unpack.compare b.toModel.unpack = some .lt := by
    change decide (a.toModel < b.toModel) = true ↔ _
    rw [decide_eq_true_iff]
    exact beq_iff_eq (a := a.toModel.unpack.compare b.toModel.unpack)
  have equal : (a == b) = (a.toModel.unpack.compare b.toModel.unpack == some .eq) := rfl
  rw [Value.compareFloat]
  simp only [less, equal, compare_swap a.toModel.unpack b.toModel.unpack]
  rcases a.toModel.unpack.compare b.toModel.unpack with _ | _ | _ | _ <;> rfl

/-- The order of two floats can be asked from either side. -/
theorem compareFloat_swap (a b : Float) :
    Value.compareFloat b a = (Value.compareFloat a b).map Ordering.swap := by
  rw [compareFloat_eq, compareFloat_eq, compare_swap]

/-- Numbers are ordered by their keys. -/
theorem compareFloat_eq_byKey {a b : Float} (ha : a.isNaN = false) (hb : b.isNaN = false) :
    Value.compareFloat a b = some (byKey (key a.toModel.unpack) (key b.toModel.unpack)) := by
  rw [compareFloat_eq]
  exact compare_eq_byKey ha hb

section Normal

variable {m : Nat} {e : Int} (lower : 2 ^ 52 ≤ m) (upper : m < 2 ^ 53) (min : -1074 ≤ e)
include lower upper min

/-- A float with a full mantissa is packed without loss. -/
theorem unpack_pack (s : Sign) (pos : 0 < m) (max : e ≤ 970) :
    (Float.Model.pack (.finite s m e pos)).unpack = .finite s m e pos := by
  change unpack binary64 (pack binary64 (.finite s m e pos)) = .finite s m e pos
  have log : m.log2 = 52 := (Nat.log2_eq_iff (by omega)).mpr ⟨lower, upper⟩
  have bias : binary64.exponentBias = 1023 := rfl
  have bits : binary64.mantissaBits = 53 := rfl
  obtain ⟨b, hb⟩ : ∃ b : Nat, (e + (1023 : Nat) + (52 : Nat)).toNat = b := ⟨_, rfl⟩
  have packed : pack binary64 (.finite s m e pos)
      = packComponents binary64 s (BitVec.ofNat _ b) (BitVec.ofNat _ m) := by
    simp only [pack, bias, bits, log, hb]
    rw [if_neg (by omega), if_pos trivial]
  have notMax : BitVec.ofNat 11 b ≠ -1#11 := by
    intro h
    have := congrArg BitVec.toNat h
    simp at this
    omega
  have notMin : BitVec.ofNat 11 b ≠ 0#11 := by
    intro h
    have := congrArg BitVec.toNat h
    simp at this
    omega
  rw [packed, unpack]
  simp only [unpackMantissa_packComponents, unpackExponent_packComponents, unpackSign_packComponents,
    Sign.ofBitVec_toBitVec, if_neg notMax, if_neg notMin]
  congr 1
  · rw [BitVec.toNat_append, ← Nat.shiftLeft_add_eq_or_of_lt (BitVec.isLt _)]
    simp
    omega
  · simp [bias]
    omega

omit lower upper min in
/-- A mantissa that is followed by zeros only is not rounded. -/
theorem shiftRight_exact (m k : Nat) :
    (⟨m * 2 ^ k, false, false⟩ : ExtendedMantissa) >>> k = ⟨m, false, false⟩ := by
  change k.repeat ExtendedMantissa.shiftRightOne _ = _
  induction k generalizing m with
  | zero => simp [Nat.repeat]
  | succ k ih =>
    rw [Nat.repeat, Nat.pow_succ, Nat.mul_comm (2 ^ k), ← Nat.mul_assoc, ih]
    simp [ExtendedMantissa.shiftRightOne]

theorem shiftToTargetExponent_exact (k : Nat) :
    shiftToTargetExponent binary64 (m * 2 ^ k) (e - k) .exact = (⟨m, false, false⟩, e) := by
  have log : (m * 2 ^ k).log2 = 52 + k := by
    have pos : 0 < m * 2 ^ k := Nat.mul_pos (by omega) (Nat.two_pow_pos k)
    rw [Nat.log2_eq_iff (by omega), Nat.add_right_comm, Nat.pow_add, Nat.pow_add]
    exact ⟨Nat.mul_le_mul_right _ lower, Nat.mul_lt_mul_of_pos_right upper (Nat.two_pow_pos k)⟩
  have target : binary64.targetExponent (Float.Model.totalExponent (m * 2 ^ k) (e - k)) = e := by
    have bits : binary64.mantissaBits = 53 := rfl
    have least : binary64.minExponent = -1074 := rfl
    rw [Float.Model.Format.targetExponent, Float.Model.totalExponent, log, bits, least]
    omega
  simp only [shiftToTargetExponent, target, shiftToExponent, ExtendedMantissa.ofMantissaAndAccuracy]
  rw [show (e - (e - (k : Int))).toNat = k by omega, shiftRight_exact, show e - (k : Int) + (k : Int) = e by omega]

theorem roundWithAccuracy_exact (s : Sign) (pos : 0 < m) (k : Nat) :
    roundWithAccuracy binary64 s (m * 2 ^ k) (e - k) .exact = .finite s m e pos := by
  have first := shiftToTargetExponent_exact lower upper min k
  have again := shiftToTargetExponent_exact lower upper min 0
  simp only [Nat.pow_zero, Nat.mul_one, Int.natCast_zero, Int.sub_zero] at again
  have rounded : (⟨m, false, false⟩ : ExtendedMantissa).roundedMantissa = m := rfl
  simp only [roundWithAccuracy, first, rounded, again]
  rw [dif_neg (by omega)]

end Normal

def mantissa (n : Nat) : Nat := n * 2 ^ (52 - n.log2)

def exponent (n : Nat) : Int := n.log2 - 52

section Small

variable {n : Nat} (pos : 0 < n) (small : n < 2 ^ 53)
include pos small

theorem log2_le : n.log2 ≤ 52 := by
  have := (Nat.log2_lt (by omega)).mpr small
  omega

theorem le_mantissa : 2 ^ 52 ≤ mantissa n := by
  have bits := log2_le pos small
  have least := Nat.mul_le_mul_right (2 ^ (52 - n.log2)) (Nat.log2_self_le (n := n) (by omega))
  rwa [← Nat.pow_add, Nat.add_sub_cancel' bits] at least

theorem mantissa_lt : mantissa n < 2 ^ 53 := by
  have bits := log2_le pos small
  have most := Nat.mul_lt_mul_of_pos_right (Nat.lt_log2_self (n := n)) (Nat.two_pow_pos (52 - n.log2))
  rwa [← Nat.pow_add, show n.log2 + 1 + (52 - n.log2) = 53 by omega] at most

omit pos small in
theorem le_exponent : -1074 ≤ exponent n := by
  rw [exponent]
  omega

theorem exponent_le : exponent n ≤ 970 := by
  have := log2_le pos small
  rw [exponent]
  omega

theorem mantissa_pos : 0 < mantissa n := Nat.lt_of_lt_of_le (by decide) (le_mantissa pos small)

/-- An integer of at most 53 bits, as a float. -/
theorem ofNat_small : UnpackedFloat.ofNat binary64 n
    = .finite .positive (mantissa n) (exponent n) (mantissa_pos pos small) := by
  have bits := log2_le pos small
  have positive : compare (n : Int) 0 = .gt := by
    rw [Int.compare_eq_gt]
    omega
  have target : binary64.targetExponent (Float.Model.totalExponent n 0) = exponent n := by
    have bits : binary64.mantissaBits = 53 := rfl
    have least : binary64.minExponent = -1074 := rfl
    rw [Float.Model.Format.targetExponent, Float.Model.totalExponent, bits, least, exponent]
    omega
  have shift : (0 - exponent n).toNat = 52 - n.log2 := by
    rw [exponent]
    omega
  have shifted : (0 : Int) - (52 - n.log2 : Nat) = exponent n := by
    rw [exponent]
    omega
  have exact := roundWithAccuracy_exact (e := exponent n) (le_mantissa pos small) (mantissa_lt pos small)
    le_exponent .positive (mantissa_pos pos small) 0
  simp only [Nat.pow_zero, Nat.mul_one, Int.natCast_zero, Int.sub_zero] at exact
  rw [UnpackedFloat.ofNat, UnpackedFloat.ofInt, UnpackedFloat.normalize, positive]
  simp only [Int.toNat_natCast, UnpackedFloat.round, target, decreaseExponent, shift, Nat.shiftLeft_eq, shifted]
  exact exact

theorem unpack_pack_ofNat : (Float.Model.pack (UnpackedFloat.ofNat binary64 n)).unpack
    = .finite .positive (mantissa n) (exponent n) (mantissa_pos pos small) := by
  rw [ofNat_small pos small]
  exact unpack_pack (le_mantissa pos small) (mantissa_lt pos small) le_exponent _ _ (exponent_le pos small)

omit pos small in
/-- The number one, by which a literal is multiplied. -/
theorem unpack_one : (Float.ofBits 0x3FF0000000000000).toModel.unpack
    = .finite .positive (2 ^ 52) (-52) (by decide) := by
  rfl

theorem unpack_toFloat : n.toUInt64.toFloat.toModel.unpack
    = .finite .positive (mantissa n) (exponent n) (mantissa_pos pos small) := by
  have same : n.toUInt64.toNat = n := by
    rw [Nat.toUInt64, UInt64.toNat_ofNat']
    omega
  change (Float.Model.pack (UnpackedFloat.ofNat binary64 n.toUInt64.toNat)).unpack = _
  simp only [same, unpack_pack_ofNat pos small]

theorem unpack_natCast : (Float.ofNat n).toModel.unpack
    = .finite .positive (mantissa n) (exponent n) (mantissa_pos pos small) := by
  have literal : Float.ofNat n = n.toUInt64.toFloat * Float.ofBits 0x3FF0000000000000 := by
    change Float.ofScientific n false 0 = _
    rw [Float.ofScientific, dif_pos ⟨small, by decide⟩]
    rfl
  rw [literal]
  change (Float.Model.pack (mul binary64 n.toUInt64.toFloat.toModel.unpack
    (Float.ofBits 0x3FF0000000000000).toModel.unpack)).unpack = _
  rw [unpack_toFloat pos small, unpack_one]
  have exact := roundWithAccuracy_exact (e := exponent n) (le_mantissa pos small) (mantissa_lt pos small)
    le_exponent .positive (mantissa_pos pos small) 52
  change (Float.Model.pack (roundWithAccuracy binary64 .positive (mantissa n * 2 ^ 52) (exponent n + -52) .exact)).unpack
    = _
  rw [show exponent n + -52 = exponent n - (52 : Nat) from rfl, exact]
  exact unpack_pack (le_mantissa pos small) (mantissa_lt pos small) le_exponent _ _ (exponent_le pos small)

end Small

def place (n : Int) : Int × Int × Int :=
  (n.sign, n.sign * exponent n.natAbs, n.sign * mantissa n.natAbs)

theorem isNaN_ofInt_and_key {n : Int} (small : n.natAbs < 2 ^ 53) :
    (Float.ofInt n).isNaN = false ∧ key (Float.ofInt n).toModel.unpack = place n := by
  change (Float.ofInt n).toModel.unpack.isNaN = false ∧ _
  rcases n with n | n
  · rcases Nat.eq_zero_or_pos n with rfl | pos
    · exact ⟨rfl, rfl⟩
    · change (Float.ofNat n).toModel.unpack.isNaN = false ∧ key (Float.ofNat n).toModel.unpack = _
      rw [unpack_natCast pos small]
      refine ⟨rfl, ?_⟩
      have sign : (Int.ofNat n).sign = 1 := Int.sign_eq_one_of_pos (Int.natCast_pos.mpr pos)
      simp only [key, place, sign, Int.one_mul]
      rfl
  · have pos : 0 < n.succ := Nat.succ_pos n
    have small : n.succ < 2 ^ 53 := small
    have negated : (Float.ofInt (.negSucc n)).toModel.unpack
        = .finite .negative (mantissa n.succ) (exponent n.succ) (mantissa_pos pos small) := by
      change (Float.Model.pack (neg (Float.ofNat n.succ).toModel.unpack)).unpack = _
      rw [unpack_natCast pos small]
      exact unpack_pack (le_mantissa pos small) (mantissa_lt pos small) le_exponent _ _ (exponent_le pos small)
    rw [negated]
    refine ⟨rfl, ?_⟩
    simp only [key, place, Int.sign_negSucc, Int.neg_one_mul]
    rfl

theorem compare_natCast_lt {m n : Nat} (pos : 0 < m) (less : m < n) :
    (compare (exponent m) (exponent n)).then (compare (mantissa m : Int) (mantissa n)) = .lt := by
  have logs : m.log2 ≤ n.log2 :=
    (Nat.le_log2 (by omega)).mpr (Nat.le_trans (Nat.log2_self_le (by omega)) (Nat.le_of_lt less))
  rcases Nat.lt_or_eq_of_le logs with logs | logs
  · have first : compare (exponent m) (exponent n) = .lt := by
      rw [Int.compare_eq_lt, exponent, exponent]
      omega
    rw [first]
    rfl
  · have first : compare (exponent m) (exponent n) = .eq := by
      rw [Int.compare_eq_eq, exponent, exponent, logs]
    rw [first, Ordering.eq_then, Int.compare_eq_lt, mantissa, mantissa, logs]
    exact Int.ofNat_lt.mpr (Nat.mul_lt_mul_of_pos_right less (Nat.two_pow_pos _))

theorem byKey_place_of_lt {m n : Int} (less : m < n) :
    byKey (place m) (place n) = .lt := by
  rcases Int.lt_or_le 0 m with pos | nonpos
  · have larger := compare_natCast_lt (m := m.natAbs) (n := n.natAbs) (by omega) (by omega)
    rw [byKey, place, place, Int.sign_eq_one_of_pos pos, Int.sign_eq_one_of_pos (by omega)]
    simpa only [Int.one_mul, ReflCmp.compare_self, Ordering.eq_then] using larger
  rcases Int.lt_or_le n 0 with neg | nonneg
  · have larger := compare_natCast_lt (m := n.natAbs) (n := m.natAbs) (by omega) (by omega)
    rw [byKey, place, place, Int.sign_eq_neg_one_of_neg neg, Int.sign_eq_neg_one_of_neg (by omega)]
    simpa only [Int.neg_one_mul, compare_neg, ← OrientedCmp.eq_swap, ReflCmp.compare_self, Ordering.eq_then]
      using larger
  · have signs : m.sign < n.sign := by
      rcases Int.lt_or_eq_of_le nonpos with neg | rfl
      · have := Int.sign_nonneg_iff.mpr nonneg
        rw [Int.sign_eq_neg_one_of_neg neg]
        omega
      · rw [Int.sign_eq_one_of_pos less]
        decide
    rw [byKey, place, place, Int.compare_eq_lt.mpr signs]
    rfl

/-- The integers of at most 53 bits stand among the floats in their order. -/
theorem byKey_place (m n : Int) : byKey (place m) (place n) = compare m n := by
  rcases Int.lt_trichotomy m n with less | rfl | less
  · rw [byKey_place_of_lt less, Int.compare_eq_lt.mpr less]
  · rw [@ReflCmp.compare_self _ byKey, ReflOrd.compare_self]
  · rw [@OrientedCmp.eq_swap _ byKey, byKey_place_of_lt less, Int.compare_eq_gt.mpr less]
    rfl

end ObjectQuery.FloatOrder
