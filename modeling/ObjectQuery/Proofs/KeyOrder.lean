import ObjectQuery.Proofs.StableSort
import Mathlib.Data.Fintype.Basic

/-!
The order of rows by their keys, as a total order. The order that rows are sorted by leaves values of
different types incomparable; here such values are told apart by their type, so that the laws of
sorting hold for all keys. Where the keys are nulls and values of one type, the two orders agree.
-/

namespace ObjectQuery

open Std

inductive KeyType where
  | bool
  | int
  | text
deriving DecidableEq, Repr

def KeyType.admits : KeyType → Value → Prop
  | _, .null => True
  | .bool, .bool _ => True
  | .int, .int _ => True
  | .text, .text _ => True
  | _, _ => False

namespace KeyType

instance : Fintype KeyType := ⟨{.bool, .int, .text}, fun t => by cases t <;> simp⟩

instance : (t : KeyType) → (v : Value) → Decidable (t.admits v)
  | .bool, .null | .int, .null | .text, .null => isTrue trivial
  | .bool, .bool _ => isTrue trivial
  | .int, .int _ => isTrue trivial
  | .text, .text _ => isTrue trivial
  | .bool, .int _ | .bool, .text _ | .bool, .float _ | .bool, .list _ => isFalse id
  | .int, .bool _ | .int, .text _ | .int, .float _ | .int, .list _ => isFalse id
  | .text, .bool _ | .text, .int _ | .text, .float _ | .text, .list _ => isFalse id

end KeyType

namespace Value

def rank : Value → Nat
  | .null => 0
  | .bool _ => 1
  | .int _ => 2
  | .text _ => 3
  | .float _ => 4
  | .list _ => 5

def boolPart : Value → Bool
  | .bool b => b
  | _ => false

def intPart : Value → Int
  | .int n => n
  | _ => 0

def textPart : Value → String
  | .text s => s
  | _ => ""

def totalOrder : Value → Value → Ordering :=
  compareLex (compareOn rank) (compareLex (compareOn boolPart)
    (compareLex (compareOn intPart) (compareOn textPart)))

instance : TransCmp totalOrder :=
  inferInstanceAs (TransCmp (compareLex (compareOn rank) (compareLex (compareOn boolPart)
    (compareLex (compareOn intPart) (compareOn textPart)))))

theorem compareBool_eq (a b : Bool) : compareBool a b = Ord.compare a b := by
  cases a <;> cases b <;> rfl

/-- On nulls and values of one type the order of rows is total. -/
theorem sortOrder_eq_totalOrder {t : KeyType} {a b : Value} (ha : t.admits a) (hb : t.admits b) :
    sortOrder a b = totalOrder a b := by
  cases t <;> cases a <;> simp only [KeyType.admits] at ha <;> cases b <;>
    simp only [KeyType.admits] at hb <;>
    simp [sortOrder, compare, compareBool_eq, totalOrder, compareLex, compareOn, rank, boolPart,
      intPart, textPart, ReflOrd.compare_self] <;> rfl

end Value

namespace Eval

variable {α β : Type}

def directed : Direction → Value → Value → Ordering
  | .ascending, a, b => Value.totalOrder a b
  | .descending, a, b => Value.totalOrder b a

instance : (d : Direction) → TransCmp (directed d)
  | .ascending => inferInstanceAs (TransCmp Value.totalOrder)
  | .descending => inferInstanceAs (TransCmp fun a b => Value.totalOrder b a)

def byKeys : List (Direction × (α → Value)) → α → α → Ordering
  | [] => fun _ _ => .eq
  | (d, key) :: rest => compareLex (fun a b => directed d (key a) (key b)) (byKeys rest)

instance (d : Direction) (key : α → Value) : TransCmp fun a b => directed d (key a) (key b) where
  eq_swap := OrientedCmp.eq_swap
  isLE_trans := TransCmp.isLE_trans

instance tied_trans : TransCmp (fun _ _ : α => Ordering.eq) where
  eq_swap := rfl
  isLE_trans _ _ := rfl

instance byKeys_trans : (keys : List (Direction × (α → Value))) → TransCmp (byKeys keys)
  | [] => inferInstanceAs (TransCmp fun _ _ => Ordering.eq)
  | (d, key) :: rest =>
    have := byKeys_trans rest
    inferInstanceAs (TransCmp (compareLex (fun a b => directed d (key a) (key b)) (byKeys rest)))

theorem byKeys_append (keys more : List (Direction × (α → Value))) :
    byKeys (keys ++ more) = compareLex (byKeys keys) (byKeys more) := by
  induction keys with
  | nil => rfl
  | cons k rest ih =>
    funext a b
    simp only [List.cons_append, byKeys, ih, compareLex, Ordering.then_assoc]

theorem directed_eq_iff {d : Direction} {a b : Value} :
    directed d a b = .eq ↔ Value.totalOrder a b = .eq := by
  cases d
  · exact Iff.rfl
  · exact OrientedCmp.eq_comm

/-- Keys that read the same values order alike. -/
theorem byKeys_congr {keys : List (Direction × (α → Value))}
    {more : List (Direction × (β → Value))} {a b : α} {a' b' : β}
    (same : List.Forall₂ (fun k k' => k.1 = k'.1 ∧ k.2 a = k'.2 a' ∧ k.2 b = k'.2 b') keys more) :
    byKeys keys a b = byKeys more a' b' := by
  induction same with
  | nil => rfl
  | cons head _ ih =>
    obtain ⟨hd, ha, hb⟩ := head
    simp only [byKeys, compareLex, ih, hd, ha, hb]

/-- The order that rows are sorted by is the total one where the keys are of one type each. -/
theorem compareKeys_eq_byKeys {keys : List (Direction × (α → Value))} {a b : α}
    (h : ∀ k ∈ keys, ∃ t : KeyType, t.admits (k.2 a) ∧ t.admits (k.2 b)) :
    compareKeys (keys.map (·.1)) (keys.map (·.2 a)) (keys.map (·.2 b)) = byKeys keys a b := by
  induction keys with
  | nil => rfl
  | cons k rest ih =>
    obtain ⟨d, key⟩ := k
    obtain ⟨t, ha, hb⟩ := h (d, key) (by simp)
    have ih := ih fun k hk => h k (by simp [hk])
    cases d with
    | ascending =>
      simp only [List.map_cons, compareKeys, ih, byKeys, compareLex, directed,
        Value.sortOrder_eq_totalOrder ha hb]
      cases Value.totalOrder (key a) (key b) <;> rfl
    | descending =>
      simp only [List.map_cons, compareKeys, ih, byKeys, compareLex, directed,
        Value.sortOrder_eq_totalOrder hb ha]
      cases Value.totalOrder (key b) (key a) <;> rfl

end Eval

end ObjectQuery
