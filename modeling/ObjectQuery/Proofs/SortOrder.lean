import Mathlib.Data.List.Forall2
import ObjectQuery.Proofs.FloatOrder
import ObjectQuery.Proofs.KeyOrder
import ObjectQuery.Proofs.Narrowing

/-!
What the order of rows is an order of. Any two values are compared alike from both sides. The order is transitive
on nulls with values of one type, and also on nulls with floats and with integers of at most 53 bits; so rows
whose keys are such values, place by place, are sorted into order. Beyond that the order is not transitive: an
integer of more bits ties with the float to which it is rounded, and through that float with other integers, and
values that cannot be compared all tie.
-/

namespace ObjectQuery

open Std FloatOrder

namespace Value

theorem compare_swap (a b : Value) :
    (compare b a).toOption = (compare a b).toOption.map (Option.map Ordering.swap) := by
  cases a <;> cases b <;> try rfl
  case bool.bool x y => cases x <;> cases y <;> rfl
  case int.int m n => simp [compare, Except.toOption, OrientedCmp.eq_swap (a := n)]
  case int.float n x => simp [compare, Except.toOption, compareFloat_swap (Float.ofInt n) x]
  case float.int x n => simp [compare, Except.toOption, compareFloat_swap x (Float.ofInt n)]
  case float.float x y => simp [compare, Except.toOption, compareFloat_swap x y]
  case text.text s t => simp [compare, Except.toOption, OrientedCmp.eq_swap (a := t)]

/-- Values that are not null are ordered as they compare, and tie where they do not. -/
theorem sortOrder_eq {a b : Value} (ha : a.isNull = false) (hb : b.isNull = false) :
    sortOrder a b = ((compare a b).toOption.getD none).getD .eq := by
  unfold sortOrder
  split
  · cases ha
  · cases ha
  · cases hb
  · rcases compare a b with _ | _ | _ <;> rfl

/-- The order can be asked from either side. -/
theorem sortOrder_swap (a b : Value) : sortOrder b a = (sortOrder a b).swap := by
  cases ha : a.isNull with
  | true =>
    obtain rfl : a = .null := by cases a <;> first | rfl | cases ha
    cases b <;> rfl
  | false =>
    cases hb : b.isNull with
    | true =>
      obtain rfl : b = .null := by cases b <;> first | rfl | cases hb
      cases a <;> rfl
    | false =>
      rw [sortOrder_eq ha hb, sortOrder_eq hb ha, compare_swap]
      rcases (compare a b).toOption with _ | _ | _ <;> rfl

instance : OrientedCmp sortOrder := ⟨sortOrder_swap _ _⟩

/-- A value ties with itself. -/
theorem sortOrder_self (a : Value) : sortOrder a a = .eq := ReflCmp.compare_self

end Value

namespace Value

inductive IsNumber : Value → Prop
  | int {n : Int} : n.natAbs < 2 ^ 53 → IsNumber (.int n)
  | float {x : Float} : x.isNaN = false → IsNumber (.float x)

def floatPlace : Value → Int × Int × Int
  | .int n => place n
  | .float x => key x.toModel.unpack
  | _ => (0, 0, 0)

instance : TransCmp fun a b : Value => byKey a.floatPlace b.floatPlace where
  eq_swap := OrientedCmp.eq_swap
  isLE_trans := TransCmp.isLE_trans

/-- Numbers are compared by their places. -/
theorem IsNumber.compare_eq {a b : Value} (ha : a.IsNumber) (hb : b.IsNumber) :
    compare a b = .ok (some (byKey a.floatPlace b.floatPlace)) := by
  cases ha with
  | @int m hm =>
    obtain ⟨number, place⟩ := isNaN_ofInt_and_key hm
    cases hb with
    | @int n hn => rw [floatPlace, floatPlace, byKey_place]; rfl
    | @float y hy =>
      rw [floatPlace, floatPlace, ← place, compare, compareFloat_eq_byKey number hy]
  | @float x hx =>
    cases hb with
    | @int n hn =>
      obtain ⟨number, place⟩ := isNaN_ofInt_and_key hn
      rw [floatPlace, floatPlace, ← place, compare, compareFloat_eq_byKey hx number]
    | @float y hy => rw [floatPlace, floatPlace, compare, compareFloat_eq_byKey hx hy]

end Value

inductive SortKind where
  | typed (type : KeyType)
  | number

namespace SortKind

def admits : SortKind → Value → Prop
  | .typed type, v => type.admits v
  | .number, v => v = .null ∨ v.IsNumber

def order : SortKind → Value → Value → Ordering
  | .typed _ => Value.totalOrder
  | .number => compareLex (compareOn fun v => !v.isNull) fun a b => byKey a.floatPlace b.floatPlace

instance : (k : SortKind) → TransCmp k.order
  | .typed _ => inferInstanceAs (TransCmp Value.totalOrder)
  | .number => inferInstanceAs (TransCmp (compareLex (compareOn fun v : Value => !v.isNull) fun a b =>
    byKey a.floatPlace b.floatPlace))

variable {k : SortKind} {a b c : Value}

/-- On values of a kind the order of rows is total. -/
theorem sortOrder_eq_order (ha : k.admits a) (hb : k.admits b) : Value.sortOrder a b = k.order a b := by
  cases k with
  | typed type => exact Value.sortOrder_eq_totalOrder ha hb
  | number =>
    rcases ha with rfl | ha <;> rcases hb with rfl | hb
    · rfl
    · cases hb <;> rfl
    · cases ha <;> rfl
    · have known : a.isNull = false ∧ b.isNull = false := by cases ha <;> cases hb <;> exact ⟨rfl, rfl⟩
      rw [Value.sortOrder_eq known.1 known.2, ha.compare_eq hb, order, compareLex, compareOn, known.1, known.2]
      rfl

/-- On values of a kind the order of rows is transitive. -/
theorem sortOrder_isLE_trans (ha : k.admits a) (hb : k.admits b) (hc : k.admits c)
    (first : (Value.sortOrder a b).isLE) (second : (Value.sortOrder b c).isLE) :
    (Value.sortOrder a c).isLE := by
  rw [sortOrder_eq_order ha hb] at first
  rw [sortOrder_eq_order hb hc] at second
  rw [sortOrder_eq_order ha hc]
  exact TransCmp.isLE_trans first second

/-- Through the float to which it is rounded an integer ties with a smaller one. -/
theorem sortOrder_rounded :
    Value.sortOrder (.int 9007199254740993) (.float 9007199254740992.0) = .eq ∧
    Value.sortOrder (.float 9007199254740992.0) (.int 9007199254740992) = .eq ∧
    Value.sortOrder (.int 9007199254740993) (.int 9007199254740992) = .gt := by
  decide +kernel

/-- A text ties with every integer, and so stands between any two. -/
theorem sortOrder_int_text (n : Int) (s : String) :
    Value.sortOrder (.int n) (.text s) = .eq ∧ Value.sortOrder (.text s) (.int n) = .eq := ⟨rfl, rfl⟩

def directed (k : SortKind) : Direction → Value → Value → Ordering
  | .ascending, a, b => k.order a b
  | .descending, a, b => k.order b a

instance (k : SortKind) : (d : Direction) → TransCmp (k.directed d)
  | .ascending => inferInstanceAs (TransCmp k.order)
  | .descending => inferInstanceAs (TransCmp fun a b => k.order b a)

end SortKind

namespace Eval

variable {kinds : List SortKind} {ds : List Direction} {as bs cs : List Value}

theorem compareKeys_ascending (a b : Value) : compareKeys [.ascending] [a] [b] = Value.sortOrder a b := by
  rw [compareKeys]
  cases Value.sortOrder a b <;> rfl

theorem compareKeys_descending (a b : Value) : compareKeys [.descending] [a] [b] = Value.sortOrder b a := by
  rw [compareKeys]
  cases Value.sortOrder b a <;> rfl

/-- The first key decides, and the others where it ties. -/
theorem compareKeys_cons (d : Direction) (ds : List Direction) (a b : Value) (as bs : List Value) :
    compareKeys (d :: ds) (a :: as) (b :: bs)
      = (compareKeys [d] [a] [b]).then (compareKeys ds as bs) := by
  cases d with
  | ascending => rw [compareKeys, compareKeys_ascending]; cases Value.sortOrder a b <;> rfl
  | descending => rw [compareKeys, compareKeys_descending]; cases Value.sortOrder b a <;> rfl

/-- Keys can be compared from either side. -/
theorem compareKeys_swap (ds : List Direction) (as bs : List Value) :
    compareKeys ds bs as = (compareKeys ds as bs).swap := by
  induction ds generalizing as bs with
  | nil => cases as <;> cases bs <;> rfl
  | cons d ds ih =>
    cases as with
    | nil => cases bs <;> rfl
    | cons a as =>
      cases bs with
      | nil => rfl
      | cons b bs =>
        have first : compareKeys [d] [b] [a] = (compareKeys [d] [a] [b]).swap := by
          cases d with
          | ascending => rw [compareKeys_ascending, compareKeys_ascending, Value.sortOrder_swap a b]
          | descending => rw [compareKeys_descending, compareKeys_descending, Value.sortOrder_swap b a]
        rw [compareKeys_cons, compareKeys_cons d ds a b, first, ih, Ordering.swap_then]

instance (ds : List Direction) : OrientedCmp (compareKeys ds) := ⟨compareKeys_swap ds _ _⟩

/-- Keys tie with themselves. -/
theorem compareKeys_self (ds : List Direction) (as : List Value) : compareKeys ds as as = .eq :=
  ReflCmp.compare_self

/-- On values of a kind one key is compared in its total order. -/
theorem compareKeys_singleton {k : SortKind} {d : Direction} {a b : Value} (ha : k.admits a) (hb : k.admits b) :
    compareKeys [d] [a] [b] = k.directed d a b := by
  cases d with
  | ascending => rw [compareKeys_ascending, SortKind.sortOrder_eq_order ha hb, SortKind.directed]
  | descending => rw [compareKeys_descending, SortKind.sortOrder_eq_order hb ha, SortKind.directed]

theorem isLE_then_trans {α : Type} {cmp : α → α → Ordering} [TransCmp cmp] {a b c : α} {p q r : Ordering}
    (rest : p.isLE → q.isLE → r.isLE) (first : ((cmp a b).then p).isLE) (second : ((cmp b c).then q).isLE) :
    ((cmp a c).then r).isLE := by
  cases hab : cmp a b with
  | gt => rw [hab] at first; cases first
  | eq =>
    rw [TransCmp.congr_left hab]
    rw [hab] at first
    cases hbc : cmp b c with
    | gt => rw [hbc] at second; cases second
    | eq => rw [hbc] at second; exact rest first second
    | lt => rfl
  | lt =>
    have le : (cmp b c).isLE := by
      cases hbc : cmp b c with
      | gt => rw [hbc] at second; cases second
      | eq | lt => rfl
    rw [TransCmp.lt_of_lt_of_isLE hab le]
    rfl

/-- The order of rows is transitive where the keys are of one kind in each place. -/
theorem compareKeys_isLE_trans (ha : List.Forall₂ SortKind.admits kinds as)
    (hb : List.Forall₂ SortKind.admits kinds bs) (hc : List.Forall₂ SortKind.admits kinds cs)
    (first : (compareKeys ds as bs).isLE) (second : (compareKeys ds bs cs).isLE) :
    (compareKeys ds as cs).isLE := by
  induction ha generalizing ds bs cs with
  | nil => cases hc; cases ds <;> rfl
  | cons ha _ ih =>
    cases hb with
    | cons hb hbs =>
      cases hc with
      | cons hc hcs =>
        cases ds with
        | nil => rfl
        | cons d ds =>
          rw [compareKeys_cons, compareKeys_singleton ha hb] at first
          rw [compareKeys_cons, compareKeys_singleton hb hc] at second
          rw [compareKeys_cons, compareKeys_singleton ha hc]
          exact isLE_then_trans (ih hbs hcs) first second

instance (kinds : List SortKind) (ds : List Direction) :
    TransCmp fun p q : { p : Produced // List.Forall₂ SortKind.admits kinds p.keys } =>
      compareKeys ds p.val.keys q.val.keys where
  eq_swap := compareKeys_swap _ _ _
  isLE_trans {p q r} := compareKeys_isLE_trans p.property q.property r.property

/-- Rows whose keys are of one kind in each place come out in order, and none is lost. -/
theorem arrange_inOrder (s : Select Expr) {produced : List Produced}
    (admitted : ∀ p ∈ produced, List.Forall₂ SortKind.admits kinds p.keys) :
    ∃ sorted : List Produced,
      sorted.Perm (if s.distinct then distinctBy (·.row.values) produced else produced) ∧
      InOrder (fun p q => compareKeys (s.orderBy.map (·.direction)) p.keys q.keys) sorted ∧
      arrange s produced = if s.reversed then (sorted.map (·.row)).reverse else sorted.map (·.row) := by
  refine ⟨sortWith _ _, sortWith_perm _ _, inOrder_sortWith_of fun p hp => admitted p ?_, rfl⟩
  split at hp
  · exact distinctBy_subset _ _ hp
  · exact hp

end Eval

end ObjectQuery
