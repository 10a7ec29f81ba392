import ObjectQuery.Proofs.Stack

/-!
Row numbers. Keeping the rows whose numbers lie in a page is paging the ordered rows, up to the order
in which the rows are left.
-/

namespace ObjectQuery

open Eval Std

def Layer.admits (l : Layer) (number : Nat) : Bool :=
  decide (l.skip.getD 0 < number) && l.take.all fun n => decide (number ≤ l.skip.getD 0 + n)

def ranks {α : Type} (sorted : List (α × Nat)) : List (Nat × Nat) :=
  sorted.zipIdx.map fun x => (x.1.2, x.2 + 1)

section Positions

variable {α : Type} {l : Layer}

theorem take_zipIdx (items : List α) (start count : Nat) :
    (items.zipIdx start).take count
      = (items.zipIdx start).filter fun x => decide (x.2 < start + count) := by
  induction items generalizing start count with
  | nil => simp
  | cons a rest ih =>
    cases count with
    | zero =>
      rw [List.take_zero, eq_comm, List.filter_eq_nil_iff]
      rintro ⟨x, i⟩ hx
      have := (List.mem_zipIdx hx).1
      simp
      omega
    | succ count =>
      have shift : start + 1 + count = start + (count + 1) := by omega
      rw [List.zipIdx_cons, List.take_succ_cons, ih, List.filter_cons, shift]
      simp

theorem drop_zipIdx (items : List α) (start count : Nat) :
    (items.zipIdx start).drop count
      = (items.zipIdx start).filter fun x => decide (start + count ≤ x.2) := by
  induction items generalizing start count with
  | nil => simp
  | cons a rest ih =>
    cases count with
    | zero =>
      rw [List.drop_zero, eq_comm, List.filter_eq_self]
      rintro ⟨x, i⟩ hx
      simpa using (List.mem_zipIdx hx).1
    | succ count =>
      have shift : start + 1 + count = start + (count + 1) := by omega
      rw [List.zipIdx_cons, List.drop_succ_cons, ih, List.filter_cons, shift]
      simp

theorem take_drop_zipIdx (items : List α) (start skip count : Nat) :
    ((items.zipIdx start).drop skip).take count = (items.zipIdx start).filter fun x =>
      decide (start + skip ≤ x.2) && decide (x.2 < start + skip + count) := by
  induction items generalizing start skip with
  | nil => simp
  | cons a rest ih =>
    cases skip with
    | zero =>
      rw [List.drop_zero, take_zipIdx]
      refine List.filter_congr fun x hx => ?_
      have := (List.mem_zipIdx hx).1
      simp [this]
    | succ skip =>
      have shift : start + 1 + skip = start + (skip + 1) := by omega
      have head : (decide (start + (skip + 1) ≤ start)
          && decide (start < start + (skip + 1) + count)) = false := by
        rw [decide_eq_false (by omega), Bool.false_and]
      rw [List.zipIdx_cons, List.drop_succ_cons, ih, List.filter_cons, shift, head, if_neg Bool.false_ne_true]

/-- A page holds the items whose numbers lie in it. -/
theorem page_zipIdx (items : List α) :
    l.page items.zipIdx = items.zipIdx.filter fun x => l.admits (x.2 + 1) := by
  cases ht : l.take with
  | none =>
    rw [Layer.page, ht, drop_zipIdx]
    refine List.filter_congr fun x _ => ?_
    rw [Layer.admits, ht, Option.all_none, Bool.and_true, Nat.zero_add]
    exact decide_eq_decide.mpr Nat.lt_succ_iff.symm
  | some n =>
    rw [Layer.page, ht]
    refine (take_drop_zipIdx items 0 _ n).trans (List.filter_congr fun x _ => ?_)
    have above : decide (l.skip.getD 0 ≤ x.2) = decide (l.skip.getD 0 < x.2 + 1) :=
      decide_eq_decide.mpr Nat.lt_succ_iff.symm
    have below : decide (x.2 < l.skip.getD 0 + n) = decide (x.2 + 1 ≤ l.skip.getD 0 + n) :=
      decide_eq_decide.mpr Nat.succ_le_iff.symm
    rw [Layer.admits, ht, Option.all_some, Nat.zero_add, above, below]

theorem lookup_ranks {sorted : List (α × Nat)} (nodup : (sorted.map (·.2)).Nodup) {x : α × Nat}
    {position : Nat} (h : (x, position) ∈ sorted.zipIdx) :
    (ranks sorted).lookup x.2 = some (position + 1) := by
  rw [ranks]
  generalize 0 = start at h ⊢
  induction sorted generalizing start with
  | nil => simp at h
  | cons y rest ih =>
    rw [List.map_cons, List.nodup_cons] at nodup
    rw [List.zipIdx_cons] at h ⊢
    rw [List.map_cons]
    rcases List.mem_cons.mp h with h | h
    · cases h
      simp
    · have other : x.2 ≠ y.2 := fun same => nodup.1 (same ▸ List.mem_map_of_mem (List.fst_mem_of_mem_zipIdx h))
      rw [List.lookup_cons, beq_false_of_ne other]
      exact ih nodup.2 _ h

/-- The page of a list that was sorted, by the numbers that this gives to its items. -/
theorem page_eq_filter {sorted : List (α × Nat)} (nodup : (sorted.map (·.2)).Nodup) :
    l.page sorted = sorted.filter fun x => ((ranks sorted).lookup x.2).any l.admits := by
  have whole : sorted.zipIdx.map (·.1) = sorted := List.zipIdx_map_fst 0 sorted
  have page : l.page sorted = (l.page sorted.zipIdx).map (·.1) := by
    rw [← Feed.page_map, whole]
  rw [page, page_zipIdx]
  conv_rhs => rw [← whole, List.filter_map]
  congr 1
  refine List.filter_congr fun x hx => ?_
  simp [lookup_ranks nodup hx]

end Positions

section Numbers

variable {α : Type} {cmp : α → α → Ordering} [TransCmp cmp] {l : Layer}

def sortedIndexed (cmp : α → α → Ordering) (items : List α) : List (α × Nat) :=
  sortWith (fun x y => cmp x.1 y.1) items.zipIdx

def numberOf (cmp : α → α → Ordering) (items : List α) (index : Nat) : Option Nat :=
  (ranks (sortedIndexed cmp items)).lookup index

def onPage (cmp : α → α → Ordering) (l : Layer) (items : List α) : List (α × Nat) :=
  items.zipIdx.filter fun x => (numberOf cmp items x.2).any l.admits

theorem sortWith_onPage (items : List α) :
    sortWith cmp ((onPage cmp l items).map (·.1)) = l.page (sortWith cmp items) := by
  have : TransCmp fun x y : α × Nat => cmp x.1 y.1 :=
    { eq_swap := OrientedCmp.eq_swap, isLE_trans := TransCmp.isLE_trans }
  have nodup : ((sortedIndexed cmp items).map (·.2)).Nodup := by
    rw [sortedIndexed, ((sortWith_perm _ items.zipIdx).map (·.2)).nodup_iff, List.zipIdx_map_snd]
    exact List.nodup_range'
  have sorted : sortWith cmp items = (sortedIndexed cmp items).map (·.1) := by
    rw [sortedIndexed, ← sortWith_map, List.zipIdx_map_fst]
  calc sortWith cmp ((onPage cmp l items).map (·.1))
    _ = (sortWith (fun x y => cmp x.1 y.1) (onPage cmp l items)).map (·.1) := sortWith_map _ _ _
    _ = (l.page (sortedIndexed cmp items)).map (·.1) := by
      rw [page_eq_filter nodup, onPage, sortWith_filter]
      rfl
    _ = l.page (sortWith cmp items) := by rw [← Feed.page_map, ← sorted]

end Numbers

section Scopes

variable {keys : List (Direction × (Row → Value))} {rows : List Row}

/-- The scopes of rows that are numbered by keys that compare. -/
theorem numberScopes_eq
    (typed : ∀ k ∈ keys, ∃ type : KeyType, ∀ row ∈ rows, type.admits (k.2 row))
    (scope : Row → Scope) :
    numberScopes (keys.map (·.1)) (rows.map fun row => (keys.map (·.2 row), scope row))
      = rows.zipIdx.map fun x =>
        { scope x.1 with rowNumber := numberOf (byKeys keys) rows x.2 } := by
  have indexed : (rows.map fun row => (keys.map (·.2 row), scope row)).zipIdx
      = rows.zipIdx.map fun x => ((keys.map (·.2 x.1), scope x.1), x.2) := by
    rw [List.zipIdx_map]
    rfl
  have sorted : sortStable (fun a b => compareKeys (keys.map (·.1)) a.1.1 b.1.1 == .lt)
      (rows.zipIdx.map fun x => ((keys.map (·.2 x.1), scope x.1), x.2))
      = (sortedIndexed (byKeys keys) rows).map fun x => ((keys.map (·.2 x.1), scope x.1), x.2) := by
    rw [sortStable_map _ fun _ _ => rfl]
    congr 1
    refine sortStable_congr fun x hx y hy => ?_
    rw [compareKeys_eq_byKeys fun k hk => ?_]
    obtain ⟨type, admits⟩ := typed k hk
    exact ⟨type, admits _ (List.fst_mem_of_mem_zipIdx hx), admits _ (List.fst_mem_of_mem_zipIdx hy)⟩
  simp only [numberScopes, indexed, sorted, List.map_map, numberOf, ranks, List.zipIdx_map]
  rfl

end Scopes

end ObjectQuery
