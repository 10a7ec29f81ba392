import ObjectQuery.Eval.Relation
import Mathlib.Data.List.Perm.Subperm

/-!
The stable sort, for orders in which any two items can be compared. The result is pinned down by two
facts: it is in order, and the items that tie with any given item keep their order. Every other law
of the sort follows from that.
-/

namespace ObjectQuery.Eval

open Std

variable {α β : Type}

def sortWith (cmp : α → α → Ordering) (items : List α) : List α :=
  sortStable (fun a b => cmp a b == .lt) items

abbrev InOrder (cmp : α → α → Ordering) (items : List α) : Prop :=
  items.Pairwise fun a b => cmp a b ≠ .gt

def tied (cmp : α → α → Ordering) (x : α) (items : List α) : List α :=
  items.filter fun a => cmp x a == .eq

section Insertion

variable {less less' : α → α → Bool}

theorem insertFromEnd_perm (a : α) (items : List α) :
    (insertFromEnd less a items).Perm (a :: items) := by
  induction items with
  | nil => exact List.Perm.refl _
  | cons b rest ih =>
    rw [insertFromEnd]
    split
    · exact (ih.cons b).trans (List.Perm.swap a b rest)
    · exact List.Perm.refl _

theorem foldl_insertFromEnd_perm (items sorted : List α) :
    (items.foldl (fun sorted a => insertFromEnd less a sorted) sorted).Perm (items ++ sorted) := by
  induction items generalizing sorted with
  | nil => exact List.Perm.refl _
  | cons a rest ih =>
    have step := (ih (insertFromEnd less a sorted)).trans
      ((insertFromEnd_perm a sorted).append_left rest)
    exact step.trans List.perm_middle

theorem sortStable_perm (items : List α) : (sortStable less items).Perm items := by
  rw [sortStable]
  refine (List.reverse_perm _).trans ?_
  simpa using foldl_insertFromEnd_perm items []

theorem insertFromEnd_map (f : α → β) {less' : β → β → Bool}
    (h : ∀ a b, less' (f a) (f b) = less a b) (a : α) (items : List α) :
    insertFromEnd less' (f a) (items.map f) = (insertFromEnd less a items).map f := by
  induction items with
  | nil => rfl
  | cons b rest ih =>
    simp only [List.map_cons, insertFromEnd, h]
    split
    · rw [List.map_cons, ih]
    · rfl

/-- A sort moves items without looking at more of them than the comparison does. -/
theorem sortStable_map (f : α → β) {less' : β → β → Bool}
    (h : ∀ a b, less' (f a) (f b) = less a b) (items : List α) :
    sortStable less' (items.map f) = (sortStable less items).map f := by
  have step : ∀ sorted : List α,
      (items.map f).foldl (fun sorted a => insertFromEnd less' a sorted) (sorted.map f)
        = (items.foldl (fun sorted a => insertFromEnd less a sorted) sorted).map f := by
    induction items with
    | nil => intro sorted; rfl
    | cons a rest ih =>
      intro sorted
      rw [List.map_cons, List.foldl_cons, insertFromEnd_map f h, ih]
      rfl
  rw [sortStable, sortStable, List.map_reverse, ← step []]
  rfl

theorem insertFromEnd_congr {a : α} {items : List α} (h : ∀ b ∈ items, less a b = less' a b) :
    insertFromEnd less a items = insertFromEnd less' a items := by
  induction items with
  | nil => rfl
  | cons b rest ih =>
    rw [insertFromEnd, insertFromEnd, h b (by simp), ih fun c hc => h c (by simp [hc])]

theorem sortStable_congr {items : List α}
    (h : ∀ a ∈ items, ∀ b ∈ items, less a b = less' a b) :
    sortStable less items = sortStable less' items := by
  have step : ∀ done todo : List α, done ++ todo = items →
      ∀ sorted : List α, sorted.Perm done →
      todo.foldl (fun sorted a => insertFromEnd less a sorted) sorted
        = todo.foldl (fun sorted a => insertFromEnd less' a sorted) sorted := by
    intro done todo
    induction todo generalizing done with
    | nil => intro _ sorted _; rfl
    | cons a rest ih =>
      intro parts sorted hp
      have here : insertFromEnd less a sorted = insertFromEnd less' a sorted := by
        refine insertFromEnd_congr fun b hb => h a ?_ b ?_
        · rw [← parts]; simp
        · rw [← parts]; exact List.mem_append_left _ (hp.mem_iff.mp hb)
      rw [List.foldl_cons, List.foldl_cons, ← here]
      refine ih (done ++ [a]) (by rw [← parts]; simp) _ ?_
      exact (insertFromEnd_perm a sorted).trans
        ((hp.cons a).trans (List.perm_append_singleton a done).symm)
  rw [sortStable, sortStable, step [] items rfl [] (List.Perm.refl _)]

end Insertion

theorem sortWith_perm (cmp : α → α → Ordering) (items : List α) :
    (sortWith cmp items).Perm items := sortStable_perm items

@[simp] theorem mem_sortWith {cmp : α → α → Ordering} {items : List α} {a : α} :
    a ∈ sortWith cmp items ↔ a ∈ items := (sortWith_perm cmp items).mem_iff

theorem sortWith_map (cmp : β → β → Ordering) (f : α → β) (items : List α) :
    sortWith cmp (items.map f) = (sortWith (fun a b => cmp (f a) (f b)) items).map f :=
  sortStable_map f (fun _ _ => rfl) items

theorem sortWith_congr {cmp cmp' : α → α → Ordering} {items : List α}
    (h : ∀ a ∈ items, ∀ b ∈ items, cmp a b = cmp' a b) :
    sortWith cmp items = sortWith cmp' items :=
  sortStable_congr fun a ha b hb => by rw [h a ha b hb]

section Total

variable {cmp : α → α → Ordering} [TransCmp cmp]

theorem tied_insertFromEnd (x a : α) (items : List α) :
    tied cmp x (insertFromEnd (fun a b => cmp a b == .lt) a items) = tied cmp x (a :: items) := by
  induction items with
  | nil => rfl
  | cons b rest ih =>
    rw [insertFromEnd]
    split
    · rename_i less
      have hab : cmp a b = .lt := by simpa using less
      by_cases hxa : cmp x a = .eq
      · -- The item passes only greater ones, which do not tie with it.
        have hxb : cmp x b = .lt := by rw [TransCmp.congr_left hxa]; exact hab
        simp only [tied] at ih ⊢
        rw [List.filter_cons, ih]
        simp [hxa, hxb]
      · simp only [tied] at ih ⊢
        rw [List.filter_cons, ih]
        simp [hxa, List.filter_cons]
    · rfl

theorem tied_foldl_insertFromEnd (x : α) (items sorted : List α) :
    tied cmp x (items.foldl (fun sorted a => insertFromEnd (fun a b => cmp a b == .lt) a sorted) sorted)
      = tied cmp x (items.reverse ++ sorted) := by
  induction items generalizing sorted with
  | nil => rfl
  | cons a rest ih =>
    rw [List.foldl_cons, ih]
    have h : tied cmp x _ = _ := tied_insertFromEnd x a sorted
    simp only [tied, List.filter_append, List.reverse_cons, List.append_assoc] at h ⊢
    rw [h]
    simp [List.filter_cons]
    split <;> rfl

/-- Items that tie keep their order. -/
theorem tied_sortWith (x : α) (items : List α) :
    tied cmp x (sortWith cmp items) = tied cmp x items := by
  have h : tied cmp x _ = _ := tied_foldl_insertFromEnd x items []
  simp only [tied, List.append_nil, List.filter_reverse] at h
  simp only [sortWith, sortStable, tied, List.filter_reverse]
  rw [h, List.reverse_reverse]

theorem inOrder_insertFromEnd {a : α} {items : List α} (h : InOrder cmp items.reverse) :
    InOrder cmp (insertFromEnd (fun a b => cmp a b == .lt) a items).reverse := by
  induction items with
  | nil => simp [insertFromEnd]
  | cons b rest ih =>
    rw [List.reverse_cons, InOrder, List.pairwise_append] at h
    obtain ⟨hrest, -, hb⟩ := h
    have hb : ∀ c ∈ rest, cmp c b ≠ .gt := fun c hc => hb c (by simpa using hc) b (by simp)
    rw [insertFromEnd]
    split
    · rename_i less
      have hab : cmp a b = .lt := by simpa using less
      rw [List.reverse_cons, InOrder, List.pairwise_append]
      refine ⟨ih hrest, List.pairwise_singleton _ _, fun c hc d hd => ?_⟩
      obtain rfl := List.mem_singleton.mp hd
      rw [List.mem_reverse, (insertFromEnd_perm a rest).mem_iff, List.mem_cons] at hc
      rcases hc with rfl | hc
      · simp [hab]
      · exact hb c hc
    · rename_i less
      have hba : cmp b a ≠ .gt := by
        intro hgt
        rw [OrientedCmp.gt_iff_lt] at hgt
        simp [hgt] at less
      rw [List.reverse_cons, InOrder, List.pairwise_append]
      refine ⟨?_, List.pairwise_singleton _ _, fun c hc d hd => ?_⟩
      · rw [List.reverse_cons, List.pairwise_append]
        exact ⟨hrest, List.pairwise_singleton _ _, fun c hc d hd => by
          obtain rfl := List.mem_singleton.mp hd
          exact hb c (by simpa using hc)⟩
      · obtain rfl := List.mem_singleton.mp hd
        rw [List.mem_reverse, List.mem_cons] at hc
        rcases hc with rfl | hc
        · exact hba
        · exact Ordering.ne_gt_iff_isLE.mpr (TransCmp.isLE_trans
            (Ordering.ne_gt_iff_isLE.mp (hb c hc)) (Ordering.ne_gt_iff_isLE.mp hba))

theorem inOrder_sortWith (items : List α) : InOrder cmp (sortWith cmp items) := by
  have step : ∀ sorted : List α, InOrder cmp sorted.reverse →
      InOrder cmp (items.foldl (fun sorted a =>
        insertFromEnd (fun a b => cmp a b == .lt) a sorted) sorted).reverse := by
    induction items with
    | nil => exact fun _ h => h
    | cons a rest ih => exact fun sorted h => ih _ (inOrder_insertFromEnd h)
  exact step [] List.Pairwise.nil

/-- Two lists in order with the same ties are the same. -/
theorem eq_of_inOrder_of_tied {xs ys : List α} (hx : InOrder cmp xs) (hy : InOrder cmp ys)
    (h : ∀ x, x ∈ xs ∨ x ∈ ys → tied cmp x xs = tied cmp x ys) : xs = ys := by
  induction xs generalizing ys with
  | nil =>
    cases ys with
    | nil => rfl
    | cons b ys => simpa [tied, ReflCmp.compare_self] using h b (by simp)
  | cons a xs ih =>
    cases ys with
    | nil => simpa [tied, ReflCmp.compare_self] using h a (by simp)
    | cons b ys =>
      rw [InOrder, List.pairwise_cons] at hx hy
      have tie : cmp a b = .eq := by
        -- Each head ties with an item of the other list, so neither is greater.
        have hb : b ∈ a :: xs := by
          have : b ∈ tied cmp b (a :: xs) := by
            rw [h b (by simp)]
            simp [tied, ReflCmp.compare_self]
          exact List.mem_of_mem_filter this
        have ha : a ∈ b :: ys := by
          have : a ∈ tied cmp a (b :: ys) := by
            rw [← h a (by simp)]
            simp [tied, ReflCmp.compare_self]
          exact List.mem_of_mem_filter this
        have hab : cmp a b ≠ .gt := by
          rcases List.mem_cons.mp hb with rfl | hb
          · simp [ReflCmp.compare_self]
          · exact hx.1 b hb
        have hba : cmp b a ≠ .gt := by
          rcases List.mem_cons.mp ha with rfl | ha
          · simp [ReflCmp.compare_self]
          · exact hy.1 a ha
        rw [Ne, OrientedCmp.gt_iff_lt] at hba
        cases hc : cmp a b <;> simp_all
      have heads : a :: tied cmp a xs = b :: tied cmp a ys := by
        simpa [tied, ReflCmp.compare_self, tie] using h a (by simp)
      obtain ⟨rfl, -⟩ := List.cons.inj heads
      refine congrArg (a :: ·) (ih hx.2 hy.2 fun x hm => ?_)
      have hxs := h x (hm.imp (List.mem_cons_of_mem _) (List.mem_cons_of_mem _))
      simp only [tied, List.filter_cons] at hxs ⊢
      split at hxs
      · exact (List.cons.inj hxs).2
      · exact hxs

/-- What the sort is: the list in order with the ties of the items. -/
theorem sortWith_eq {items result : List α} (order : InOrder cmp result)
    (ties : ∀ x, x ∈ items ∨ x ∈ result → tied cmp x result = tied cmp x items) :
    sortWith cmp items = result :=
  eq_of_inOrder_of_tied (inOrder_sortWith items) order fun x hx => by
    rw [tied_sortWith, ties x (by simpa using hx)]

theorem sortWith_of_inOrder {items : List α} (h : InOrder cmp items) : sortWith cmp items = items :=
  sortWith_eq h fun _ _ => rfl

theorem sortWith_filter (p : α → Bool) (items : List α) :
    sortWith cmp (items.filter p) = (sortWith cmp items).filter p := by
  refine sortWith_eq ((inOrder_sortWith items).sublist List.filter_sublist) fun x _ => ?_
  have h : tied cmp x (sortWith cmp items) = tied cmp x items := tied_sortWith x items
  simp only [tied] at h ⊢
  rw [List.filter_comm, h, List.filter_comm]

theorem sortWith_eq_self_of_tied {items : List α} (h : ∀ a ∈ items, ∀ b ∈ items, cmp a b = .eq) :
    sortWith cmp items = items := by
  refine sortWith_of_inOrder (List.pairwise_of_forall_mem_list fun a ha b hb => ?_)
  simp [h a ha b hb]

/-- Sorting by one order after another is sorting by both at once, the last one first. -/
theorem sortWith_sortWith {cmp' : α → α → Ordering} [TransCmp cmp'] (items : List α) :
    sortWith cmp (sortWith cmp' items) = sortWith (compareLex cmp cmp') items := by
  refine sortWith_eq ?_ fun x _ => ?_
  · refine (inOrder_sortWith items).imp fun {a b} h => ?_
    intro hab
    simp [compareLex, hab] at h
  · have classes : ∀ a ∈ tied cmp x items, ∀ b ∈ tied cmp x items,
        compareLex cmp cmp' a b = cmp' a b := by
      intro a ha b hb
      simp only [tied, List.mem_filter, beq_iff_eq] at ha hb
      have hab : cmp a b = .eq := TransCmp.eq_trans (OrientedCmp.eq_symm ha.2) hb.2
      simp [compareLex, hab]
    simp only [tied] at classes ⊢
    rw [← sortWith_filter, ← sortWith_filter]
    exact sortWith_congr classes

end Total

/-- Items among which the comparison is an order come out in order. -/
theorem inOrder_sortWith_of {cmp : α → α → Ordering} {p : α → Prop}
    [TransCmp fun a b : { a // p a } => cmp a.val b.val] {items : List α} (h : ∀ a ∈ items, p a) :
    InOrder cmp (sortWith cmp items) := by
  have within : InOrder (fun a b : { a // p a } => cmp a.val b.val) _ := inOrder_sortWith (items.attachWith p h)
  have same := sortWith_map cmp Subtype.val (items.attachWith p h)
  rw [List.attachWith_map_subtype_val] at same
  rw [same, InOrder, List.pairwise_map]
  exact within

end ObjectQuery.Eval
