import ObjectQuery.Rewrite.Paging
import Mathlib.Data.List.Perm.Subperm

/-!
Names that are chosen are not taken, and no chosen name is that of the column of row numbers. A
column is found by a name that it has for itself.
-/

namespace ObjectQuery

namespace Names

theorem toString_injective {m n : Nat} (h : toString m = toString n) : m = n := by
  have digits : Nat.toDigits 10 m = Nat.toDigits 10 n := by
    simpa [Nat.toString_eq_ofList_toDigits] using congrArg String.toList h
  rw [← Nat.ofDigitChars_ten_toDigits (n := m), digits, Nat.ofDigitChars_ten_toDigits]

theorem append_toString_ne (base : String) (n : Nat) : base ++ toString n ≠ base := by
  intro h
  have digits := congrArg (fun s => s.toList.length) h
  simp only [String.toList_append, List.length_append, Nat.toString_eq_ofList_toDigits,
    String.toList_ofList] at digits
  have := Nat.length_toDigits_pos (b := 10) (n := n)
  omega

theorem append_toString_injective (base : String) {m n : Nat}
    (h : base ++ toString m = base ++ toString n) : m = n := by
  have lists := congrArg String.toList h
  simp only [String.toList_append, List.append_cancel_left_eq] at lists
  exact toString_injective (String.toList_inj.mp lists)

theorem candidate_injective (base : String) {m n : Nat} (h : candidate base m = candidate base n) :
    m = n := by
  cases m with
  | zero =>
    cases n with
    | zero => rfl
    | succ n => exact absurd h.symm (append_toString_ne base (n + 1))
  | succ m =>
    cases n with
    | zero => exact absurd h (append_toString_ne base (m + 1))
    | succ n => exact append_toString_injective base h

/-- Of more numbers than names are taken, one leads to a name that is not taken. -/
theorem find?_spec (taken : List String) (numbers : List Nat) {name : Nat → String}
    (injective : ∀ {m n}, name m = name n → m = n) (nodup : numbers.Nodup)
    (more : taken.length < numbers.length) :
    ∃ n, numbers.find? (fun n => !taken.contains (name n)) = some n ∧ name n ∉ taken := by
  cases found : numbers.find? (fun n => !taken.contains (name n)) with
  | some n => exact ⟨n, rfl, by simpa using List.find?_some found⟩
  | none =>
    have names : (numbers.map name).Nodup := List.Pairwise.map _ (fun _ _ ne h => ne (injective h)) nodup
    have all : numbers.map name ⊆ taken := by
      intro a ha
      obtain ⟨n, hn, rfl⟩ := List.mem_map.mp ha
      simpa using List.find?_eq_none.mp found n hn
    have := (names.subperm all).length_le
    rw [List.length_map] at this
    omega

theorem available_spec (taken : List String) (base : String) :
    ∃ n, available taken base = candidate base n ∧ available taken base ∉ taken := by
  obtain ⟨n, found, free⟩ := find?_spec taken (List.range (taken.length + 1))
    (candidate_injective base) List.nodup_range (by simp)
  refine ⟨n, ?_⟩
  simp only [available, List.find?_map, Function.comp_def, found, Option.map_some, Option.getD_some]
  exact ⟨trivial, free⟩

theorem nextNumber_not_mem (taken : List String) (start : Nat) :
    "c" ++ toString (nextNumber taken start) ∉ taken := by
  obtain ⟨n, found, free⟩ := find?_spec taken
    ((List.range (taken.length + 1)).map (start + ·)) (append_toString_injective "c")
    (List.Pairwise.map _ (fun _ _ ne h => ne (Nat.add_left_cancel h)) List.nodup_range) (by simp)
  rw [nextNumber, found]
  exact free

theorem append_toString_ne_columnName (base : String) (n : Nat) :
    base ++ toString n ≠ RowNumbers.columnName := by
  intro h
  have lists := congrArg String.toList h
  rw [String.toList_append, Nat.toString_eq_ofList_toDigits, String.toList_ofList] at lists
  have last := congrArg List.getLast? lists
  rw [List.getLast?_append_of_ne_nil _ Nat.toDigits_ne_nil] at last
  have digit : ('m' : Char).isDigit := by
    refine Nat.isDigit_of_mem_toDigits (b := 10) (n := n) (by decide) (by decide) ?_
    exact List.mem_of_getLast? last
  exact absurd digit (by decide)

theorem available_ne {taken : List String} {base : String} (h : base ≠ RowNumbers.columnName) :
    available taken base ≠ RowNumbers.columnName := by
  obtain ⟨n, hn, -⟩ := available_spec taken base
  rw [hn]
  cases n with
  | zero => exact h
  | succ n => exact append_toString_ne_columnName base (n + 1)

end Names

/-- Where no two columns share a name, each is found by its own. -/
theorem ColumnDecl.find?_name {columns : List (ColumnDecl Expr)} (nodup : (columns.map (·.name)).Nodup)
    {d : ColumnDecl Expr} (hd : d ∈ columns) : columns.find? (·.name == d.name) = some d := by
  induction columns with
  | nil => simp at hd
  | cons c rest ih =>
    rw [List.map_cons, List.nodup_cons] at nodup
    rcases List.mem_cons.mp hd with rfl | hd
    · simp
    · have other : c.name ≠ d.name := fun h => nodup.1 (h ▸ List.mem_map_of_mem hd)
      rw [List.find?_cons_of_neg (by simpa using other)]
      exact ih nodup.2 hd

end ObjectQuery
