import ObjectQuery.Columns
import ObjectQuery.Proofs.Naming
import ObjectQuery.Tree.Member

/-!
Names are looked for by trying one candidate after the other, without a bound. The search ends: candidates
differ from one another, so no more of them are tried than names are taken, and one more. It ends with the
first candidate that is free, however the names are kept. Numbers for columns without a name are looked for
from where the last search stopped, so none is given twice.
-/

namespace ObjectQuery

namespace Names

/-- What a loop ends with: a round goes on with another state, or ends the loop with a result. A loop that does
not end has no result. -/
inductive Rounds {σ α : Type} (round : σ → σ ⊕ α) : σ → α → Prop
  | done {s : σ} {a : α} : round s = .inr a → Rounds round s a
  | next {s s' : σ} {a : α} : round s = .inl s' → Rounds round s' a → Rounds round s a

def round (taken : String → Bool) (base : String) : String × Nat → (String × Nat) ⊕ String
  | (name, n) => if taken name then .inl (base ++ toString n, n + 1) else .inr name

def Search (taken : String → Bool) (base : String) : String → Prop :=
  Rounds (round taken base) (base, 1)

def numberRound (taken : String → Bool) (n : Nat) : Nat ⊕ (String × Nat) :=
  let name := "c" ++ toString n
  if taken name then .inl (n + 1) else .inr (name, n + 1)

/-- The search for a number, from `n` on, whose name is not taken. It ends with that name and the number to be
tried next. -/
def NumberSearch (taken : String → Bool) (n : Nat) : String × Nat → Prop :=
  Rounds (numberRound taken) n

/-- The first candidate that is not taken. Its number is not above the number of names taken. -/
def IsFirst (taken : List String) (base name : String) : Prop :=
  ∃ n ≤ taken.length, name = candidate base n ∧ name ∉ taken ∧ ∀ k < n, candidate base k ∈ taken

/-- Of names that all differ, the first that is not taken has at most as many before it as are taken. -/
theorem exists_first (taken : List String) (name : Nat → String)
    (injective : ∀ {m n}, name m = name n → m = n) :
    ∃ n ≤ taken.length, (List.range (taken.length + 1)).find? (fun n => !taken.contains (name n)) = some n
      ∧ name n ∉ taken ∧ ∀ k < n, name k ∈ taken := by
  obtain ⟨n, found, free⟩ := find?_spec taken (List.range (taken.length + 1)) injective List.nodup_range (by simp)
  obtain ⟨-, within, before⟩ := List.find?_range_eq_some.mp found
  refine ⟨n, Nat.le_of_lt_succ (List.mem_range.mp within), found, free, fun k hk => ?_⟩
  simpa using before k hk

theorem isFirst_available (taken : List String) (base : String) :
    IsFirst taken base (available taken base) := by
  obtain ⟨n, le, found, free, before⟩ := exists_first taken (candidate base) (candidate_injective base)
  have named : available taken base = candidate base n := by
    simp only [available, List.find?_map, Function.comp_def, found, Option.map_some, Option.getD_some]
  exact ⟨n, le, named, named ▸ free, before⟩

/-- A name that has a number already stands in the way of the search. -/
example : available ["ID", "Name", "ID1"] "ID" = "ID2" := by cbv

theorem nextNumber_first (taken : List String) (start : Nat) :
    ∃ n, nextNumber taken start = start + n ∧ "c" ++ toString (start + n) ∉ taken
      ∧ ∀ k < n, "c" ++ toString (start + k) ∈ taken := by
  obtain ⟨n, -, found, free, before⟩ := exists_first taken (fun n => "c" ++ toString (start + n))
    fun h => Nat.add_left_cancel (append_toString_injective "c" h)
  refine ⟨n, ?_, free, before⟩
  simp only [nextNumber, List.find?_map, Function.comp_def, found, Option.map_some, Option.getD_some]

section Rounds

variable {σ α : Type} {round : σ → σ ⊕ α}

theorem rounds_done {s : σ} {b : α} (h : round s = .inr b) {a : α} : Rounds round s a ↔ a = b := by
  refine ⟨fun run => ?_, fun same => .done (same ▸ h)⟩
  cases run with
  | done h' => exact Sum.inr.inj (h'.symm.trans h)
  | next h' _ => exact absurd (h'.symm.trans h) (by simp)

theorem rounds_next {s s' : σ} (h : round s = .inl s') {a : α} : Rounds round s a ↔ Rounds round s' a := by
  refine ⟨fun run => ?_, .next h⟩
  cases run with
  | done h' => exact absurd (h'.symm.trans h) (by simp)
  | next h' run =>
    cases Sum.inl.inj (h'.symm.trans h)
    exact run

/-- What is tried number by number until one is free ends at the first that is free, and nowhere else. -/
theorem rounds_iff (state : Nat → σ) (found : Nat → α) (taken : Nat → Bool)
    (step : ∀ k, round (state k) = if taken k then .inl (state (k + 1)) else .inr (found k)) {n k : Nat}
    (free : taken (k + n) = false) (before : ∀ i < n, taken (k + i) = true) {a : α} :
    Rounds round (state k) a ↔ a = found (k + n) := by
  induction n generalizing k with
  | zero =>
    have free : taken k = false := free
    have last : round (state k) = .inr (found k) := by rw [step, free, if_neg (by decide)]
    exact rounds_done last
  | succ n ih =>
    have tried : taken k = true := before 0 (Nat.zero_lt_succ n)
    have on : round (state k) = .inl (state (k + 1)) := by rw [step, tried, if_pos rfl]
    have later : ∀ i, k + 1 + i = k + (i + 1) := by omega
    rw [rounds_next on, ← later n]
    exact ih (later n ▸ free) fun i hi => later i ▸ before (i + 1) (Nat.succ_lt_succ hi)

end Rounds

variable {taken : String → Bool} {names : List String}

/-- However the names are kept, a search ends, and with nothing but the name that is available. -/
theorem search_iff (same : ∀ name, taken name = names.contains name) {base result : String} :
    Search taken base result ↔ result = available names base := by
  obtain ⟨n, -, named, free, before⟩ := isFirst_available names base
  rw [named, ← Nat.zero_add n] at free ⊢
  refine rounds_iff (fun k => (candidate base k, k + 1)) (candidate base) (fun k => taken (candidate base k))
    (fun _ => rfl) (k := 0) ?_ fun i hi => ?_
  · simpa [same] using free
  · simpa [same] using before i hi

theorem numberSearch_iff (same : ∀ name, taken name = names.contains name) {start : Nat}
    {result : String × Nat} : NumberSearch taken start result
      ↔ result = ("c" ++ toString (nextNumber names start), nextNumber names start + 1) := by
  obtain ⟨n, named, free, before⟩ := nextNumber_first names start
  rw [named]
  refine rounds_iff id (fun k => ("c" ++ toString k, k + 1)) (fun k => taken ("c" ++ toString k))
    (fun _ => rfl) ?_ fun i hi => ?_
  · simpa [same] using free
  · simpa [same] using before i hi

end Names

def Select.SearchName (s : Select Expr) (base : String) : String → Prop :=
  Names.Search (fun name => (s.columns.find? (·.name == name)).isSome) base

def ColumnDecl.SearchName (columns : List (ColumnDecl Expr)) (base : String) : String → Prop :=
  Names.Search (fun name => columns.any (·.name == name)) base

theorem ColumnDecl.any_name (columns : List (ColumnDecl Expr)) (name : String) :
    columns.any (·.name == name) = (columns.map (·.name)).contains name := by
  rw [Bool.eq_iff_iff]
  simp

/-- A column that is added has the name that the search ends with. -/
theorem ColumnDecl.provide_searched {columns : List (ColumnDecl Expr)} {e : Expr}
    (new : columns.find? (·.expr == e) = none) (base : String) :
    ∃ name, SearchName columns base name
      ∧ provide columns base e = (.of name e, columns ++ [.of name e]) := by
  refine ⟨_, (Names.search_iff (any_name columns)).mpr rfl, ?_⟩
  rw [provide, new]

namespace Split

def SearchName (names : Std.HashSet String) (base : String) : String → Prop :=
  Names.Search names.contains base

def SearchNumber (names : Std.HashSet String) : Nat → String × Nat → Prop :=
  Names.NumberSearch names.contains

/-- Searches for numbers one after the other, with what names are taken at each, and the names that they end
with. Each starts from where the one before it stopped. -/
inductive SearchNumbers : List (Std.HashSet String) → Nat → List String → Prop
  | nil {n : Nat} : SearchNumbers [] n []
  | cons {names : Std.HashSet String} {rest : List (Std.HashSet String)} {n next : Nat} {name : String}
    {found : List String} : SearchNumber names n (name, next) → SearchNumbers rest next found →
    SearchNumbers (names :: rest) n (name :: found)

variable (split : Split) (state : State)

/-- A column that is forwarded keeps its name, or takes the one that the search ends with. -/
theorem column_forwarded {c : Column} (new : state.columns.find? (·.expr == .column c) = none) :
    ∃ name, SearchName (.ofList (state.columns.map (·.name))) c.name name
      ∧ (split.column (.column c)).run state = (.column ⟨split.rel, name, c.type⟩,
        ⟨state.columns ++ [ColumnDecl.of name (.column c)], state.next⟩) := by
  refine ⟨_, (Names.search_iff fun _ => Std.HashSet.contains_ofList).mpr rfl, ?_⟩
  simp only [column, bind_pure_comp, StateT.run_bind, StateT.run_get, pure_bind, new]
  rfl

/-- Any other column is named after the number that the search ends with. -/
theorem column_numbered {e : Expr} (new : state.columns.find? (·.expr == e) = none)
    (computed : ∀ c, e ≠ .column c) :
    ∃ name next, SearchNumber (.ofList (state.columns.map (·.name))) state.next (name, next)
      ∧ (split.column e).run state = (.column ⟨split.rel, name, e.columnType⟩,
        ⟨state.columns ++ [ColumnDecl.of name e], next⟩) := by
  refine ⟨_, _, (Names.numberSearch_iff fun _ => Std.HashSet.contains_ofList).mpr rfl, ?_⟩
  simp only [column, bind_pure_comp, StateT.run_bind, StateT.run_get, pure_bind, new]
  cases e with
  | column c => exact absurd rfl (computed c)
  | _ => rfl

/-- The one result of a search for a number is a name that is free, numbered from `start` on and below what is
to be tried next. -/
theorem exists_searchNumber (names : Std.HashSet String) (start : Nat) :
    ∃ n next, (∀ result, SearchNumber names start result ↔ result = ("c" ++ toString n, next))
      ∧ "c" ++ toString n ∉ names ∧ start ≤ n ∧ n < next := by
  obtain ⟨k, number, free, -⟩ := Names.nextNumber_first names.toList start
  have only : ∀ result, SearchNumber names start result
      ↔ result = ("c" ++ toString (start + k), start + k + 1) := fun result => by
    rw [← number]
    exact Names.numberSearch_iff fun _ => Std.HashSet.contains_toList.symm
  exact ⟨start + k, start + k + 1, only, by simpa using free, Nat.le_add_right _ _, Nat.lt_succ_self _⟩

theorem searchNumbers_nil {start : Nat} {found : List String} : SearchNumbers [] start found ↔ found = [] := by
  refine ⟨fun h => ?_, fun h => h ▸ .nil⟩
  cases h
  rfl

/-- Of several searches, the first has one result, and the others start behind it. -/
theorem searchNumbers_cons {names : Std.HashSet String} {rest : List (Std.HashSet String)} {start next : Nat}
    {name : String} {found : List String}
    (only : ∀ result, SearchNumber names start result ↔ result = (name, next)) :
    SearchNumbers (names :: rest) start found ↔ ∃ later, SearchNumbers rest next later ∧ found = name :: later := by
  constructor
  · rintro (_ | ⟨first, later⟩)
    obtain ⟨rfl, rfl⟩ := Prod.mk.inj ((only _).mp first)
    exact ⟨_, later, rfl⟩
  · rintro ⟨later, h, rfl⟩
    exact .cons ((only _).mpr rfl) h

/-- Whatever names are taken at each of several searches, they end in one way only, with free names that are
numbered in ascending order. -/
theorem exists_searchNumbers (calls : List (Std.HashSet String)) (start : Nat) :
    ∃ numbers : List Nat, (∀ found, SearchNumbers calls start found ↔ found = numbers.map ("c" ++ toString ·))
      ∧ List.Forall₂ (fun n names => "c" ++ toString n ∉ names) numbers calls ∧ (∀ n ∈ numbers, start ≤ n)
      ∧ numbers.Pairwise (· < ·) := by
  induction calls generalizing start with
  | nil => exact ⟨[], fun _ => searchNumbers_nil, .nil, by simp, .nil⟩
  | cons names rest ih =>
    obtain ⟨n, next, only, free, le, lt⟩ := exists_searchNumber names start
    -- Whatever is taken later, the next search starts behind the number found here.
    obtain ⟨numbers, later, frees, above, ascending⟩ := ih next
    refine ⟨n :: numbers, fun found => ?_, .cons free frees, fun k hk => ?_, .cons (fun k hk => ?_) ascending⟩
    · simp only [searchNumbers_cons only, later, exists_eq_left, List.map_cons]
    · rcases List.mem_cons.mp hk with rfl | hk
      · exact le
      · have := above k hk
        omega
    · have := above k hk
      omega

end Split

/-- A search for a name ends, whether it goes through the columns of a select, a list of columns or a set of
names: always with the same name, the first candidate that is not taken. A search for a number ends with a free
name as well, and of several such searches, whatever is taken at each, no two end with the same name. -/
theorem Select.searchName_ends (s : Select Expr) (base : String) :
    (∀ name, s.SearchName base name ↔ name = s.availableName base)
      ∧ (∀ name, ColumnDecl.SearchName s.columns base name ↔ name = s.availableName base)
      ∧ (∀ name, Split.SearchName (.ofList s.columnNames) base name ↔ name = s.availableName base)
      ∧ Names.IsFirst s.columnNames base (s.availableName base)
      ∧ (∀ start result, Split.SearchNumber (.ofList s.columnNames) start result
        ↔ result = ("c" ++ toString (Names.nextNumber s.columnNames start),
          Names.nextNumber s.columnNames start + 1))
      ∧ ∀ calls start, ∃ names, (∀ found, Split.SearchNumbers calls start found ↔ found = names)
        ∧ List.Forall₂ (· ∉ ·) names calls ∧ names.Nodup := by
  have found : ∀ name, (s.columns.find? (·.name == name)).isSome = s.columnNames.contains name := by
    intro name
    rw [columnNames, ← ColumnDecl.any_name, List.isSome_find?]
  refine ⟨fun _ => Names.search_iff found, fun _ => Names.search_iff (ColumnDecl.any_name s.columns),
    fun _ => Names.search_iff fun _ => Std.HashSet.contains_ofList, Names.isFirst_available _ _,
    fun _ _ => Names.numberSearch_iff fun _ => Std.HashSet.contains_ofList, fun calls start => ?_⟩
  obtain ⟨numbers, only, free, -, ascending⟩ := Split.exists_searchNumbers calls start
  refine ⟨_, only, List.forall₂_map_left_iff.mpr free, List.Pairwise.map _ (fun m n lt same => ?_) ascending⟩
  exact Nat.ne_of_lt lt (Names.append_toString_injective "c" same)

end ObjectQuery
