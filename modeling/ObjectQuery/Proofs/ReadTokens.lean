import ObjectQuery.Proofs.Printing
import Mathlib.Data.List.Basic
import Mathlib.Tactic.IntervalCases

/-!
Reading tokens back. A parser reads a token exactly where something stands behind it that cannot
continue it; what can stand behind a whole term of a given precedence is `Ends`.
-/

namespace ObjectQuery.Language

namespace Parser

def Recoverable {α : Type} (r : Reply α) : Prop := ∃ f, r = .recoverable f

def Solid (cs : List Char) : Prop := Json.skipBlanks cs = cs

section Blanks

variable {α β : Type} {gap cs rest : List Char} {p : Parser α}

theorem skipBlanks_append (blank : ∀ c ∈ gap, Json.isBlank c) :
    Json.skipBlanks (gap ++ cs) = Json.skipBlanks cs := by
  induction gap with
  | nil => rfl
  | cons c gap ih =>
    rw [List.cons_append, Json.skipBlanks, if_pos (blank c (by simp)), ih fun d hd => blank d (by simp [hd])]

theorem solid_cons {c : Char} (h : Json.isBlank c = false) : Solid (c :: cs) := by
  rw [Solid, Json.skipBlanks, if_neg (by simp [h])]

theorem spaced_eq (p : Parser α) (cs : List Char) : spaced p cs =
    match p (Json.skipBlanks cs) with
    | .ok a rest => .ok a (Json.skipBlanks rest)
    | reply => reply := by
  simp only [spaced, bind, blanks]
  cases p (Json.skipBlanks cs) <;> rfl

/-- What a parser leaves of the gap behind a token is skipped. -/
theorem spaced_ok {a : α} (solid : Solid cs) (blank : ∀ c ∈ gap, Json.isBlank c) (after : Solid rest)
    (h : p cs = .ok a (gap ++ rest)) : spaced p cs = .ok a rest := by
  rw [spaced_eq, solid, h]
  simp only [skipBlanks_append blank]
  rw [after]

/-- Without a gap. -/
theorem spaced_bare {a : α} (solid : Solid cs) (after : Solid rest) (h : p cs = .ok a rest) :
    spaced p cs = .ok a rest := by
  rw [spaced_eq, solid, h]
  simp only
  rw [after]

theorem spaced_recoverable (h : Recoverable (p (Json.skipBlanks cs))) : Recoverable (spaced p cs) := by
  obtain ⟨f, h⟩ := h
  exact ⟨f, by rw [spaced_eq, h]⟩

end Blanks

end Parser

open ObjectQuery.Language.Parser

section Characters

variable {c : Char}

theorem isAlpha_bounds (h : c.isAlpha) :
    (65 ≤ c.toNat ∧ c.toNat ≤ 90) ∨ (97 ≤ c.toNat ∧ c.toNat ≤ 122) := by
  rcases Bool.or_eq_true_iff.mp h with upper | lower
  · exact .inl (of_decide_eq_true upper)
  · have bounds := Bool.and_eq_true_iff.mp lower
    exact .inr ⟨of_decide_eq_true bounds.1, of_decide_eq_true bounds.2⟩

theorem isLetter_of_isAlpha (h : c.isAlpha) : Text.isLetter c := by
  have ascii : c.toNat < 128 := by
    have := isAlpha_bounds h
    omega
  simpa [Text.isLetter, ascii] using h

theorem isNumber_of_isDigit (h : c.isDigit) : Text.isNumber c := by
  have ascii : c.toNat < 128 := by
    simp only [Char.isDigit, Bool.and_eq_true, decide_eq_true_eq, UInt32.le_iff_toNat_le] at h
    exact Nat.lt_of_le_of_lt h.2 (by decide)
  simpa [Text.isNumber, ascii] using h

def startsName (c : Char) : Bool := Text.isLetter c || c == '_'

theorem isNameChar_of_startsName (h : startsName c) : isNameChar c := by
  simp only [startsName, isNameChar, Text.isLetterOrNumber, Bool.or_eq_true] at h ⊢
  rcases h with h | h
  exacts [.inl (.inl h), .inr h]

theorem isNameChar_of_isDigit (h : c.isDigit) : isNameChar c := by
  simp [isNameChar, Text.isLetterOrNumber, isNumber_of_isDigit h]

theorem startsName_of_isDigit (h : c.isDigit) : startsName c = false := by
  simp only [Char.isDigit, Bool.and_eq_true, decide_eq_true_eq, UInt32.le_iff_toNat_le] at h
  have high : c.toNat ≤ 57 := h.2
  have ascii : c.toNat < 128 := by omega
  have letter : ¬c.isAlpha := by
    intro alpha
    have := isAlpha_bounds alpha
    omega
  have underscore : c ≠ '_' := by
    rintro rfl
    exact absurd high (by decide)
  simp [startsName, Text.isLetter, ascii, letter, underscore]

theorem isNameChar_of_isBlank (h : Json.isBlank c) : isNameChar c = false := by
  simp only [Json.isBlank, Bool.or_eq_true, decide_eq_true_eq] at h
  rcases h with ((rfl | rfl) | rfl) | rfl <;> rfl

end Characters

def Apart (cs : List Char) : Prop := ∀ c ∈ cs.head?, isNameChar c = false

section Names

variable {gap cs rest : List Char} {s : String}

theorem Apart.append (blank : ∀ c ∈ gap, Json.isBlank c) (h : Apart cs) : Apart (gap ++ cs) := by
  cases gap with
  | nil => exact h
  | cons c gap =>
    rintro d ⟨⟩
    exact isNameChar_of_isBlank (blank c (by simp))

theorem identifier_cases (h : isIdentifier s) : ∃ first word, s.toList = first :: word
    ∧ startsName first ∧ (∀ c ∈ word, isNameChar c) ∧ s ∉ ["new", "null", "true", "false"] := by
  unfold isIdentifier at h
  split at h
  · rename_i first word letters
    simp only [Bool.and_eq_true, Bool.or_eq_true, List.all_eq_true, Bool.not_eq_true'] at h
    refine ⟨first, word, letters, ?_, fun c hc => ?_, by simpa using h.2⟩
    · rcases h.1.1 with letter | underscore
      · simp [startsName, isLetter_of_isAlpha letter]
      · simp [startsName, underscore]
    · rcases h.1.2 c hc with letter | underscore
      · simp only [Char.isAlphanum, Bool.or_eq_true] at letter
        rcases letter with letter | digit
        · exact isNameChar_of_startsName (by simp [startsName, isLetter_of_isAlpha letter])
        · exact isNameChar_of_isDigit digit
      · simp [isNameChar, underscore]
  · cases h

theorem takeWhile_append_apart {p : Char → Bool} {word : List Char} (h : ∀ c ∈ word, p c)
    (apart : ∀ c ∈ rest.head?, p c = false) :
    (word ++ rest).takeWhile p = word ∧ (word ++ rest).dropWhile p = rest := by
  have stop : rest.takeWhile p = [] ∧ rest.dropWhile p = rest := by
    cases rest with
    | nil => exact ⟨rfl, rfl⟩
    | cons c rest => simp [apart c rfl]
  rw [List.takeWhile_append_of_pos h, List.dropWhile_append_of_pos h, stop.1, stop.2]
  simp

/-- A word up to what is no part of it. -/
theorem name_word (first : Char) (word : List Char) (starts : startsName first)
    (h : ∀ c ∈ word, isNameChar c) (apart : Apart rest) :
    name (first :: word ++ rest) = .ok (String.ofList (first :: word)) rest := by
  have walked := takeWhile_append_apart h apart
  simp only [startsName] at starts
  simp only [name, bind, satisfy, List.cons_append, starts, if_true, walked.1, walked.2]

theorem name_identifier (h : isIdentifier s) (apart : Apart rest) : name (s.toList ++ rest) = .ok s rest := by
  obtain ⟨first, word, letters, starts, part, -⟩ := identifier_cases h
  rw [letters, name_word first word starts part apart, ← letters, String.ofList_toList]

theorem name_recoverable (h : ∀ c ∈ cs.head?, startsName c = false) : Recoverable (name cs) := by
  cases cs with
  | nil => exact ⟨_, rfl⟩
  | cons c cs =>
    have starts := h c rfl
    simp only [startsName] at starts
    simp only [name, bind, satisfy, starts]
    exact ⟨_, rfl⟩

theorem solid_of_startsName {c : Char} (h : startsName c) : Solid (c :: cs) := by
  refine solid_cons ?_
  by_contra blank
  have part := isNameChar_of_startsName h
  rw [isNameChar_of_isBlank (by simpa using blank)] at part
  cases part

theorem solid_identifier (h : isIdentifier s) : Solid (s.toList ++ cs) := by
  obtain ⟨first, word, letters, starts, -⟩ := identifier_cases h
  rw [letters]
  exact solid_of_startsName starts

theorem spaced_name (blank : ∀ c ∈ gap, Json.isBlank c) (h : isIdentifier s) (apart : Apart rest)
    (after : Solid rest) : spaced name (s.toList ++ (gap ++ rest)) = .ok s rest :=
  spaced_ok (solid_identifier h) blank after (name_identifier h (apart.append blank))

end Names

section Literals

variable {gap cs rest : List Char} {s : String}

theorem token_append (text rest : List Char) : token text (text ++ rest) = .ok () rest := by
  simp [token]

theorem token_recoverable {text cs : List Char} (h : ¬text <+: cs) : Recoverable (token text cs) := by
  rw [token, if_neg (by simpa using h)]
  exact ⟨_, rfl⟩

theorem keyword_new (apart : Apart rest) : keyword "new" ("new".toList ++ rest) = .ok () rest := by
  simp only [keyword, bind, token_append]
  cases rest with
  | nil => rfl
  | cons c rest => simp [notBefore, apart c rfl]

/-- Another word is not taken for this one, also where it begins with it. -/
theorem keyword_recoverable {word : List Char} (h : ∀ c ∈ word, isNameChar c)
    (other : word ≠ "new".toList) (apart : Apart rest) : Recoverable (keyword "new" (word ++ rest)) := by
  have whole := (takeWhile_append_apart h apart).1
  by_cases begins : "new".toList <+: word ++ rest
  · obtain ⟨after, same⟩ := begins
    rw [← same] at whole ⊢
    simp only [keyword, bind, token_append]
    cases after with
    | nil => exact absurd whole.symm other
    | cons c after =>
      by_cases part : isNameChar c
      · simp only [notBefore, part]
        exact ⟨_, rfl⟩
      · refine absurd ?_ other
        rw [← whole, (takeWhile_append_apart (List.all_eq_true.mp rfl) fun d hd => ?_).1]
        obtain rfl := Option.some.inj hd
        simpa using part
  · obtain ⟨f, fails⟩ := token_recoverable begins
    simp only [keyword, bind, fails]
    exact ⟨_, rfl⟩

theorem digitsValue_toDigits (n : Nat) : Numeral.digitsValue (Nat.toDigits 10 n) = n := by
  have same : Numeral.digitsValue (Nat.toDigits 10 n) = Nat.ofDigitChars 10 (Nat.toDigits 10 n) 0 := by
    rw [Nat.ofDigitChars_eq_foldl, Numeral.digitsValue]
    congr
    funext k c
    rw [Nat.mul_comm]
    rfl
  rw [same, Nat.ofDigitChars_ten_toDigits]

/-- A point behind an integer makes it a fraction only where a digit comes next. -/
theorem number_int {n : Nat} (small : n < 0x8000000000000000) (apart : ∀ c ∈ rest.head?, c.isDigit = false)
    (whole : ∀ after, rest = '.' :: after → ∀ c ∈ after.head?, c.isDigit = false) :
    number (Nat.toDigits 10 n ++ rest) = .ok (.int n) rest := by
  have digits : ∀ c ∈ Nat.toDigits 10 n, c.isDigit := fun c hc =>
    Nat.isDigit_of_mem_toDigits (by decide) (by decide) hc
  have walked := takeWhile_append_apart digits apart
  have some : (Nat.toDigits 10 n).isEmpty = false := by simp [Nat.toDigits_ne_nil]
  simp only [number, walked.1, walked.2, some, digitsValue_toDigits, small, Bool.false_eq_true, if_false, if_true]
  split
  · rename_i after
    have none : after.takeWhile Char.isDigit = [] := by
      cases after with
      | nil => rfl
      | cons c after => simp [whole _ rfl c rfl]
    simp [none]
  · rfl

theorem number_recoverable (h : ∀ c ∈ cs.head?, c.isDigit = false) : Recoverable (number cs) := by
  have none : cs.takeWhile Char.isDigit = [] := by
    cases cs with
    | nil => rfl
    | cons c cs => simp [h c rfl]
  rw [number]
  simp only [none]
  exact ⟨_, rfl⟩

theorem quotedBody_escaped (before text rest : List Char) :
    quotedBody '"' before (text.flatMap escaped ++ '"' :: rest)
      = some (String.ofList (before.reverse ++ text), rest) := by
  induction text generalizing before with
  | nil =>
    rw [List.flatMap_nil, List.nil_append, quotedBody.eq_def]
    simp
  | cons c text ih =>
    rw [List.flatMap_cons, List.append_assoc, escaped]
    split
    · rename_i special
      simp only [List.cons_append, List.nil_append]
      rw [quotedBody.eq_def]
      rcases special with rfl | rfl <;> simp [ih, unescaped]
    · rename_i plain
      simp only [not_or] at plain
      simp only [List.cons_append, List.nil_append]
      rw [quotedBody.eq_def]
      simp [plain, ih]

theorem quoted_text (s : String) (rest : List Char) :
    quoted ('"' :: s.toList.flatMap escaped ++ '"' :: rest) = .ok s rest := by
  simp [quoted, quotedBody_escaped]

theorem quoted_recoverable (h : ∀ c ∈ cs.head?, c ≠ '"' ∧ c ≠ '\'') : Recoverable (quoted cs) := by
  cases cs with
  | nil => exact ⟨_, rfl⟩
  | cons c cs =>
    simp [quoted, h c rfl]
    exact ⟨_, rfl⟩

end Literals

def Op.Binary (op : Op) : Prop := op ≠ .not ∧ op ≠ .negate

inductive Ends : Nat → List Char → Prop
  | nil (n : Nat) : Ends n []
  | closer (n : Nat) {c : Char} (cs : List Char) : c ∈ [')', ']', '\x7d', ',', ':'] → Ends n (c :: cs)
  | question {n : Nat} {cs : List Char} : 1 < n → cs.head? ≠ some '?' → Ends n ('?' :: cs)
  | operator {n : Nat} {op : Op} (cs : List Char) : op.Binary → op.rank < n →
    Ends n (op.symbol.toList ++ cs)
  | member {n : Nat} {cs : List Char} : 10 < n → (∀ c ∈ cs.head?, c.isDigit = false) → Ends n ('.' :: cs)

theorem Op.head?_append (op : Op) (cs : List Char) :
    (op.symbol.toList ++ cs).head? = op.symbol.toList.head? := by
  cases op <;> rfl

namespace Ends

variable {m n : Nat} {gap rest : List Char}

theorem mono (h : Ends m rest) (le : m ≤ n) : Ends n rest := by
  cases h with
  | nil => exact .nil n
  | closer cs hc => exact .closer n cs hc
  | question lt other => exact .question (by omega) other
  | operator cs binary lt => exact .operator cs binary (by omega)
  | member lt whole => exact .member (by omega) whole

theorem head (h : Ends n rest) :
    ∀ c ∈ rest.head?, isNameChar c = false ∧ Json.isBlank c = false ∧ c ≠ '(' := by
  cases h with
  | nil => simp
  | closer cs hc =>
    rintro c ⟨⟩
    simp only [List.mem_cons, List.not_mem_nil, or_false] at hc
    rcases hc with rfl | rfl | rfl | rfl | rfl <;> decide
  | question =>
    rintro c ⟨⟩
    decide
  | @operator op cs binary =>
    rw [op.head?_append]
    intro c hc
    cases op <;> cases hc <;> decide
  | member =>
    rintro c ⟨⟩
    decide

/-- A point that comes next is no decimal point. -/
theorem whole (h : Ends n rest) {after : List Char} (point : rest = '.' :: after) :
    ∀ c ∈ after.head?, c.isDigit = false := by
  cases h with
  | nil => cases point
  | closer cs hc =>
    cases point
    exact absurd hc (by decide)
  | question => cases point
  | @operator op cs =>
    have head := congrArg List.head? point
    rw [op.head?_append] at head
    cases op <;> simp [Op.symbol] at head
  | member _ digits =>
    cases point
    exact digits

theorem apart (h : Ends n rest) : Apart rest := fun c hc => (h.head c hc).1

theorem solid (h : Ends n rest) : Solid rest := by
  cases rest with
  | nil => rfl
  | cons c rest => exact solid_cons (h.head c rfl).2.1

end Ends

section Operators

variable {gap cs rest : List Char} {n : Nat}

def Op.ofRank (n : Nat) : List Op := (levels[n - 2]?).getD []

theorem Op.mem_ofRank {op : Op} (low : 2 ≤ n) (high : n ≤ 8) (h : op ∈ ofRank n) :
    op.Binary ∧ op.rank = n := by
  have all : ∀ op ∈ ofRank n, op.Binary ∧ op.rank = n := by
    unfold Op.Binary
    interval_cases n <;> decide
  exact all op h

theorem Op.Binary.rank_le {op : Op} (h : op.Binary) : 2 ≤ op.rank ∧ op.rank ≤ 8 := by
  obtain ⟨not, negate⟩ := h
  cases op <;> simp_all [Op.rank]

/-- Operators of different precedence begin with different characters. -/
theorem Op.head_ne {op op' : Op} (h : op.Binary) (h' : op'.Binary) (other : op.rank ≠ op'.rank) :
    op.symbol.toList.head? ≠ op'.symbol.toList.head? := by
  obtain ⟨not, negate⟩ := h
  obtain ⟨not', negate'⟩ := h'
  cases op <;> cases op' <;> first | contradiction | decide

theorem operator_recoverable {ops : List Op} (h : ∀ op ∈ ops, ¬op.symbol.toList <+: cs) :
    Recoverable (operator ops cs) := by
  induction ops with
  | nil => exact ⟨_, rfl⟩
  | cons op ops ih =>
    obtain ⟨f, fails⟩ := token_recoverable (h op (by simp))
    obtain ⟨f', fails'⟩ := ih fun op hop => h op (by simp [hop])
    refine ⟨f', ?_⟩
    simp only [operator, List.foldr_cons, orElse, bind, fails]
    exact fails'

/-- No operator of a precedence is read where a looser one, or none, stands. -/
theorem operator_ends (ends : Ends n rest) (low : 2 ≤ n) (high : n ≤ 8) :
    Recoverable (operator (Op.ofRank n) rest) := by
  refine operator_recoverable fun op hop begins => ?_
  obtain ⟨binary, rank⟩ := Op.mem_ofRank low high hop
  cases ends with
  | nil => cases op <;> simp [Op.symbol] at begins
  | closer cs hc =>
    simp only [List.mem_cons, List.not_mem_nil, or_false] at hc
    rcases hc with rfl | rfl | rfl | rfl | rfl <;> cases op <;> simp [Op.symbol] at begins
  | question lt other =>
    obtain ⟨after, same⟩ := begins
    refine other ?_
    have tail := congrArg (fun cs => cs.tail.head?) same
    refine Eq.trans tail.symm ?_
    have head := congrArg List.head? same
    rw [op.head?_append] at head
    cases op <;> first | rfl | simp [Op.symbol] at head
  | @operator op' cs binary' lt =>
    obtain ⟨after, same⟩ := begins
    refine Op.head_ne binary binary' (by omega) ?_
    rw [← op.head?_append after, same, op'.head?_append]
  | member lt => omega

theorem operator_first {ops : List Op} {op : Op} (h : op ∈ ops)
    (before : ∀ op' ∈ ops.takeWhile (· != op), ¬op'.symbol.toList <+: op.symbol.toList ++ cs) :
    operator ops (op.symbol.toList ++ cs) = .ok op cs := by
  induction ops with
  | nil => cases h
  | cons op' ops ih =>
    by_cases same : op' = op
    · subst same
      simp [operator, orElse, bind, token_append, pure]
    · have first : (op' :: ops).takeWhile (· != op) = op' :: ops.takeWhile (· != op) := by simp [same]
      rw [first] at before
      obtain ⟨f, fails⟩ := token_recoverable (before op' (by simp))
      simp only [operator, List.foldr_cons, orElse, bind, fails]
      exact ih (by simpa [Ne.symm same] using h) fun op' hop => before op' (by simp [hop])

/-- The longer operators are tried first, so a shorter one is read where no longer one stands. -/
theorem operator_symbol {op : Op} (binary : op.Binary) (other : cs.head? ≠ some '=') :
    operator (Op.ofRank op.rank) (op.symbol.toList ++ cs) = .ok op cs := by
  obtain ⟨not, negate⟩ := binary
  refine operator_first (by cases op <;> first | contradiction | decide) ?_
  have longer : ¬['='] <+: cs := by
    rintro ⟨after, rfl⟩
    exact other rfl
  cases op <;> simp_all [Op.ofRank, Op.rank, levels, Op.symbol]

end Operators

section Items

variable {α : Type} {gap : List Char} {item : Parser α} {text : α → List Char}

theorem commas_map (gap : List Char) (a : α) (as : List α) : commas gap ((a :: as).map text)
    = text a ++ as.flatMap fun a => ',' :: gap ++ text a := by
  simp [commas, List.flatMap_map]

theorem char_cons (c : Char) (cs : List Char) : char c (c :: cs) = .ok () cs := by
  simp [char, bind, satisfy, pure]

theorem char_recoverable {c : Char} {cs : List Char} (h : cs.head? ≠ some c) : Recoverable (char c cs) := by
  cases cs with
  | nil => exact ⟨_, rfl⟩
  | cons d cs =>
    have other : (d == c) = false := by simpa using h
    simp only [char, bind, satisfy, other]
    exact ⟨_, rfl⟩

theorem spaced_char {c : Char} {rest : List Char} (visible : Json.isBlank c = false)
    (blank : ∀ c ∈ gap, Json.isBlank c) (solid : Solid rest) :
    spaced (char c) (c :: (gap ++ rest)) = .ok () rest :=
  spaced_ok (solid_cons visible) blank solid (char_cons c _)

theorem spaced_char_recoverable {c : Char} {cs : List Char} (solid : Solid cs) (h : cs.head? ≠ some c) :
    Recoverable (spaced (char c) cs) := by
  refine spaced_recoverable ?_
  rw [solid]
  exact char_recoverable h

theorem moreItems_flatMap (blank : ∀ c ∈ gap, Json.isBlank c) {close : Char} {rest : List Char}
    (closes : close ∈ [')', ']', '\x7d']) (as : List α)
    (solid : ∀ a ∈ as, ∀ rest, Solid (text a ++ rest))
    (reads : ∀ a ∈ as, ∀ rest, Ends 1 rest → item (text a ++ rest) = .ok a rest)
    (fuel : Nat) (enough : as.length ≤ fuel) (before : List α) :
    moreItems item (spaced (char ',')) fuel before
        ((as.flatMap fun a => ',' :: gap ++ text a) ++ close :: rest)
      = .ok (before.reverse ++ as) (close :: rest) := by
  have visible : close ≠ ',' ∧ Ends 1 (close :: rest) := by
    refine ⟨?_, .closer 1 rest (List.mem_append_left [',', ':'] closes)⟩
    rintro rfl
    exact absurd closes (by decide)
  induction as generalizing fuel before with
  | nil =>
    cases fuel with
    | zero => simp [moreItems]
    | succ fuel =>
      obtain ⟨f, fails⟩ := spaced_char_recoverable (c := ',') visible.2.solid (by simpa using visible.1)
      simp [moreItems, fails]
  | cons a as ih =>
    obtain ⟨fuel, rfl⟩ := Nat.exists_eq_add_of_le' (Nat.lt_of_lt_of_le (Nat.zero_lt_succ _) enough)
    have ends : Ends 1 ((as.flatMap fun a => ',' :: gap ++ text a) ++ close :: rest) := by
      cases as with
      | nil => exact visible.2
      | cons a as => exact .closer 1 _ (by simp)
    have comma := spaced_char (c := ',') (by decide) blank (solid a (by simp)
      ((as.flatMap fun a => ',' :: gap ++ text a) ++ close :: rest))
    simp only [List.flatMap_cons, List.append_assoc, List.cons_append] at comma ends ⊢
    simp only [moreItems, comma, reads a (by simp) _ ends]
    simp only [List.cons_append] at ih
    rw [ih (fun a ha => solid a (by simp [ha])) (fun a ha => reads a (by simp [ha])) fuel
      (by simpa using enough)]
    simp

/-- Items that are read one by one are read as a list, up to the closing character. -/
theorem commaItems_map (blank : ∀ c ∈ gap, Json.isBlank c) {close : Char}
    (closes : close ∈ [')', ']', '\x7d']) (text : α → List Char) (as : List α) (rest : List Char)
    (none : Recoverable (item (close :: rest)))
    (solid : ∀ a ∈ as, ∀ rest, Solid (text a ++ rest))
    (reads : ∀ a ∈ as, ∀ rest, Ends 1 rest → item (text a ++ rest) = .ok a rest) :
    commaItems item (commas gap (as.map text) ++ close :: rest) = .ok as (close :: rest) := by
  cases as with
  | nil =>
    obtain ⟨f, fails⟩ := none
    simp [commas, commaItems, items, fails]
  | cons a as =>
    have ends : Ends 1 ((as.flatMap fun a => ',' :: gap ++ text a) ++ close :: rest) := by
      cases as with
      | nil => exact .closer 1 _ (List.mem_append_left [',', ':'] closes)
      | cons a as => exact .closer 1 _ (by simp)
    have each : ∀ as : List α, as.length ≤ (as.flatMap fun a => ',' :: gap ++ text a).length := by
      intro as
      induction as with
      | nil => simp
      | cons a as ih =>
        simp only [List.flatMap_cons, List.length_append, List.length_cons]
        omega
    have enough : as.length ≤ (text a ++ ((as.flatMap fun a => ',' :: gap ++ text a) ++ close :: rest)).length := by
      have := each as
      simp only [List.length_append, List.length_cons]
      omega
    rw [commas_map, List.append_assoc]
    simp only [commaItems, items, reads a (by simp) _ ends]
    rw [moreItems_flatMap blank closes as (fun a ha => solid a (by simp [ha]))
      (fun a ha => reads a (by simp [ha])) _ enough]
    simp

end Items

end ObjectQuery.Language
