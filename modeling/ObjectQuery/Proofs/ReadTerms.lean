import ObjectQuery.Proofs.ReadTokens
import Mathlib.Algebra.Order.BigOperators.Group.List

/-!
Reading terms back. What is tried first fails where it should: a term begins with a mark or with a
word, and what follows that word tells a lambda, or the name of a field, from the rest. A loop over
operators goes on from what it has read, so the left operand of an operator of its own precedence is
read by the same loop. Nested terms have shorter texts, and that bounds the nesting.
-/

namespace ObjectQuery.Language

open ObjectQuery.Language.Parser

structure Within (after : List Char → Prop) : Prop where
  parenthesis : ∀ cs, after ('(' :: cs)
  brace : ∀ cs, after ('\x7b' :: cs)
  word : ∀ c cs, startsName c → after (c :: cs)
  question : ∀ cs, after ('?' :: cs)
  member : ∀ cs, after ('.' :: cs)
  operator : ∀ (op : Op) cs, op.Binary → after (op.symbol.toList ++ cs)

inductive Opening (gap : List Char) (n : Nat) (after : List Char → Prop) : List Char → Prop
  | mark {c : Char} (cs : List Char) : c = '"' ∨ c = '[' ∨ c.isDigit → Opening gap n after (c :: cs)
  | sign {c : Char} (cs : List Char) : n ≤ 9 → c = '!' ∨ c = '-' → Opening gap n after (c :: cs)
  | params (cs : List Char) : n ≤ 1 → Opening gap n after ('(' :: cs)
  | parenthesis {t : Term} (cs : List Char) : t.Written → (t.phrase gap).rank < 10 →
    Opening gap n after ('(' :: (t.phrase gap).text ++ ')' :: cs)
  | word {c : Char} {cs tail : List Char} {s : String} : startsName c → name (c :: cs) = .ok s tail →
    after (Json.skipBlanks tail) → Opening gap n after (c :: cs)

theorem Opening.mono {gap : List Char} {m n : Nat} {after : List Char → Prop} {cs : List Char}
    (h : Opening gap m after cs) (le : n ≤ m) : Opening gap n after cs := by
  cases h with
  | mark cs h => exact .mark cs h
  | sign cs low h => exact .sign cs (by omega) h
  | params cs low => exact .params cs (by omega)
  | parenthesis cs written low => exact .parenthesis cs written low
  | word starts read h => exact .word starts read h

section Openings

variable {gap : List Char} (blank : ∀ c ∈ gap, Json.isBlank c) {after : List Char → Prop} {t : Term}
  {n : Nat} {rest : List Char}

theorem shown_of_lt {p : Phrase} (h : p.rank < n) : p.shown gap n = '(' :: p.text ++ ')' :: gap := by
  simp [Phrase.shown, h]

theorem shown_of_le {p : Phrase} (h : n ≤ p.rank) : p.shown gap n = p.text := by
  simp [Phrase.shown, Nat.not_lt.mpr h]

theorem phrases_eq (ts : List Term) : phrases gap ts = ts.map (Term.phrase gap) := by
  induction ts with
  | nil => rfl
  | cons t ts ih => simp [phrases, ih]

theorem fieldTexts_eq (fields : List (Option String × Term)) :
    fieldTexts gap fields = fields.map fun f => fieldText gap f.1 (f.2.phrase gap) := by
  induction fields with
  | nil => rfl
  | cons f fields ih => simp [fieldTexts, ih]

include blank in
theorem opening_word (first : Char) (word : List Char) (starts : startsName first)
    (part : ∀ c ∈ word, isNameChar c) (apart : Apart rest) (solid : Solid rest) (h : after rest) :
    Opening gap n after (first :: word ++ (gap ++ rest)) :=
  .word starts (name_word first word starts part (apart.append blank)) (by rwa [skipBlanks_append blank, solid])

include blank in
theorem opening_identifier {s : String} (h : isIdentifier s) (apart : Apart rest) (solid : Solid rest)
    (hrest : after rest) : Opening gap n after (s.toList ++ (gap ++ rest)) := by
  obtain ⟨first, word, letters, starts, part, -⟩ := identifier_cases h
  rw [letters]
  exact opening_word blank first word starts part apart solid hrest

theorem apart_cons {c : Char} (cs : List Char) (h : isNameChar c = false) : Apart (c :: cs) := by
  rintro d ⟨⟩
  exact h

theorem opening_shown (high : n ≤ 10) (h : t.Written)
    (fitting : n ≤ (t.phrase gap).rank → Opening gap n after ((t.phrase gap).text ++ rest)) :
    Opening gap n after ((t.phrase gap).shown gap n ++ rest) := by
  rcases Nat.lt_or_ge (t.phrase gap).rank n with low | fits
  · rw [shown_of_lt low, List.append_assoc, List.cons_append]
    exact .parenthesis _ h (by omega)
  · rw [shown_of_le fits]
    exact fitting fits

include blank in
/-- The first word of a longer term is followed by something within the term. -/
theorem opening_text (within : Within after) (h : t.Written) (high : n ≤ 10)
    (fits : n ≤ (t.phrase gap).rank) (apart : Apart rest) (solid : Solid rest)
    (bare : (t.phrase gap).rank = 11 → after rest)
    (arrow : (t.phrase gap).rank = 1 → ∀ cs, after ('=' :: '>' :: cs)) :
    Opening gap n after ((t.phrase gap).text ++ rest) := by
  induction h generalizing n rest with
  | null =>
    simp only [Term.phrase, literalText, List.append_assoc]
    exact opening_word blank 'n' "ull".toList (by decide) (List.all_eq_true.mp rfl) apart solid (bare rfl)
  | bool b =>
    simp only [Term.phrase, literalText, List.append_assoc]
    cases b
    · exact opening_word blank 'f' "alse".toList (by decide) (List.all_eq_true.mp rfl) apart solid (bare rfl)
    · exact opening_word blank 't' "rue".toList (by decide) (List.all_eq_true.mp rfl) apart solid (bare rfl)
  | int k small =>
    simp only [Term.phrase, literalText, Int.toNat_natCast]
    obtain ⟨c, cs, digits⟩ := List.exists_cons_of_ne_nil (Nat.toDigits_ne_nil (b := 10) (n := k))
    rw [digits]
    refine .mark _ (.inr (.inr (Nat.isDigit_of_mem_toDigits (b := 10) (n := k) (by decide) (by decide) ?_)))
    simp [digits]
  | text s => exact .mark _ (.inl rfl)
  | named name identifier =>
    simp only [Term.phrase, List.append_assoc]
    exact opening_identifier blank identifier apart solid (bare rfl)
  | list items _ _ => exact .mark _ (.inr (.inl rfl))
  | get target member written identifier ih =>
    simp only [Term.phrase, List.append_assoc, List.cons_append]
    refine (opening_shown (Nat.le_refl 10) written fun fits => ih (n := 10) (Nat.le_refl _) fits (apart_cons _ (by decide))
      (solid_cons (by decide)) (fun _ => within.member _) fun loose => by omega).mono high
  | method target name args written identifier _ ih _ =>
    simp only [Term.phrase, List.append_assoc, List.cons_append]
    refine (opening_shown (Nat.le_refl 10) written fun fits => ih (n := 10) (Nat.le_refl _) fits (apart_cons _ (by decide))
      (solid_cons (by decide)) (fun _ => within.member _) fun loose => by omega).mono high
  | function name args identifier _ _ =>
    simp only [Term.phrase, argumentsText, List.append_assoc, List.cons_append]
    exact opening_identifier blank identifier (apart_cons _ (by decide)) (solid_cons (by decide))
      (within.parenthesis _)
  | lambda params body identifiers _ _ =>
    simp only [Term.phrase, List.append_assoc]
    match params with
    | [param] =>
      simp only [paramsText, List.append_assoc, List.cons_append]
      exact opening_identifier blank (identifiers param (by simp)) (apart_cons _ (by decide))
        (solid_cons (by decide)) (arrow rfl _)
    | [] => exact .params _ fits
    | _ :: _ :: _ => exact .params _ fits
  | construct typeName fields named _ _ _ =>
    simp only [Term.phrase, List.append_assoc]
    cases typeName with
    | none =>
      simp only [typeText, List.cons_append]
      exact opening_word blank 'n' "ew".toList (by decide) (List.all_eq_true.mp rfl)
        (apart_cons _ (by decide)) (solid_cons (by decide)) (within.brace _)
    | some typeName =>
      simp only [typeText, List.append_assoc, List.cons_append]
      obtain ⟨first, word, letters, starts, -⟩ := identifier_cases (named typeName rfl)
      rw [letters]
      refine .word (by decide) (name_word 'n' "ew".toList (by decide) (List.all_eq_true.mp rfl)
        (apart_cons _ (by decide))) ?_
      rw [Json.skipBlanks, if_pos (by decide), List.cons_append, solid_of_startsName starts]
      exact within.word first _ starts
  | unary op operand sign _ _ =>
    have low : n ≤ 9 := by rcases sign with rfl | rfl <;> exact fits
    rcases sign with rfl | rfl
    · exact .sign _ low (.inl rfl)
    · exact .sign _ low (.inr rfl)
  | binary op left right not negate written _ ih _ =>
    have binary : op.Binary := ⟨not, negate⟩
    have rank := binary.rank_le
    simp only [Term.phrase, phrases, Op.phrase, List.append_assoc] at fits ⊢
    have ends : Ends 11 (op.symbol.toList ++ (gap ++ ((right.phrase gap).shown gap (op.rank + 1) ++ rest))) :=
      .operator _ binary (by omega)
    exact (opening_shown (by omega) written fun fits => ih (n := op.rank) (by omega) fits ends.apart ends.solid
      (fun _ => within.operator op _ binary) fun loose => by omega).mono fits
  | cond test onTrue onFalse written _ _ ih _ _ =>
    simp only [Term.phrase, List.append_assoc, List.cons_append] at fits ⊢
    exact (opening_shown (by decide) written fun fits => ih (n := 2) (by decide) fits (apart_cons _ (by decide))
      (solid_cons (by decide)) (fun _ => within.question _) fun loose => by omega).mono (by omega)

def opens (c : Char) : Bool := ['"', '[', '(', '!', '-'].contains c || c.isDigit || startsName c

theorem within_anything : Within fun _ => True := by
  constructor <;> intros <;> trivial

theorem Term.Written.one_le_rank (h : t.Written) : 1 ≤ (t.phrase gap).rank := by
  cases h with
  | unary op operand sign => rcases sign with rfl | rfl <;> simp [Term.phrase, phrases, Op.phrase, Op.rank]
  | binary op left right not negate =>
    exact Nat.le_trans (by decide) (Op.Binary.rank_le ⟨not, negate⟩).1
  | _ => simp [Term.phrase]

include blank in
theorem exists_opens (h : t.Written) : ∃ c cs, (t.phrase gap).text = c :: cs ∧ opens c := by
  have begins := opening_text (n := 1) blank within_anything h (by decide) h.one_le_rank
    (by simp [Apart] : Apart []) rfl (fun _ => trivial) fun _ _ => trivial
  rw [List.append_nil] at begins
  generalize (t.phrase gap).text = text at begins
  cases begins with
  | @mark c cs mark =>
    refine ⟨c, cs, rfl, ?_⟩
    rcases mark with rfl | rfl | digit
    · decide
    · decide
    · simp [opens, digit]
  | @sign c cs _ sign =>
    refine ⟨c, cs, rfl, ?_⟩
    rcases sign with rfl | rfl <;> decide
  | params cs => exact ⟨'(', cs, rfl, by decide⟩
  | parenthesis cs => exact ⟨'(', _, rfl, by decide⟩
  | @word c cs _ _ starts => exact ⟨c, cs, rfl, by simp [opens, starts]⟩

include blank in
theorem exists_opens_shown (h : t.Written) (n : Nat) :
    ∃ c cs, (t.phrase gap).shown gap n = c :: cs ∧ opens c := by
  rcases Nat.lt_or_ge (t.phrase gap).rank n with low | fits
  · exact ⟨'(', _, shown_of_lt low, by decide⟩
  · rw [shown_of_le fits]
    exact exists_opens blank h

theorem not_blank_of_opens {c : Char} (h : opens c) : Json.isBlank c = false := by
  by_contra hc
  simp only [Bool.not_eq_false, Json.isBlank, Bool.or_eq_true, decide_eq_true_eq] at hc
  rcases hc with ((rfl | rfl) | rfl) | rfl <;> exact absurd h (by decide)

include blank in
theorem solid_shown (h : t.Written) (n : Nat) (rest : List Char) :
    Solid ((t.phrase gap).shown gap n ++ rest) := by
  obtain ⟨c, cs, same, first⟩ := exists_opens_shown blank h n
  rw [same]
  exact solid_cons (not_blank_of_opens first)

include blank in
theorem solid_text (h : t.Written) (rest : List Char) : Solid ((t.phrase gap).text ++ rest) := by
  obtain ⟨c, cs, same, first⟩ := exists_opens blank h
  rw [same]
  exact solid_cons (not_blank_of_opens first)

include blank in
/-- Behind an operator comes a blank, or the beginning of a term. -/
theorem head?_gap_shown (h : t.Written) (n : Nat) (rest : List Char) {c : Char} (other : opens c = false)
    (visible : Json.isBlank c = false) : (gap ++ ((t.phrase gap).shown gap n ++ rest)).head? ≠ some c := by
  cases gap with
  | nil =>
    obtain ⟨d, cs, same, first⟩ := exists_opens_shown blank h n
    rw [List.nil_append, same]
    rintro ⟨⟩
    simp [first] at other
  | cons d gap =>
    rintro ⟨⟩
    simp [blank c (by simp)] at visible

include blank in
theorem notBefore_shown (h : t.Written) (n : Nat) (rest : List Char) (test : Char → Bool)
    (free : ∀ c, test c → opens c = false ∧ Json.isBlank c = false) :
    notBefore test (gap ++ ((t.phrase gap).shown gap n ++ rest))
      = .ok () (gap ++ ((t.phrase gap).shown gap n ++ rest)) := by
  have first := fun c (hc : test c) => head?_gap_shown blank h n rest (free c hc).1 (free c hc).2
  generalize gap ++ ((t.phrase gap).shown gap n ++ rest) = cs at first
  cases cs with
  | nil => rfl
  | cons c cs =>
    have fails : test c = false := by
      by_contra hc
      exact first c (by simpa using hc) rfl
    simp [notBefore, fails]

end Openings

section Attempts

variable {α β : Type} {p q : Parser α} {f : α → Parser β} {cs rest : List Char} {a : α}

theorem orElse_recoverable (h : Recoverable (p cs)) : orElse p q cs = q cs := by
  obtain ⟨fault, h⟩ := h
  rw [orElse, h]

theorem orElse_ok (h : p cs = .ok a rest) : orElse p q cs = .ok a rest := by
  rw [orElse, h]

theorem bind_recoverable (h : Recoverable (p cs)) : Recoverable ((p >>= f) cs) := by
  obtain ⟨fault, h⟩ := h
  exact ⟨fault, by simp only [bind, h]⟩

theorem bind_ok (h : p cs = .ok a rest) : (p >>= f) cs = f a rest := by
  simp only [bind, h]

theorem commit_ok (h : p cs = .ok a rest) : commit p cs = .ok a rest := by
  rw [commit, h]

theorem inside_ok {note : String} (h : p cs = .ok a rest) : inside note p cs = .ok a rest := by
  rw [inside, h]

theorem optional_ok (h : p cs = .ok a rest) : Parser.optional p cs = .ok (some a) rest := by
  rw [Parser.optional, h]

theorem optional_recoverable (h : Recoverable (p cs)) : Parser.optional p cs = .ok none cs := by
  obtain ⟨fault, h⟩ := h
  rw [Parser.optional, h]

end Attempts

section Attempts

variable {gap : List Char} {after : List Char → Prop} {n : Nat} {cs rest : List Char} {t : Term}

/-- A text begins with a word that is read, or with no word. -/
theorem Opening.name_cases (h : Opening gap n after cs) : Solid cs
    ∧ ((∃ c cs', cs = c :: cs' ∧ opens c ∧ startsName c = false)
      ∨ ∃ s tail, name cs = .ok s tail ∧ after (Json.skipBlanks tail)) := by
  have solid : ∀ {c cs}, opens c → Solid (c :: cs) := fun first => solid_cons (not_blank_of_opens first)
  cases h with
  | @mark c cs mark =>
    have first : opens c ∧ startsName c = false := by
      rcases mark with rfl | rfl | digit
      · decide
      · decide
      · exact ⟨by simp [opens, digit], startsName_of_isDigit digit⟩
    exact ⟨solid first.1, .inl ⟨c, cs, rfl, first⟩⟩
  | @sign c cs _ sign =>
    have first : opens c ∧ startsName c = false := by rcases sign with rfl | rfl <;> decide
    exact ⟨solid first.1, .inl ⟨c, cs, rfl, first⟩⟩
  | params cs => exact ⟨solid (by decide), .inl ⟨'(', cs, rfl, by decide, by decide⟩⟩
  | parenthesis cs => exact ⟨solid (by decide), .inl ⟨'(', _, rfl, by decide, by decide⟩⟩
  | word starts read h => exact ⟨solid_of_startsName starts, .inr ⟨_, _, read, h⟩⟩

theorem skipBlanks_skipBlanks (cs : List Char) : Solid (Json.skipBlanks cs) := by
  induction cs with
  | nil => rfl
  | cons c cs ih =>
    rw [Json.skipBlanks]
    split
    · exact ih
    · rename_i visible
      exact solid_cons (by simpa using visible)

def parameterList : Parser (List String) := do
  char '('
  let params ← commaItems (spaced name)
  char ')'
  return params

def parameters : Parser (List String) := spaced (orElse (do return [← name]) parameterList)

theorem lambda_eq (T : Parser Term) : lambda T = (do
    let params ← parameters
    spaced (token ['=', '>'])
    let body ← commit (inside "lambda body" T)
    return .lambda params body) := rfl

/-- No list of parameters stands where a term in parentheses does. -/
theorem parameterList_recoverable
    (h : Opening gap 1 (fun tail => tail.head? ≠ some ',' ∧ tail.head? ≠ some ')') cs) :
    Recoverable (parameterList ('(' :: cs)) := by
  rw [parameterList, bind_ok (char_cons '(' _)]
  obtain ⟨solid, ⟨c, cs', rfl, first, other⟩ | ⟨s, tail, read, comma, close⟩⟩ := h.name_cases
  · obtain ⟨f, fails⟩ : Recoverable (spaced name (c :: cs')) := by
      refine spaced_recoverable ?_
      rw [solid]
      exact name_recoverable (by rintro d ⟨⟩; exact other)
    have none : commaItems (spaced name) (c :: cs') = .ok [] (c :: cs') := by
      simp [commaItems, items, fails]
    rw [bind_ok none]
    refine bind_recoverable (char_recoverable ?_)
    rintro ⟨⟩
    exact absurd first (by decide)
  · have one : spaced name cs = .ok s (Json.skipBlanks tail) := by rw [spaced_eq, solid, read]
    have only : commaItems (spaced name) cs = .ok [s] (Json.skipBlanks tail) := by
      obtain ⟨f, fails⟩ := spaced_char_recoverable (skipBlanks_skipBlanks tail) comma
      simp only [commaItems, items, one]
      cases cs.length with
      | zero => rfl
      | succ fuel => simp [moreItems, fails]
    rw [bind_ok only]
    exact bind_recoverable (char_recoverable close)

/-- What stands behind a complete term cannot make it the head of a lambda or of a field. -/
theorem Ends.head_one (h : Ends 1 rest) : ∀ c ∈ rest.head?, c ∈ [')', ']', '\x7d', ',', ':'] := by
  cases h with
  | nil => simp
  | closer cs hc =>
    rintro c ⟨⟩
    exact hc
  | operator cs binary lt =>
    have := binary.rank_le
    omega
  | question | member => omega

variable (blank : ∀ c ∈ gap, Json.isBlank c) (T : Parser Term)

theorem within_parentheses : Within fun tail => tail.head? ≠ some ',' ∧ tail.head? ≠ some ')' := by
  refine ⟨by simp, by simp, ?_, by simp, by simp, ?_⟩
  · rintro c cs starts
    refine ⟨?_, ?_⟩ <;> rintro ⟨⟩ <;> exact absurd starts (by decide)
  · rintro op cs ⟨not, negate⟩
    cases op <;> first | contradiction | simp [Op.symbol]

theorem within_field : Within fun tail => ∀ more, tail = '=' :: more →
    ∃ d further, more = d :: further ∧ (d = '=' ∨ d = '>') := by
  refine ⟨by simp, by simp, ?_, by simp, by simp, ?_⟩
  · rintro c cs starts more same
    obtain rfl := (List.cons.inj same).1
    exact absurd starts (by decide)
  · rintro op cs - more same
    obtain rfl : op = .equal := by cases op <;> first | rfl | simp [Op.symbol] at same
    exact ⟨'=', cs, (List.cons.inj same).2.symm, .inl rfl⟩

theorem within_operators : Within fun tail => ¬['=', '>'] <+: tail := by
  refine ⟨by simp, by simp, ?_, by simp, by simp, ?_⟩
  · rintro c cs starts ⟨after, same⟩
    obtain rfl := (List.cons.inj same).1
    exact absurd starts (by decide)
  · rintro op cs ⟨not, negate⟩
    cases op <;> first | contradiction | simp [Op.symbol]

theorem lambda_headless (solid : Solid cs) (single : Recoverable (name cs))
    (list : Recoverable (parameterList cs)) : Recoverable (lambda T cs) := by
  rw [lambda_eq]
  refine bind_recoverable (spaced_recoverable ?_)
  rw [solid, orElse_recoverable (bind_recoverable single)]
  exact list

include blank in
/-- A term of an operator, or one without operators, is not taken for a lambda. -/
theorem lambda_recoverable (begins : Opening gap 2 (fun tail => ¬['=', '>'] <+: tail) cs) :
    Recoverable (lambda T cs) := by
  have solid := begins.name_cases.1
  have nameless : ∀ {c cs}, startsName c = false → Recoverable (name (c :: cs)) := fun other =>
    name_recoverable (by rintro d ⟨⟩; exact other)
  cases begins with
  | @mark c cs mark =>
    have first : startsName c = false ∧ c ≠ '(' := by
      rcases mark with rfl | rfl | digit
      · decide
      · decide
      · exact ⟨startsName_of_isDigit digit, by rintro rfl; exact absurd digit (by decide)⟩
    exact lambda_headless T solid (nameless first.1) (bind_recoverable (char_recoverable (by simpa using first.2)))
  | @sign c cs _ sign =>
    have first : startsName c = false ∧ c ≠ '(' := by rcases sign with rfl | rfl <;> decide
    exact lambda_headless T solid (nameless first.1) (bind_recoverable (char_recoverable (by simpa using first.2)))
  | params cs low => omega
  | parenthesis cs written low =>
    have ends : Ends 1 (')' :: cs) := .closer 1 cs (by decide)
    have inner := opening_text blank within_parentheses written (by decide) written.one_le_rank
      ends.apart ends.solid (fun atom => by omega) fun _ cs => by simp
    exact lambda_headless T solid (nameless (by decide)) (parameterList_recoverable inner)
  | @word c cs tail s starts read arrow =>
    have single : parameters (c :: cs) = .ok [s] (Json.skipBlanks tail) := by
      have first : (do return [← name] : Parser (List String)) (c :: cs) = .ok [s] tail := bind_ok read
      rw [parameters, spaced_eq, solid, orElse_ok first]
    rw [lambda_eq, bind_ok single]
    refine bind_recoverable (spaced_recoverable ?_)
    rw [skipBlanks_skipBlanks]
    exact token_recoverable arrow

include blank in
theorem opening_operators (h : t.Written) (ends : Ends 2 rest) :
    Opening gap 2 (fun tail => ¬['=', '>'] <+: tail) ((t.phrase gap).shown gap 2 ++ rest) := by
  refine opening_shown (by decide) h fun tight => opening_text blank within_operators h (by decide) tight
    ends.apart ends.solid (fun _ => ?_) fun loose => by omega
  cases ends with
  | nil => simp
  | closer cs hc =>
    rintro ⟨after, same⟩
    obtain rfl := (List.cons.inj same).1
    exact absurd hc (by decide)
  | question => simp
  | operator cs binary => exact within_operators.operator _ cs binary
  | member => simp

def namedField (T : Parser Term) : Parser (Option String × Term) := do
  let name ← spaced name
  spaced (do char '='; notBefore fun c => c == '=' || c == '>')
  return (some name, ← T)

theorem field_eq : field T = orElse (namedField T) (do return (none, ← T)) := rfl

include blank in
/-- A field without a name is not taken for one with a name. -/
theorem namedField_recoverable (h : t.Written) (ends : Ends 1 rest) :
    Recoverable (namedField T ((t.phrase gap).text ++ rest)) := by
  have begins := opening_text (n := 1) blank within_field h (by decide) h.one_le_rank ends.apart
    ends.solid (fun _ more same => ?_) fun _ cs more same => ⟨'>', cs, (List.cons.inj same).2.symm, .inr rfl⟩
  · obtain ⟨solid, ⟨c, cs, same, -, other⟩ | ⟨s, tail, read, after⟩⟩ := begins.name_cases
    · refine bind_recoverable (spaced_recoverable ?_)
      rw [solid, same]
      exact name_recoverable (by rintro d ⟨⟩; exact other)
    · have named : spaced name ((t.phrase gap).text ++ rest) = .ok s (Json.skipBlanks tail) := by
        rw [spaced_eq, solid, read]
      rw [namedField, bind_ok named]
      refine bind_recoverable (spaced_recoverable ?_)
      rw [skipBlanks_skipBlanks]
      by_cases equals : (Json.skipBlanks tail).head? = some '='
      · obtain ⟨more, same⟩ := List.head?_eq_some_iff.mp equals
        obtain ⟨d, further, rfl, hd⟩ := after more same
        rw [same, bind_ok (char_cons '=' _)]
        rcases hd with rfl | rfl <;> exact ⟨_, rfl⟩
      · exact bind_recoverable (char_recoverable equals)
  · exact absurd (ends.head_one '=' (by rw [same]; rfl)) (by decide)

end Attempts

structure Nested (gap : List Char) (T : Parser Term) (size : Nat) : Prop where
  reads : ∀ t : Term, t.Written → (t.phrase gap).text.length < size → ∀ rest, Ends 1 rest →
    T ((t.phrase gap).text ++ rest) = .ok t rest
  closes : ∀ close ∈ [')', ']', '\x7d'], ∀ rest, Recoverable (T (close :: rest))

section Atoms

variable {gap : List Char} (blank : ∀ c ∈ gap, Json.isBlank c) {T : Parser Term} {size : Nat}
  (nested : Nested gap T size) {rest : List Char}

theorem length_le_commas {text : List Char} {texts : List (List Char)} (h : text ∈ texts) :
    text.length ≤ (commas gap texts).length := by
  cases texts with
  | nil => cases h
  | cons first texts =>
    simp only [commas, List.length_append, List.length_flatMap]
    rcases List.mem_cons.mp h with rfl | h
    · exact Nat.le_add_right _ _
    · have := List.le_sum_of_mem (List.mem_map_of_mem (f := fun text => (',' :: gap ++ text).length) h)
      simp only [List.length_append, List.length_cons] at this ⊢
      omega

theorem short_items {ts : List Term} (h : (commas gap ((phrases gap ts).map (·.text))).length < size) :
    ∀ t ∈ ts, (t.phrase gap).text.length < size := by
  intro t ht
  refine Nat.lt_of_le_of_lt (length_le_commas ?_) h
  rw [phrases_eq, List.map_map]
  exact List.mem_map.mpr ⟨t, ht, rfl⟩

theorem short_fields {fields : List (Option String × Term)}
    (h : (commas gap (fieldTexts gap fields)).length < size) :
    ∀ f ∈ fields, (fieldText gap f.1 (f.2.phrase gap)).length < size := by
  intro f hf
  refine Nat.lt_of_le_of_lt (length_le_commas ?_) h
  rw [fieldTexts_eq]
  exact List.mem_map.mpr ⟨f, hf, rfl⟩

include blank nested in
theorem items_read {close : Char} (closes : close ∈ [')', ']', '\x7d']) {ts : List Term}
    (written : ∀ t ∈ ts, t.Written) (short : ∀ t ∈ ts, (t.phrase gap).text.length < size) (rest : List Char) :
    commaItems T (commas gap ((phrases gap ts).map (·.text)) ++ close :: rest) = .ok ts (close :: rest) := by
  rw [phrases_eq, List.map_map]
  exact commaItems_map blank closes (fun t => (t.phrase gap).text) ts rest (nested.closes close closes rest)
    (fun t ht rest => solid_text blank (written t ht) rest)
    fun t ht rest ends => nested.reads t (written t ht) (short t ht) rest ends

include blank in
theorem solid_items {close : Char} (closes : close ∈ [')', ']', '\x7d']) {ts : List Term}
    (written : ∀ t ∈ ts, t.Written) (rest : List Char) :
    Solid (commas gap ((phrases gap ts).map (·.text)) ++ close :: rest) := by
  cases ts with
  | nil => exact (Ends.closer 1 rest (List.mem_append_left [',', ':'] closes)).solid
  | cons t ts =>
    simp only [phrases, List.map_cons, commas, List.append_assoc]
    exact solid_text blank (written t (by simp)) _

include blank nested in
theorem arguments_read {args : List Term} (written : ∀ t ∈ args, t.Written)
    (short : ∀ t ∈ args, (t.phrase gap).text.length < size) (solid : Solid rest) :
    arguments T (argumentsText gap (phrases gap args) ++ rest) = .ok args rest := by
  simp only [argumentsText, List.append_assoc, List.cons_append]
  have opened := spaced_char (c := '(') (by decide) blank
    (solid_items blank (by decide : ')' ∈ _) written (gap ++ rest))
  have read := items_read blank nested (by decide : ')' ∈ _) written short (gap ++ rest)
  rw [arguments, bind_ok opened, bind_ok (inside_ok read),
    bind_ok (commit_ok (spaced_char (by decide) blank solid))]
  rfl

theorem construct_recoverable {cs : List Char} (h : cs.head? ≠ some 'n') : Recoverable (construct T cs) := by
  refine bind_recoverable (bind_recoverable (token_recoverable ?_))
  rintro ⟨after, rfl⟩
  exact h rfl

def parenthesised (T : Parser Term) : Parser Term := do
  char '('
  let inner ← T
  commit (spaced (char ')'))
  return inner

def listed (T : Parser Term) : Parser Term := do
  char '['
  let items ← commaItems T
  commit (spaced (char ']'))
  return .list items

theorem primary_eq (T : Parser Term) : primary T = spaced
    (orElse (construct T)
    (orElse (do return .literal (← number))
    (orElse (do return .literal (.text (← quoted)))
    (orElse (listed T)
    (orElse (parenthesised T)
    (named T)))))) := rfl

section Alternatives

variable {cs : List Char}

theorem number_alternative (h : ∀ c ∈ cs.head?, c.isDigit = false) :
    Recoverable ((do return .literal (← number) : Parser Term) cs) := bind_recoverable (number_recoverable h)

theorem quoted_alternative (h : ∀ c ∈ cs.head?, c ≠ '"' ∧ c ≠ '\'') :
    Recoverable ((do return .literal (.text (← quoted)) : Parser Term) cs) :=
  bind_recoverable (quoted_recoverable h)

theorem listed_recoverable (h : cs.head? ≠ some '[') : Recoverable (listed T cs) :=
  bind_recoverable (char_recoverable h)

theorem parenthesised_recoverable (h : cs.head? ≠ some '(') : Recoverable (parenthesised T cs) :=
  bind_recoverable (char_recoverable h)

end Alternatives

include blank nested in
theorem primary_parenthesised {t : Term} (written : t.Written) (short : (t.phrase gap).text.length < size)
    (ends : Ends 11 rest) : primary T ('(' :: ((t.phrase gap).text ++ ')' :: (gap ++ rest))) = .ok t rest := by
  rw [primary_eq]
  refine spaced_bare (solid_cons (by decide)) ends.solid ?_
  rw [orElse_recoverable (construct_recoverable (by simp)), orElse_recoverable (number_alternative (by simp)),
    orElse_recoverable (quoted_alternative (by simp)), orElse_recoverable (listed_recoverable (by simp))]
  refine orElse_ok ?_
  rw [parenthesised, bind_ok (char_cons '(' _),
    bind_ok (nested.reads t written short _ (.closer 1 _ (by decide))),
    bind_ok (commit_ok (spaced_char (by decide) blank ends.solid))]
  rfl

include blank nested in
theorem primary_list {items : List Term} (written : ∀ t ∈ items, t.Written)
    (short : ∀ t ∈ items, (t.phrase gap).text.length < size) (ends : Ends 11 rest) :
    primary T ('[' :: (commas gap ((phrases gap items).map (·.text)) ++ ']' :: (gap ++ rest)))
      = .ok (.list items) rest := by
  rw [primary_eq]
  refine spaced_bare (solid_cons (by decide)) ends.solid ?_
  rw [orElse_recoverable (construct_recoverable (by simp)), orElse_recoverable (number_alternative (by simp)),
    orElse_recoverable (quoted_alternative (by simp))]
  refine orElse_ok ?_
  rw [listed, bind_ok (char_cons '[' _), bind_ok (items_read blank nested (by decide) written short _),
    bind_ok (commit_ok (spaced_char (by decide) blank ends.solid))]
  rfl

include blank in
theorem primary_int {n : Nat} (small : n < 0x8000000000000000) (ends : Ends 11 rest) :
    primary T (Nat.toDigits 10 n ++ (gap ++ rest)) = .ok (.literal (.int n)) rest := by
  obtain ⟨c, cs, digits⟩ := List.exists_cons_of_ne_nil (Nat.toDigits_ne_nil (b := 10) (n := n))
  have digit : c.isDigit := Nat.isDigit_of_mem_toDigits (b := 10) (n := n) (by decide) (by decide)
    (by simp [digits])
  have read : number (Nat.toDigits 10 n ++ (gap ++ rest)) = .ok (.int n) (gap ++ rest) := by
    refine number_int small (fun d hd => ?_) fun after same d hd => ?_
    · by_contra part
      have := (ends.apart.append blank) d hd
      rw [isNameChar_of_isDigit (by simpa using part)] at this
      cases this
    · cases gap with
      | nil => exact ends.whole same d hd
      | cons c gap =>
        cases same
        exact absurd (blank '.' (by simp)) (by decide)
  rw [primary_eq]
  refine spaced_ok ?_ blank ends.solid ?_
  · rw [digits]
    exact solid_cons (not_blank_of_opens (by simp [opens, digit]))
  · rw [orElse_recoverable (construct_recoverable ?_)]
    · exact orElse_ok (bind_ok read)
    · rw [digits]
      rintro ⟨⟩
      exact absurd digit (by decide)

include blank in
theorem primary_text (s : String) (ends : Ends 11 rest) :
    primary T ('"' :: (s.toList.flatMap escaped ++ '"' :: (gap ++ rest))) = .ok (.literal (.text s)) rest := by
  have read := quoted_text s (gap ++ rest)
  rw [List.cons_append] at read
  rw [primary_eq]
  refine spaced_ok (solid_cons (by decide)) blank ends.solid ?_
  rw [orElse_recoverable (construct_recoverable (by simp)), orElse_recoverable (number_alternative (by simp))]
  exact orElse_ok (bind_ok read)

/-- A word is none of the other primary terms. -/
theorem primary_word {first : Char} {word cs tail : List Char} {t : Term} (starts : startsName first)
    (part : ∀ c ∈ word, isNameChar c) (other : first :: word ≠ "new".toList) (apart : Apart cs)
    (read : named T (first :: word ++ cs) = .ok t tail) :
    primary T (first :: word ++ cs) = .ok t (Json.skipBlanks tail) := by
  have all : ∀ c ∈ first :: word, isNameChar c := by
    intro c hc
    rcases List.mem_cons.mp hc with rfl | hc
    exacts [isNameChar_of_startsName starts, part c hc]
  have unlike : ∀ c, startsName c = false → (first :: word ++ cs).head? ≠ some c := by
    rintro c hc ⟨⟩
    rw [starts] at hc
    cases hc
  have solid : Solid (first :: word ++ cs) := solid_of_startsName starts
  have unlikeNew : Recoverable (construct T (first :: word ++ cs)) :=
    bind_recoverable (keyword_recoverable all other apart)
  rw [primary_eq, spaced_eq, solid, orElse_recoverable unlikeNew, orElse_recoverable (number_alternative ?_), orElse_recoverable (quoted_alternative ?_),
    orElse_recoverable (listed_recoverable (unlike '[' (by decide))),
    orElse_recoverable (parenthesised_recoverable (unlike '(' (by decide))), read]
  · rintro c hc
    exact ⟨by rintro rfl; exact unlike '"' (by decide) hc, by rintro rfl; exact unlike '\'' (by decide) hc⟩
  · rintro c hc
    by_contra digit
    exact unlike c (startsName_of_isDigit (by simpa using digit)) hc

include blank in
theorem primary_constant (first : Char) (word : List Char) {l : Literal} (starts : startsName first)
    (part : ∀ c ∈ word, isNameChar c) (other : first :: word ≠ "new".toList)
    (read : ∀ cs, Apart cs → named T (first :: word ++ cs) = .ok (.literal l) cs) (ends : Ends 11 rest) :
    primary T (first :: word ++ (gap ++ rest)) = .ok (.literal l) rest := by
  have apart := ends.apart.append blank
  rw [primary_word starts part other apart (read _ apart), skipBlanks_append blank, ends.solid]

/-- A name is a call where arguments follow it. -/
theorem named_call {s : String} {cs : List Char} {args : List Term} (h : isIdentifier s) (apart : Apart cs)
    (read : arguments T cs = .ok args rest) : named T (s.toList ++ cs) = .ok (.function s args) rest := by
  obtain ⟨-, -, -, -, -, free⟩ := identifier_cases h
  simp only [List.mem_cons, List.not_mem_nil, or_false, not_or] at free
  simp only [named]
  rw [bind_ok (name_identifier h apart)]
  split
  · simp_all
  · simp_all
  · simp_all
  · rw [bind_ok (optional_ok read)]
    rfl

/-- A name is a variable where no arguments follow it. -/
theorem named_variable {s : String} {cs : List Char} (h : isIdentifier s) (apart : Apart cs)
    (none : Recoverable (arguments T cs)) : named T (s.toList ++ cs) = .ok (.variable s) cs := by
  obtain ⟨-, -, -, -, -, free⟩ := identifier_cases h
  simp only [List.mem_cons, List.not_mem_nil, or_false, not_or] at free
  simp only [named]
  rw [bind_ok (name_identifier h apart)]
  split
  · simp_all
  · simp_all
  · simp_all
  · rw [bind_ok (optional_recoverable none)]
    rfl

theorem primary_identifier {s : String} {cs tail : List Char} {t : Term} (h : isIdentifier s) (apart : Apart cs)
    (read : named T (s.toList ++ cs) = .ok t tail) :
    primary T (s.toList ++ cs) = .ok t (Json.skipBlanks tail) := by
  obtain ⟨first, word, letters, starts, part, free⟩ := identifier_cases h
  rw [letters] at read ⊢
  refine primary_word starts part (fun same => ?_) apart read
  refine absurd ?_ free
  rw [← String.ofList_toList (s := s), letters, same]
  decide

include blank in
theorem spaced_gap {α β : Type} {p : Parser α} {f : α → Parser β} (cs : List Char) :
    (spaced p >>= f) (gap ++ cs) = (spaced p >>= f) cs := by
  simp only [bind, spaced_eq, skipBlanks_append blank]

include blank in
theorem no_arguments {n : Nat} (ends : Ends n rest) : Recoverable (arguments T (gap ++ rest)) := by
  refine bind_recoverable (spaced_recoverable ?_)
  rw [skipBlanks_append blank, ends.solid]
  exact char_recoverable fun first => (ends.head '(' first).2.2 rfl

include blank in
theorem primary_variable {s : String} (h : isIdentifier s) (ends : Ends 11 rest) :
    primary T (s.toList ++ (gap ++ rest)) = .ok (.variable s) rest := by
  have apart := ends.apart.append blank
  rw [primary_identifier h apart (named_variable h apart (no_arguments blank ends)), skipBlanks_append blank,
    ends.solid]

include blank nested in
theorem primary_function {s : String} {args : List Term} (h : isIdentifier s) (written : ∀ t ∈ args, t.Written)
    (short : ∀ t ∈ args, (t.phrase gap).text.length < size) (ends : Ends 11 rest) :
    primary T (s.toList ++ (gap ++ (argumentsText gap (phrases gap args) ++ rest)))
      = .ok (.function s args) rest := by
  have apart : Apart (gap ++ (argumentsText gap (phrases gap args) ++ rest)) := by
    refine Apart.append blank ?_
    exact apart_cons _ (by decide)
  have read : arguments T (gap ++ (argumentsText gap (phrases gap args) ++ rest)) = .ok args rest := by
    rw [arguments, spaced_gap blank]
    exact arguments_read blank nested written short ends.solid
  rw [primary_identifier h apart (named_call h apart read), ends.solid]

def fieldSign : Parser Unit := spaced (do char '='; notBefore fun c => c == '=' || c == '>')

include blank in
theorem fieldSign_read {t : Term} (written : t.Written) :
    fieldSign ('=' :: (gap ++ ((t.phrase gap).text ++ rest))) = .ok () ((t.phrase gap).text ++ rest) := by
  have free := notBefore_shown blank written 1 rest (fun c => c == '=' || c == '>') fun c hc => by
    simp only [Bool.or_eq_true, beq_iff_eq] at hc
    rcases hc with rfl | rfl <;> decide
  rw [shown_of_le written.one_le_rank] at free
  exact spaced_ok (solid_cons (by decide)) blank (solid_text blank written rest)
    ((bind_ok (char_cons '=' _)).trans free)

include blank nested in
theorem field_read {s? : Option String} {t : Term} (name : ∀ s ∈ s?, isIdentifier s) (written : t.Written)
    (short : (fieldText gap s? (t.phrase gap)).length < size) (ends : Ends 1 rest) :
    field T (fieldText gap s? (t.phrase gap) ++ rest) = .ok (s?, t) rest := by
  rw [field_eq]
  cases s? with
  | none =>
    simp only [fieldText] at short ⊢
    rw [orElse_recoverable (namedField_recoverable blank T written ends)]
    exact bind_ok (nested.reads t written short rest ends)
  | some s =>
    simp only [fieldText, List.append_assoc, List.cons_append, List.length_append, List.length_cons] at short ⊢
    refine orElse_ok ?_
    have named := spaced_name blank (name s rfl) (apart_cons (c := '=') (gap ++ ((t.phrase gap).text ++ rest))
      (by decide)) (solid_cons (by decide))
    rw [namedField, bind_ok named]
    refine (bind_ok (fieldSign_read blank written)).trans ?_
    exact bind_ok (nested.reads t written (by omega) rest ends)

include blank in
theorem solid_field {s? : Option String} {t : Term} (name : ∀ s ∈ s?, isIdentifier s) (written : t.Written)
    (rest : List Char) : Solid (fieldText gap s? (t.phrase gap) ++ rest) := by
  cases s? with
  | none => exact solid_text blank written rest
  | some s =>
    simp only [fieldText, List.append_assoc]
    exact solid_identifier (name s rfl)

include blank nested in
theorem fields_read {fields : List (Option String × Term)} (names : ∀ f ∈ fields, ∀ s ∈ f.1, isIdentifier s)
    (written : ∀ f ∈ fields, f.2.Written)
    (short : ∀ f ∈ fields, (fieldText gap f.1 (f.2.phrase gap)).length < size) :
    commaItems (field T) (commas gap (fieldTexts gap fields) ++ '\x7d' :: rest) = .ok fields ('\x7d' :: rest) := by
  have closes : Recoverable (field T ('\x7d' :: rest)) := by
    rw [field_eq, orElse_recoverable]
    · exact bind_recoverable (nested.closes _ (by decide) _)
    · exact bind_recoverable (spaced_recoverable (name_recoverable (by rintro c ⟨⟩; decide)))
  have solid : ∀ f ∈ fields, ∀ rest, Solid (fieldText gap f.1 (f.2.phrase gap) ++ rest) := fun f hf rest =>
    solid_field blank (names f hf) (written f hf) rest
  have reads : ∀ f ∈ fields, ∀ rest, Ends 1 rest →
      field T (fieldText gap f.1 (f.2.phrase gap) ++ rest) = .ok f rest := fun f hf rest ends =>
    field_read blank nested (names f hf) (written f hf) (short f hf) ends
  rw [fieldTexts_eq]
  exact commaItems_map blank (by decide) _ fields rest closes solid reads

include blank in
theorem solid_fields {fields : List (Option String × Term)} (names : ∀ f ∈ fields, ∀ s ∈ f.1, isIdentifier s)
    (written : ∀ f ∈ fields, f.2.Written) (rest : List Char) : Solid (commas gap (fieldTexts gap fields) ++ '\x7d' :: rest) := by
  cases fields with
  | nil => exact solid_cons (by decide)
  | cons f fields =>
    simp only [fieldTexts, commas, List.append_assoc]
    exact solid_field blank (names f (by simp)) (written f (by simp)) _

include blank in
theorem typeName_read {typeName : Option String} (typed : ∀ s ∈ typeName, isIdentifier s) :
    Parser.optional (spaced name) (typeText gap typeName ++ '\x7b' :: rest) = .ok typeName (match typeName with
      | some _ => '\x7b' :: rest
      | none => gap ++ '\x7b' :: rest) := by
  cases typeName with
  | none =>
    refine optional_recoverable (spaced_recoverable (name_recoverable ?_))
    rw [typeText, skipBlanks_append blank, solid_cons (by decide)]
    rintro c ⟨⟩
    decide
  | some s =>
    refine optional_ok ?_
    have read := spaced_name blank (typed s rfl) (apart_cons (c := '\x7b') rest (by decide)) (solid_cons (by decide))
    simp only [typeText, List.cons_append, List.append_assoc]
    rwa [spaced_eq, Json.skipBlanks, if_pos (by decide), ← spaced_eq]

include blank nested in
theorem primary_construct {typeName : Option String} {fields : List (Option String × Term)}
    (typed : ∀ s ∈ typeName, isIdentifier s) (names : ∀ f ∈ fields, ∀ s ∈ f.1, isIdentifier s)
    (written : ∀ f ∈ fields, f.2.Written)
    (short : ∀ f ∈ fields, (fieldText gap f.1 (f.2.phrase gap)).length < size) (ends : Ends 11 rest) :
    primary T ("new".toList ++ (typeText gap typeName ++ '\x7b' :: (gap ++ (commas gap (fieldTexts gap fields)
      ++ '\x7d' :: (gap ++ rest))))) = .ok (.construct typeName fields) rest := by
  have apart : Apart (typeText gap typeName ++ '\x7b' :: (gap ++ (commas gap (fieldTexts gap fields)
      ++ '\x7d' :: (gap ++ rest)))) := by
    cases typeName with
    | none => exact Apart.append blank (apart_cons _ (by decide))
    | some s => exact apart_cons _ (by decide)
  have opened := spaced_char (c := '\x7b') (by decide) blank
    (solid_fields blank names written (gap ++ rest))
  have body : (do
      spaced (char '\x7b')
      let fields ← commaItems (field T)
      spaced (char '\x7d')
      return fields : Parser (List (Option String × Term))) ('\x7b' :: (gap ++ (commas gap (fieldTexts gap fields)
        ++ '\x7d' :: (gap ++ rest)))) = .ok fields rest := by
    rw [bind_ok opened, bind_ok (fields_read blank nested names written short),
      bind_ok (spaced_char (by decide) blank ends.solid)]
    rfl
  have solid : ∀ cs, Solid ("new".toList ++ cs) := fun cs => solid_cons (by decide)
  rw [primary_eq]
  refine spaced_bare (solid _) ends.solid (orElse_ok ?_)
  rw [construct, bind_ok (keyword_new apart), bind_ok (typeName_read blank typed)]
  cases typeName with
  | none => exact bind_ok (inside_ok (commit_ok ((spaced_gap blank _).trans body)))
  | some s => exact bind_ok (inside_ok (commit_ok body))

include blank nested in
/-- Terms that need no parentheses, and terms in parentheses, are read up to what cannot go on with
them. -/
theorem primary_shown {t : Term} (written : t.Written) (atom : (t.phrase gap).rank ≠ 10)
    (short : ((t.phrase gap).shown gap 10).length ≤ size) (ends : Ends 11 rest) :
    primary T ((t.phrase gap).shown gap 10 ++ rest) = .ok t rest := by
  rcases Nat.lt_or_ge (t.phrase gap).rank 10 with loose | tight
  · rw [shown_of_lt loose] at short ⊢
    simp only [List.cons_append, List.append_assoc, List.length_cons, List.length_append] at short ⊢
    exact primary_parenthesised blank nested written (by omega) ends
  rw [shown_of_le tight] at short ⊢
  cases written with
  | null =>
    simp only [Term.phrase, literalText, List.append_assoc]
    exact primary_constant blank 'n' "ull".toList (by decide) (List.all_eq_true.mp rfl) (by decide)
      (fun cs apart => bind_ok (name_word _ _ (by decide) (List.all_eq_true.mp rfl) apart)) ends
  | bool b =>
    simp only [Term.phrase, literalText, List.append_assoc]
    cases b
    · exact primary_constant blank 'f' "alse".toList (by decide) (List.all_eq_true.mp rfl) (by decide)
        (fun cs apart => bind_ok (name_word _ _ (by decide) (List.all_eq_true.mp rfl) apart)) ends
    · exact primary_constant blank 't' "rue".toList (by decide) (List.all_eq_true.mp rfl) (by decide)
        (fun cs apart => bind_ok (name_word _ _ (by decide) (List.all_eq_true.mp rfl) apart)) ends
  | int n small =>
    simp only [Term.phrase, literalText, List.append_assoc, Int.toNat_natCast]
    exact primary_int blank small ends
  | text s =>
    simp only [Term.phrase, literalText, List.append_assoc, List.cons_append]
    exact primary_text blank s ends
  | named s identifier =>
    simp only [Term.phrase, List.append_assoc]
    exact primary_variable blank identifier ends
  | list items written =>
    simp only [Term.phrase, List.append_assoc, List.cons_append, List.length_append, List.length_cons] at short ⊢
    exact primary_list blank nested written (short_items (by omega)) ends
  | function s args identifier written =>
    simp only [Term.phrase, List.append_assoc] at short ⊢
    simp only [argumentsText, List.length_append, List.length_cons] at short
    exact primary_function blank nested identifier written (short_items (by omega)) ends
  | construct typeName fields typed names written =>
    simp only [Term.phrase, List.append_assoc, List.cons_append, List.length_append, List.length_cons] at short ⊢
    exact primary_construct blank nested typed names written (short_fields (by omega)) ends
  | get | method => exact absurd rfl atom
  | lambda | cond =>
    have tight : 1 ≥ 10 := tight
    omega
  | unary op operand sign => rcases sign with rfl | rfl <;> exact absurd tight (by simp [Term.phrase, phrases, Op.phrase, Op.rank])
  | binary op left right not negate =>
    have := (Op.Binary.rank_le ⟨not, negate⟩).2
    have same : ((Term.apply op [left, right]).phrase gap).rank = op.rank := rfl
    omega

end Atoms

end ObjectQuery.Language
