import ObjectQuery.Proofs.ReadTerms

/-!
Reading operators back. The loops over accesses, calls and binary operators go on from a left operand
that they have read themselves, so what is shown of a term of their own precedence is what they have
read when they reach the text behind it. From the tightest precedence to the loosest, every term is
read; the length of its text bounds the nesting, so the whole text of a query is read.
-/

namespace ObjectQuery.Language

open ObjectQuery.Language.Parser

section Operators

variable {gap : List Char} (blank : ∀ c ∈ gap, Json.isBlank c) {T : Parser Term} {size : Nat}
  (nested : Nested gap T size) {t : Term} {rest : List Char}

def Chains (gap : List Char) (T : Parser Term) (t : Term) : Prop :=
  ∀ rest, Ends 11 rest → ∃ fuel, rest.length ≤ fuel
    ∧ chained T ((t.phrase gap).shown gap 10 ++ rest) = moreMembers T fuel t rest

include blank nested in
theorem chains_of_primary (written : t.Written) (atom : (t.phrase gap).rank ≠ 10)
    (short : ((t.phrase gap).shown gap 10).length ≤ size) : Chains gap T t := by
  intro rest ends
  refine ⟨rest.length, Nat.le_refl _, ?_⟩
  rw [chained, primary_shown blank nested written atom short ends]

include blank in
theorem member_read {s : String} (h : isIdentifier s) {rest : List Char} (apart : Apart rest) (solid : Solid rest) :
    (do spaced (char '.'); commit (spaced name) : Parser String)
      ('.' :: (gap ++ (s.toList ++ (gap ++ rest)))) = .ok s rest :=
  (bind_ok (spaced_char (by decide) blank (solid_identifier h))).trans
    (commit_ok (spaced_name blank h apart solid))

include blank in
theorem ends_member {s : String} (h : isIdentifier s) :
    Ends 11 ('.' :: (gap ++ (s.toList ++ rest))) := by
  refine .member (by decide) fun c hc => ?_
  cases gap with
  | nil =>
    obtain ⟨first, word, letters, starts, -⟩ := identifier_cases h
    rw [List.nil_append, letters] at hc
    cases hc
    by_contra digit
    rw [startsName_of_isDigit (by simpa using digit)] at starts
    cases starts
  | cons d gap =>
    cases hc
    by_contra digit
    have part := isNameChar_of_isDigit (c := c) (by simpa using digit)
    rw [isNameChar_of_isBlank (blank c (by simp))] at part
    cases part

/-- A text that goes on leaves fuel for what comes next. -/
theorem exists_fuel {fuel : Nat} {c : Char} {cs : List Char} (enough : (c :: cs).length ≤ fuel) :
    ∃ fuel', fuel = fuel' + 1 ∧ cs.length ≤ fuel' :=
  match fuel, enough with
  | fuel' + 1, enough => ⟨fuel', rfl, by simpa using enough⟩

include blank in
theorem Chains.get {target : Term} {s : String} (h : Chains gap T target) (member : isIdentifier s) :
    Chains gap T (.get target s) := by
  intro rest ends
  obtain ⟨fuel, enough, read⟩ := h ('.' :: (gap ++ (s.toList ++ (gap ++ rest)))) (ends_member blank member)
  obtain ⟨fuel, rfl, left⟩ := exists_fuel enough
  simp only [List.length_append] at left
  refine ⟨fuel, by omega, ?_⟩
  have none : Parser.optional (arguments T) rest = .ok none rest :=
    optional_recoverable (no_arguments (by simp : ∀ c ∈ ([] : List Char), Json.isBlank c) ends)
  rw [shown_of_le (Nat.le_refl 10)]
  simp only [Term.phrase, List.append_assoc, List.cons_append]
  rw [read]
  simp only [moreMembers, member_read blank member ends.apart ends.solid, none]

include blank nested in
theorem Chains.method {target : Term} {s : String} {args : List Term} (h : Chains gap T target)
    (name : isIdentifier s) (written : ∀ t ∈ args, t.Written)
    (short : ∀ t ∈ args, (t.phrase gap).text.length < size) : Chains gap T (.method target s args) := by
  intro rest ends
  obtain ⟨fuel, enough, read⟩ := h ('.' :: (gap ++ (s.toList ++ (gap ++
    (argumentsText gap (phrases gap args) ++ rest))))) (ends_member blank name)
  obtain ⟨fuel, rfl, left⟩ := exists_fuel enough
  simp only [List.length_append] at left
  refine ⟨fuel, by omega, ?_⟩
  have called := optional_ok (arguments_read blank nested written short ends.solid)
  rw [shown_of_le (Nat.le_refl 10)]
  simp only [Term.phrase, List.append_assoc, List.cons_append]
  rw [read]
  have apart : Apart (argumentsText gap (phrases gap args) ++ rest) := apart_cons _ (by decide)
  simp only [moreMembers, member_read blank name apart (solid_cons (by decide)), called]

theorem Ends.no_member {n : Nat} (ends : Ends n rest) (low : n ≤ 10) : rest.head? ≠ some '.' := by
  cases ends with
  | nil => simp
  | closer cs hc =>
    rintro ⟨⟩
    exact absurd hc (by decide)
  | question => simp
  | @operator op cs =>
    rw [op.head?_append]
    cases op <;> simp [Op.symbol]
  | member lt => omega

theorem Chains.reads (h : Chains gap T t) (ends : Ends 10 rest) :
    chained T ((t.phrase gap).shown gap 10 ++ rest) = .ok t rest := by
  obtain ⟨fuel, -, read⟩ := h rest (ends.mono (by decide))
  rw [read]
  cases fuel with
  | zero => rfl
  | succ fuel =>
    obtain ⟨f, fails⟩ := bind_recoverable (f := fun _ => commit (spaced name))
      (spaced_char_recoverable ends.solid (ends.no_member (Nat.le_refl 10)))
    simp only [moreMembers, fails]

def Signs (gap : List Char) (T : Parser Term) (t : Term) : Prop :=
  ∀ fuel, ((t.phrase gap).shown gap 9).length ≤ fuel → ∀ rest, Ends 10 rest →
    unary (chained T) fuel ((t.phrase gap).shown gap 9 ++ rest) = .ok t rest

include blank in
theorem unsigned (written : t.Written) : ∃ c cs, (t.phrase gap).shown gap 10 = c :: cs
    ∧ Json.isBlank c = false ∧ c ≠ '!' ∧ c ≠ '-' := by
  have begins : Opening gap 10 (fun _ => True) ((t.phrase gap).shown gap 10 ++ []) :=
    opening_shown (Nat.le_refl 10) written fun fits => opening_text blank within_anything written
      (Nat.le_refl 10) fits (by simp [Apart]) rfl (fun _ => trivial) fun loose => by omega
  rw [List.append_nil] at begins
  obtain ⟨c, cs, same, first⟩ := exists_opens_shown blank written 10
  refine ⟨c, cs, same, not_blank_of_opens first, ?_⟩
  rw [same] at begins
  cases begins with
  | mark cs mark =>
    rcases mark with rfl | rfl | digit
    · decide
    · decide
    · refine ⟨?_, ?_⟩ <;> rintro rfl <;> exact absurd digit (by decide)
  | sign cs low | params cs low => omega
  | parenthesis => decide
  | word starts => refine ⟨?_, ?_⟩ <;> rintro rfl <;> exact absurd starts (by decide)

theorem shown_tight {p : Phrase} {n : Nat} (other : p.rank ≠ n) : p.shown gap n = p.shown gap (n + 1) := by
  rcases Nat.lt_or_ge p.rank n with loose | tight
  · rw [shown_of_lt loose, shown_of_lt (by omega)]
  · rw [shown_of_le tight, shown_of_le (by omega)]

include blank in
theorem Chains.signs (h : Chains gap T t) (written : t.Written) (other : (t.phrase gap).rank ≠ 9) :
    Signs gap T t := by
  intro fuel _ rest ends
  rw [shown_tight other]
  cases fuel with
  | zero => exact h.reads ends
  | succ fuel =>
    obtain ⟨c, cs, same, visible, not, negate⟩ := unsigned blank written
    have read := h.reads ends
    rw [same] at read ⊢
    rw [unary, orElse_recoverable, orElse_recoverable]
    · exact read
    · exact bind_recoverable (spaced_char_recoverable (solid_cons visible) (by simpa using negate))
    · refine bind_recoverable (spaced_recoverable (bind_recoverable ?_))
      rw [List.cons_append, solid_cons visible]
      exact char_recoverable (by simpa using not)

include blank in
theorem Signs.unary {op : Op} {operand : Term} (h : Signs gap T operand) (written : operand.Written)
    (sign : op = .not ∨ op = .negate) : Signs gap T (.apply op [operand]) := by
  intro fuel enough rest ends
  have rank : op.rank = 9 := by rcases sign with rfl | rfl <;> rfl
  have text : ((Term.apply op [operand]).phrase gap).shown gap 9
      = op.symbol.toList ++ gap ++ (operand.phrase gap).shown gap 9 := by
    rw [shown_of_le (Nat.le_of_eq rank.symm)]
    simp only [Term.phrase, phrases, Op.phrase, rank]
  rw [text] at enough ⊢
  simp only [List.append_assoc]
  rcases sign with rfl | rfl
  · have enough : ('!' :: (gap ++ (operand.phrase gap).shown gap 9)).length ≤ fuel := enough
    obtain ⟨fuel, rfl, left⟩ := exists_fuel enough
    simp only [List.length_append] at left
    have free := notBefore_shown blank written 9 rest (· == '=') fun c hc => by
      obtain rfl : c = '=' := by simpa using hc
      decide
    have read : spaced (do char '!'; notBefore (· == '=')) ('!' :: (gap ++ ((operand.phrase gap).shown gap 9 ++ rest)))
        = .ok () ((operand.phrase gap).shown gap 9 ++ rest) :=
      spaced_ok (solid_cons (by decide)) blank (solid_shown blank written 9 rest)
        ((bind_ok (char_cons '!' _)).trans free)
    exact orElse_ok ((bind_ok read).trans (bind_ok (h fuel (by omega) rest ends)))
  · have enough : ('-' :: (gap ++ (operand.phrase gap).shown gap 9)).length ≤ fuel := enough
    obtain ⟨fuel, rfl, left⟩ := exists_fuel enough
    simp only [List.length_append] at left
    have read := spaced_char (c := '-') (by decide) blank (solid_shown blank written 9 rest)
    refine (orElse_recoverable (bind_recoverable (spaced_recoverable (bind_recoverable ?_)))).trans
      (orElse_ok ((bind_ok read).trans (bind_ok (h fuel (by omega) rest ends))))
    exact char_recoverable (by simp [Op.symbol, Json.skipBlanks, Json.isBlank])

def tier (operand : Parser Term) (n : Nat) : Parser Term :=
  (levels.drop (n - 2)).foldr (fun ops tighter => level tighter ops) operand

theorem tier_eq (operand : Parser Term) {n : Nat} (low : 2 ≤ n) (high : n ≤ 8) :
    tier operand n = level (tier operand (n + 1)) (Op.ofRank n) := by
  interval_cases n <;> rfl

variable {operand : Parser Term} {n : Nat}

def Loops (gap : List Char) (operand : Parser Term) (n : Nat) (t : Term) : Prop :=
  ∀ rest, Ends (n + 1) rest → ∃ fuel, rest.length ≤ fuel
    ∧ tier operand n ((t.phrase gap).shown gap n ++ rest)
      = moreOperands (tier operand (n + 1)) (Op.ofRank n) fuel t rest

def Tier (gap : List Char) (operand : Parser Term) (n : Nat) (t : Term) : Prop :=
  ∀ rest, Ends n rest → tier operand n ((t.phrase gap).shown gap n ++ rest) = .ok t rest

theorem Loops.tier (h : Loops gap operand n t) (low : 2 ≤ n) (high : n ≤ 8) : Tier gap operand n t := by
  intro rest ends
  obtain ⟨fuel, -, read⟩ := h rest (ends.mono (by omega))
  rw [read]
  cases fuel with
  | zero => rfl
  | succ fuel =>
    obtain ⟨f, fails⟩ : Recoverable (spaced (operator (Op.ofRank n)) rest) := by
      refine spaced_recoverable ?_
      rw [ends.solid]
      exact operator_ends ends low high
    simp only [moreOperands, fails]

/-- An operand of another precedence is read at once. -/
theorem Tier.loops (h : Tier gap operand (n + 1) t) (other : (t.phrase gap).rank ≠ n) (low : 2 ≤ n)
    (high : n ≤ 8) : Loops gap operand n t := by
  intro rest ends
  refine ⟨rest.length, Nat.le_refl _, ?_⟩
  rw [tier_eq operand low high, level, shown_tight other, h rest ends]

include blank in
theorem operator_read {op : Op} (binary : op.Binary) (written : t.Written) :
    spaced (operator (Op.ofRank op.rank)) (op.symbol.toList ++ (gap ++ ((t.phrase gap).shown gap n ++ rest)))
      = .ok op ((t.phrase gap).shown gap n ++ rest) := by
  refine spaced_ok ?_ blank (solid_shown blank written n rest) (operator_symbol binary ?_)
  · exact (Ends.operator (n := 11) _ binary (by have := binary.rank_le; omega)).solid
  · exact head?_gap_shown blank written n rest (by decide) (by decide)

include blank in
theorem Loops.binary {op : Op} {left right : Term} (binary : op.Binary)
    (hl : Loops gap operand op.rank left) (hr : Tier gap operand (op.rank + 1) right)
    (written : right.Written) : Loops gap operand op.rank (.apply op [left, right]) := by
  intro rest ends
  have behind : Ends (op.rank + 1) (op.symbol.toList ++ (gap ++ ((right.phrase gap).shown gap (op.rank + 1) ++ rest))) :=
    .operator _ binary (by omega)
  obtain ⟨fuel, enough, read⟩ := hl _ behind
  simp only [List.length_append] at enough
  have symbol : 0 < op.symbol.toList.length := by cases op <;> decide
  obtain ⟨fuel, rfl⟩ := Nat.exists_eq_add_of_le' (show 1 ≤ fuel by omega)
  refine ⟨fuel, by omega, ?_⟩
  rw [shown_of_le (Nat.le_refl op.rank)]
  simp only [Term.phrase, phrases, Op.phrase, List.append_assoc]
  rw [read]
  simp only [moreOperands, operator_read blank binary written, commit_ok (hr rest ends)]

structure Read (gap : List Char) (T : Parser Term) (size : Nat) (t : Term) : Prop where
  chains : ((t.phrase gap).shown gap 10).length ≤ size → Chains gap T t
  signs : ((t.phrase gap).shown gap 9).length ≤ size → Signs gap T t
  loops : ∀ n, 2 ≤ n → n ≤ 8 → ((t.phrase gap).shown gap n).length ≤ size → ∀ fuel, size ≤ fuel →
    Loops gap (unary (chained T) fuel) n t

theorem Read.tier (h : Read gap T size t) {n : Nat} (low : 2 ≤ n) (high : n ≤ 9)
    (short : ((t.phrase gap).shown gap n).length ≤ size) {fuel : Nat} (enough : size ≤ fuel) :
    Tier gap (unary (chained T) fuel) n t := by
  rcases Nat.lt_or_ge n 9 with lower | top
  · exact (h.loops n low (by omega) short fuel enough).tier low (by omega)
  · obtain rfl : n = 9 := by omega
    exact fun rest ends => h.signs short fuel (by omega) rest (ends.mono (by decide))

/-- What is read at the tightest precedences is read at all of them, if it is where its own operator
stands. -/
theorem Read.of_tight (chains : ((t.phrase gap).shown gap 10).length ≤ size → Chains gap T t)
    (signs : ((t.phrase gap).shown gap 9).length ≤ size → Signs gap T t)
    (own : 2 ≤ (t.phrase gap).rank → (t.phrase gap).rank ≤ 8 → (t.phrase gap).text.length ≤ size →
      ∀ fuel, size ≤ fuel → Loops gap (unary (chained T) fuel) (t.phrase gap).rank t) :
    Read gap T size t := by
  -- downwards from the signs
  have tiers : ∀ k n, n + k = 9 → 2 ≤ n → ((t.phrase gap).shown gap n).length ≤ size → ∀ fuel, size ≤ fuel →
      Tier gap (unary (chained T) fuel) n t
        ∧ (n ≤ 8 → Loops gap (unary (chained T) fuel) n t) := by
    intro k
    induction k with
    | zero =>
      rintro n rfl - short fuel enough
      exact ⟨fun rest ends => signs short fuel (by omega) rest (ends.mono (by decide)), fun high => by omega⟩
    | succ k ih =>
      intro n sum low short fuel enough
      have loops : Loops gap (unary (chained T) fuel) n t := by
        by_cases here : (t.phrase gap).rank = n
        · subst here
          rw [shown_of_le (Nat.le_refl _)] at short
          exact own low (by omega) short fuel enough
        · have tighter := ih (n + 1) (by omega) (by omega) (by rwa [← shown_tight here]) fuel enough
          exact tighter.1.loops here low (by omega)
      exact ⟨loops.tier low (by omega), fun _ => loops⟩
  exact ⟨chains, signs, fun n low high short fuel enough =>
    (tiers (9 - n) n (by omega) low short fuel enough).2 high⟩

include blank in
theorem Read.of_chains (written : t.Written) (other : (t.phrase gap).rank < 2 ∨ 9 < (t.phrase gap).rank)
    (chains : ((t.phrase gap).shown gap 10).length ≤ size → Chains gap T t) : Read gap T size t := by
  have unsigned : (t.phrase gap).rank ≠ 9 := by omega
  refine .of_tight chains (fun short => (chains ?_).signs blank written unsigned) fun low high => by omega
  rwa [← shown_tight unsigned]

include blank nested in
theorem Read.of_primary (written : t.Written) (rank : (t.phrase gap).rank = 1 ∨ (t.phrase gap).rank = 11) :
    Read gap T size t :=
  .of_chains blank written (by omega) fun short => chains_of_primary blank nested written (by omega) short

include blank nested in
/-- Every term is read at every precedence. -/
theorem Term.Written.read (h : t.Written) : Read gap T size t := by
  induction h with
  | null => exact .of_primary blank nested .null (.inr rfl)
  | bool b => exact .of_primary blank nested (.bool b) (.inr rfl)
  | int n small => exact .of_primary blank nested (.int n small) (.inr rfl)
  | text s => exact .of_primary blank nested (.text s) (.inr rfl)
  | named s identifier => exact .of_primary blank nested (.named s identifier) (.inr rfl)
  | list items written _ => exact .of_primary blank nested (.list items written) (.inr rfl)
  | get target member written identifier ih =>
    refine .of_chains blank (.get target member written identifier) (.inr (by simp [Term.phrase])) fun short =>
      (ih.chains ?_).get blank identifier
    rw [shown_of_le (Nat.le_refl 10)] at short
    simp only [Term.phrase, List.length_append] at short
    omega
  | method target s args written identifier argsWritten ih _ =>
    refine .of_chains blank (.method target s args written identifier argsWritten)
      (.inr (by simp [Term.phrase])) fun short => ?_
    rw [shown_of_le (Nat.le_refl 10)] at short
    simp only [Term.phrase, argumentsText, List.length_append, List.length_cons] at short
    exact (ih.chains (by omega)).method blank nested identifier argsWritten (short_items (by omega))
  | function s args identifier written _ =>
    exact .of_primary blank nested (.function s args identifier written) (.inr rfl)
  | lambda params body identifiers written _ =>
    exact .of_primary blank nested (.lambda params body identifiers written) (.inl rfl)
  | construct typeName fields typed names written _ =>
    exact .of_primary blank nested (.construct typeName fields typed names written) (.inr rfl)
  | unary op operand sign written ih =>
    have rank : ((Term.apply op [operand]).phrase gap).rank = 9 := by rcases sign with rfl | rfl <;> rfl
    have whole := Term.Written.unary op operand sign written
    refine .of_tight (fun short => ?_) (fun short => (ih.signs ?_).unary blank written sign) fun low high => by omega
    · exact chains_of_primary blank nested whole (by omega) short
    · rw [shown_of_le (Nat.le_of_eq rank.symm)] at short
      have sign : op.rank = 9 := rank
      simp only [Term.phrase, phrases, Op.phrase, List.length_append, sign] at short
      omega
  | binary op left right not negate hl hr ihl ihr =>
    have binary : op.Binary := ⟨not, negate⟩
    obtain ⟨low, high⟩ := binary.rank_le
    have whole := Term.Written.binary op left right not negate hl hr
    have rank : ((Term.apply op [left, right]).phrase gap).rank = op.rank := rfl
    have chains : (((Term.apply op [left, right]).phrase gap).shown gap 10).length ≤ size →
        Chains gap T (.apply op [left, right]) := chains_of_primary blank nested whole (by omega)
    refine .of_tight chains (fun short => (chains ?_).signs blank whole (by omega)) fun _ _ short fuel enough => ?_
    · rwa [← shown_tight (by omega)]
    · simp only [Term.phrase, phrases, Op.phrase, List.length_append] at short
      exact (ihl.loops op.rank low high (by omega) fuel enough).binary blank binary
        (ihr.tier (by omega) (by omega) (by omega) enough) hr
  | cond test onTrue onFalse hTest hTrue hFalse _ _ _ =>
    exact .of_primary blank nested (.cond test onTrue onFalse hTest hTrue hFalse) (.inl rfl)

include blank in
theorem parameters_read {params : List String} (identifiers : ∀ s ∈ params, isIdentifier s) {cs : List Char} :
    parameters (paramsText gap params ++ '=' :: cs) = .ok params ('=' :: cs) := by
  have solid : Solid ('=' :: cs) := solid_cons (by decide)
  have apart : Apart ('=' :: cs) := apart_cons cs (by decide)
  have list : ∀ params : List String, (∀ s ∈ params, isIdentifier s) →
      parameters ('(' :: (commas gap (params.map fun s => s.toList ++ gap) ++ ')' :: (gap ++ '=' :: cs)))
        = .ok params ('=' :: cs) := by
    intro params identifiers
    have closes : Recoverable (spaced name (')' :: (gap ++ '=' :: cs))) :=
      spaced_recoverable (name_recoverable (by rintro c ⟨⟩; decide))
    have read := commaItems_map blank (by decide) (fun s => s.toList ++ gap) params _ closes
      (fun s hs rest => by rw [List.append_assoc]; exact solid_identifier (identifiers s hs))
      fun s hs rest ends => by
        rw [List.append_assoc]
        exact spaced_name blank (identifiers s hs) ends.apart ends.solid
    refine spaced_ok (solid_cons (by decide)) blank solid ?_
    rw [orElse_recoverable (bind_recoverable (name_recoverable (by rintro c ⟨⟩; decide))), parameterList,
      bind_ok (char_cons '(' _), bind_ok read, bind_ok (char_cons ')' _)]
    rfl
  rcases params with _ | ⟨param, _ | ⟨second, params⟩⟩
  · simpa [paramsText] using list [] identifiers
  · rw [paramsText, List.append_assoc]
    have identifier := identifiers param (by simp)
    exact spaced_ok (solid_identifier identifier) blank solid
      (orElse_ok (bind_ok (name_identifier identifier (apart.append blank))))
  · simpa [paramsText] using list (param :: second :: params) identifiers

include blank nested in
theorem lambda_read {params : List String} {body : Term} (identifiers : ∀ s ∈ params, isIdentifier s)
    (written : body.Written) (short : (body.phrase gap).text.length < size) (ends : Ends 1 rest) :
    lambda T (paramsText gap params ++ ('=' :: '>' :: (gap ++ ((body.phrase gap).text ++ rest))))
      = .ok (.lambda params body) rest := by
  have arrow : spaced (token ['=', '>']) ('=' :: '>' :: (gap ++ ((body.phrase gap).text ++ rest)))
      = .ok () ((body.phrase gap).text ++ rest) :=
    spaced_ok (solid_cons (by decide)) blank (solid_text blank written rest) (token_append ['=', '>'] _)
  rw [lambda_eq, bind_ok (parameters_read blank identifiers), bind_ok arrow,
    bind_ok (commit_ok (inside_ok (nested.reads body written short rest ends)))]
  rfl

def test (T : Parser Term) : Parser Term := fun cs => binary (unary (chained T) cs.length) cs

include blank nested in
theorem test_read (h : t.Written) (short : ((t.phrase gap).shown gap 2).length ≤ size) {rest : List Char}
    (ends : Ends 2 rest) :
    test T ((t.phrase gap).shown gap 2 ++ rest) = .ok t rest := by
  have smaller : Nested gap T ((t.phrase gap).shown gap 2).length :=
    ⟨fun t h less => nested.reads t h (by omega), nested.closes⟩
  exact (h.read blank smaller).tier (Nat.le_refl 2) (by decide) (Nat.le_refl _) (by simp) rest ends

def branches (T : Parser Term) : Parser (Term × Term) := do
  spaced (do char '?'; notBefore (· == '?'))
  commit (do
    let onTrue ← T
    spaced (char ':')
    let onFalse ← T
    return (onTrue, onFalse))

theorem conditional_eq (T : Parser Term) : conditional T = (do
    let test ← test T
    match ← Parser.optional (branches T) with
    | some (onTrue, onFalse) => return .cond test onTrue onFalse
    | none => return test) := rfl

include blank nested in
theorem conditional_test (h : t.Written) (short : (t.phrase gap).text.length ≤ size)
    (tight : 2 ≤ (t.phrase gap).rank) (ends : Ends 1 rest) :
    conditional T ((t.phrase gap).text ++ rest) = .ok t rest := by
  have none : Parser.optional (branches T) rest = .ok none rest := by
    refine optional_recoverable (bind_recoverable (spaced_recoverable (bind_recoverable ?_)))
    rw [ends.solid]
    exact char_recoverable fun first => absurd (ends.head_one '?' first) (by decide)
  have read := test_read blank nested h (by rwa [shown_of_le tight]) (ends.mono (by decide))
  rw [shown_of_le tight] at read
  rw [conditional_eq, bind_ok read, bind_ok none]
  rfl

include blank nested in
theorem conditional_branches {onTrue onFalse : Term} (h : t.Written) (hTrue : onTrue.Written)
    (hFalse : onFalse.Written) (shortTest : ((t.phrase gap).shown gap 2).length ≤ size)
    (shortTrue : (onTrue.phrase gap).text.length < size) (shortFalse : (onFalse.phrase gap).text.length < size)
    (ends : Ends 1 rest) :
    conditional T ((t.phrase gap).shown gap 2 ++ '?' :: (gap ++ ((onTrue.phrase gap).text ++ ':' :: (gap
      ++ ((onFalse.phrase gap).text ++ rest))))) = .ok (.cond t onTrue onFalse) rest := by
  have free := notBefore_shown blank hTrue 1 (':' :: (gap ++ ((onFalse.phrase gap).text ++ rest)))
    (· == '?') fun c hc => by
      obtain rfl : c = '?' := by simpa using hc
      decide
  have single := head?_gap_shown (c := '?') blank hTrue 1 (':' :: (gap ++ ((onFalse.phrase gap).text ++ rest)))
    (by decide) (by decide)
  rw [shown_of_le hTrue.one_le_rank] at free single
  have question : spaced (do char '?'; notBefore (· == '?')) ('?' :: (gap ++ ((onTrue.phrase gap).text ++ ':' ::
      (gap ++ ((onFalse.phrase gap).text ++ rest)))))
      = .ok () ((onTrue.phrase gap).text ++ ':' :: (gap ++ ((onFalse.phrase gap).text ++ rest))) :=
    spaced_ok (solid_cons (by decide)) blank (solid_text blank hTrue _) ((bind_ok (char_cons '?' _)).trans free)
  have both : branches T ('?' :: (gap ++ ((onTrue.phrase gap).text ++ ':' :: (gap
      ++ ((onFalse.phrase gap).text ++ rest))))) = .ok (onTrue, onFalse) rest := by
    rw [branches, bind_ok question]
    refine commit_ok ?_
    rw [bind_ok (nested.reads onTrue hTrue shortTrue _ (.closer 1 _ (by decide))),
      bind_ok (spaced_char (by decide) blank (solid_text blank hFalse rest)),
      bind_ok (nested.reads onFalse hFalse shortFalse rest ends)]
    rfl
  rw [conditional_eq, bind_ok (test_read blank nested h shortTest (.question (by decide) single)),
    bind_ok (optional_ok both)]
  rfl

section Closers

variable {close : Char} (closes : close ∈ [')', ']', '\x7d']) (rest : List Char)

include closes in
theorem closer_cases : Solid (close :: rest) ∧ startsName close = false ∧ close.isDigit = false
    ∧ close ∉ ['n', '"', '\'', '[', '(', '!', '-'] := by
  have ends : Ends 1 (close :: rest) := .closer 1 rest (List.mem_append_left [',', ':'] closes)
  refine ⟨ends.solid, ?_⟩
  simp only [List.mem_cons, List.not_mem_nil, or_false] at closes
  rcases closes with rfl | rfl | rfl <;> decide

include closes in
/-- No term begins with a closing character. -/
theorem primary_recoverable : Recoverable (primary T (close :: rest)) := by
  obtain ⟨solid, nameless, digit, other⟩ := closer_cases closes rest
  simp only [List.mem_cons, List.not_mem_nil, or_false, not_or] at other
  rw [primary_eq]
  refine spaced_recoverable ?_
  rw [solid, orElse_recoverable (construct_recoverable (by simp [other])),
    orElse_recoverable (number_alternative (by simp [digit])),
    orElse_recoverable (quoted_alternative (by simp [other])),
    orElse_recoverable (listed_recoverable (by simp [other])),
    orElse_recoverable (parenthesised_recoverable (by simp [other]))]
  exact bind_recoverable (name_recoverable (by simp [nameless]))

include closes in
theorem test_recoverable : Recoverable (test T (close :: rest)) := by
  obtain ⟨solid, -, -, other⟩ := closer_cases closes rest
  simp only [List.mem_cons, List.not_mem_nil, or_false, not_or] at other
  have operand : Recoverable (unary (chained T) (close :: rest).length (close :: rest)) := by
    rw [List.length_cons, unary, orElse_recoverable, orElse_recoverable]
    · obtain ⟨f, fails⟩ := primary_recoverable (T := T) closes rest
      exact ⟨f, by rw [chained, fails]⟩
    · exact bind_recoverable (spaced_char_recoverable solid (by simp [other]))
    · refine bind_recoverable (spaced_recoverable (bind_recoverable ?_))
      rw [solid]
      exact char_recoverable (by simp [other])
  have levels : ∀ ls : List (List Op), Recoverable (ls.foldr (fun ops tighter => level tighter ops)
      (unary (chained T) (close :: rest).length) (close :: rest)) := by
    intro ls
    induction ls with
    | nil => exact operand
    | cons ops ls ih =>
      obtain ⟨f, fails⟩ := ih
      exact ⟨f, by rw [List.foldr_cons, level, fails]⟩
  exact levels _

end Closers

include blank in
/-- With fuel for the length of a text, nested terms are read. -/
theorem nested_term (fuel : Nat) : Nested gap (term fuel) fuel := by
  induction fuel with
  | zero => exact ⟨fun t h short => absurd short (Nat.not_lt_zero _), fun _ _ _ => ⟨_, rfl⟩⟩
  | succ fuel ih =>
    refine ⟨fun t h short rest ends => ?_, fun close closes rest => ?_⟩
    · have short : (t.phrase gap).text.length ≤ fuel := by omega
      rcases Nat.lt_or_ge (t.phrase gap).rank 2 with loose | tight
      · cases h with
        | lambda params body identifiers written =>
          simp only [Term.phrase, List.append_assoc, List.length_append, List.length_cons, List.cons_append] at short ⊢
          exact orElse_ok (lambda_read blank ih identifiers written (by omega) ends)
        | cond test onTrue onFalse hTest hTrue hFalse =>
          simp only [Term.phrase, List.append_assoc, List.length_append, List.length_cons, List.cons_append] at short ⊢
          have question : Ends 2 ('?' :: (gap ++ ((onTrue.phrase gap).text ++ ':' :: (gap
              ++ ((onFalse.phrase gap).text ++ rest))))) := by
            refine .question (by decide) ?_
            rw [← shown_of_le hTrue.one_le_rank]
            exact head?_gap_shown blank hTrue 1 _ (by decide) (by decide)
          exact (orElse_recoverable (lambda_recoverable blank _ (opening_operators blank hTest question))).trans
            (conditional_branches blank ih hTest hTrue hFalse (by omega) (by omega) (by omega) ends)
        | unary op operand sign => rcases sign with rfl | rfl <;> exact absurd loose (by decide : ¬9 < 2)
        | binary op left right not negate => exact absurd (Op.Binary.rank_le ⟨not, negate⟩).1 (Nat.not_le.mpr loose)
        | _ => exact absurd loose (by simp [Term.phrase])
      · have begins := opening_operators blank h (ends.mono (by decide : 1 ≤ 2))
        rw [shown_of_le tight] at begins
        exact (orElse_recoverable (lambda_recoverable blank _ begins)).trans
          (conditional_test blank ih h short tight ends)
    · obtain ⟨solid, nameless, -, other⟩ := closer_cases closes rest
      simp only [List.mem_cons, List.not_mem_nil, or_false, not_or] at other
      have headless := lambda_headless (term fuel) solid (name_recoverable (by simp [nameless]))
        (bind_recoverable (char_recoverable (by simp [other])))
      rw [term, orElse_recoverable headless, conditional_eq]
      exact bind_recoverable (test_recoverable closes rest)

end Operators

/-- Reading undoes writing. -/
theorem parse_print {gap : List Char} (blank : ∀ c ∈ gap, Json.isBlank c) {t : Term} (h : t.Written) :
    parse (t.print gap) = .ok t := by
  have read := (nested_term blank ((t.phrase gap).text.length + 1)).reads t h (Nat.lt_succ_self _) [] (.nil 1)
  rw [List.append_nil] at read
  simp [parse, Term.print, String.toList_ofList, read]

namespace Sample

def nestedTerm : Term :=
  .lambda ["x", "y"] (.cond (.apply .coalesce [.variable "a", .apply .not [.apply .equal [.variable "x", .literal .null]]])
    (.method (.cond (.variable "b") (.apply .negate [.literal (.int 1)]) (.literal (.text "\"\\"))) "f"
      [.lambda ["z"] (.construct none [(some "g", .get (.variable "z") "h"), (none, .list [])])])
    (.apply .minus [.variable "a", .apply .minus [.variable "b", .function "c" []]]))

theorem nestedTerm_written : nestedTerm.Written := by
  refine .lambda _ _ (by decide) (.cond _ _ _ ?test ?onTrue ?onFalse)
  case test =>
    exact .binary _ _ _ (by decide) (by decide) (.named _ (by decide)) (.unary _ _ (.inl rfl)
      (.binary _ _ _ (by decide) (by decide) (.named _ (by decide)) .null))
  case onTrue =>
    have inner : (Term.cond (.variable "b") (.apply .negate [.literal (.int 1)]) (.literal (.text "\"\\"))).Written :=
      .cond _ _ _ (.named _ (by decide)) (.unary _ _ (.inr rfl) (.int 1 (by decide))) (.text _)
    refine .method _ _ _ inner (by decide) (List.forall_mem_singleton.mpr (.lambda _ _ (by decide) ?_))
    refine .construct _ _ (by decide) (by decide) (List.forall_mem_cons.mpr ⟨?_, List.forall_mem_singleton.mpr ?_⟩)
    · exact .get _ _ (.named _ (by decide)) (by decide)
    · exact .list _ (by simp)
  case onFalse =>
    exact .binary _ _ _ (by decide) (by decide) (.named _ (by decide)) (.binary _ _ _ (by decide) (by decide)
      (.named _ (by decide)) (.function _ _ (by decide) (by simp)))

theorem parse_print_nestedTerm : (∀ c ∈ [' '], Json.isBlank c) ∧ nestedTerm.Written
    ∧ nestedTerm.print [' '] = "(x , y ) => a ?? ! (x == null ) ? (b ? - 1 : \"\\\"\\\\\" ) "
      ++ ". f ( z => new \x7b g = z . h , [] \x7d ) : a - (b - c ( ) ) "
    ∧ parse (nestedTerm.print [' ']) = .ok nestedTerm :=
  ⟨by simp [Json.isBlank], nestedTerm_written, by cbv, parse_print (by simp [Json.isBlank]) nestedTerm_written⟩

end Sample

end ObjectQuery.Language
