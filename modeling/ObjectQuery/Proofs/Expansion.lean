import ObjectQuery.Proofs.Plain
import ObjectQuery.Rewrite.Comparisons

/-!
Comparisons of objects, expanded in plain expressions. The pass fails on objects that cannot be
compared; `expanded` leaves their comparisons as they are, so that it is there for every expression.
Where the pass succeeds it does the same.
-/

namespace ObjectQuery

open Eval Comparisons

variable {P : Column → Prop} {e : Expr} {σ : Column → Expr} {name : String}

theorem Value.Exact.same_self {v : Value} (h : v.Exact) : Value.same v v = true := by
  induction h with
  | @list items _ ih =>
    rw [Value.same]
    induction items with
    | nil => rfl
    | cons a rest tail =>
      rw [Value.sameList, ih a (by simp), tail (fun v hv => by simp_all) fun v hv => ih v (by simp [hv])]
      rfl
  | _ => simp [Value.same]

namespace Plain

variable {members : Prop}

/-- A plain expression compares equal to itself. -/
theorem same_self (h : Plain members P e) : e.same e = true := by
  induction h with
  | const hv => exact hv.same_self
  | column _ => simp [Expr.same]
  | binary _ _ hl hr => simp [Expr.same, hl, hr]
  | unary _ h => simp [Expr.same, h]
  | cond _ _ _ ht hl hr => simp [Expr.same, ht, hl, hr]
  | @call _ args _ h =>
    simp only [Expr.same, beq_self_eq_true, Bool.true_and]
    induction args with
    | nil => rfl
    | cons a rest ih =>
      simp only [sameExprs, h a (by simp), Bool.true_and]
      exact ih (fun a ha => by simp_all) fun a ha => h a (by simp [ha])
  | @construct _ fields _ h =>
    simp only [Expr.same, beq_self_eq_true, Bool.true_and]
    induction fields with
    | nil => rfl
    | cons f rest ih =>
      simp only [sameFields, h f (by simp), beq_self_eq_true, Bool.true_and]
      exact ih (fun a ha => by simp_all) fun a ha => h a (by simp [ha])
  | entity _ h => simp [Expr.same, h]
  | isNull _ h => simp [Expr.same, h]
  | member _ _ h => simp [Expr.same, h]

end Plain

inductive Opened (P : Column → Prop) : Expr → Prop
  | plain {e : Expr} : Plain False P e → Opened P e
  | member {e : Expr} {name : String} : Opened P e → Opened P (.member e name)
  | cond {test onTrue onFalse : Expr} : Plain False P test → Opened P onTrue → Opened P onFalse →
    Opened P (.cond test onTrue onFalse)
  | equals {left right : Expr} : Opened P left → Opened P right → Opened P (.equals left right)
  | isNull {e : Expr} : Opened P e → Opened P (.isNull e)
  | both {left right : Expr} : Opened P left → Opened P right → Opened P (.both left right)
  | negated {e : Expr} : Opened P e → Opened P (.negated e)

section Members

/-- A member that is left open is that of the whole expression. -/
theorem Plain.of_bindMember_eq_member (h : Plain False P e) {target : Expr} {n : String}
    (hm : e.bindMember name = .member target n) : target = e ∧ n = name := by
  induction h generalizing target n with
  | @const v _ =>
    cases v <;> simp [Expr.bindMember] at hm <;> exact ⟨hm.1.symm, hm.2.symm⟩
  | construct hf _ =>
    rw [Expr.bindMember] at hm
    cases found : fieldNamed? name _ with
    | none =>
      rw [found] at hm
      cases hm
      exact ⟨rfl, rfl⟩
    | some e' =>
      obtain ⟨f, hmem, rfl⟩ := fieldNamed?_mem found
      rw [found, Option.getD_some] at hm
      have := hf f hmem
      rw [hm] at this
      cases this with
      | member open_ _ => exact open_.elim
  | @entity entityName e he ih =>
    rw [Expr.bindMember] at hm
    split at hm
    · rename_i target' n' inner
      obtain ⟨rfl, rfl⟩ := ih inner
      rw [show (target' == target') = true from he.same_self] at hm
      simp at hm
      exact ⟨hm.1.symm, hm.2.symm⟩
    · rename_i other
      exact absurd hm (other _ _)
  | member open_ _ _ => exact open_.elim
  | cond => simp [Expr.bindMember] at hm
  | _ =>
    simp [Expr.bindMember] at hm
    exact ⟨hm.1.symm, hm.2.symm⟩

theorem Plain.bindMember (h : Plain False P e) : Opened P (e.bindMember name) := by
  induction h with
  | @const v hv =>
    cases v <;> first
      | exact .plain (.const hv)
      | exact .member (.plain (.const hv))
  | column hc => exact .member (.plain (.column hc))
  | binary hl hr _ _ => exact .member (.plain (.binary hl hr))
  | unary h _ => exact .member (.plain (.unary h))
  | cond ht _ _ _ hl hr => exact .cond ht hl hr
  | call h _ => exact .member (.plain (.call h))
  | construct hf _ =>
    rw [Expr.bindMember]
    cases found : fieldNamed? name _ with
    | none => exact .member (.plain (.construct hf))
    | some e' =>
      obtain ⟨f, hmem, rfl⟩ := fieldNamed?_mem found
      exact .plain (hf f hmem)
  | entity he ih =>
    rw [Expr.bindMember]
    split
    · rename_i inner
      rw [inner] at ih
      split
      · exact .member (.plain (.entity he))
      · exact ih
    · exact ih
  | isNull h _ => exact .member (.plain (.isNull h))
  | member open_ _ _ => exact open_.elim

theorem Opened.bindMember (h : Opened P e) : Opened P (e.bindMember name) := by
  induction h with
  | plain h => exact h.bindMember
  | member h _ => exact .member (.member h)
  | cond ht _ _ hl hr => exact .cond ht hl hr
  | equals hl hr _ _ => exact .member (.equals hl hr)
  | isNull h _ => exact .member (.isNull h)
  | both hl hr _ _ => exact .member (.both hl hr)
  | negated h _ => exact .member (.negated h)

theorem fieldNamed?_replace (fields : List (Field Expr)) :
    fieldNamed? name (fields.map fun f => ⟨f.name, f.expr.replace σ⟩)
      = (fieldNamed? name fields).map (Expr.replace σ) := by
  simp only [fieldNamed?, List.find?_map, Function.comp_def, Option.map_map]

theorem bindMember_entity {entityName : String} (h : ∀ t m, e.bindMember name ≠ .member t m) :
    (Expr.entity entityName e).bindMember name = e.bindMember name := by
  rw [Expr.bindMember]
  split
  · rename_i inner
    exact absurd inner (h _ _)
  · rfl

theorem Opened.replace_ne_member (h : Opened P e) (hσ : ∀ c, P c → ∃ c', σ c = .column c')
    (ne : ∀ t m, e ≠ .member t m) (t : Expr) (m : String) : e.replace σ ≠ .member t m := by
  cases h with
  | plain h =>
    cases h with
    | column hc =>
      obtain ⟨c', hc'⟩ := hσ _ hc
      simp [hc']
    | member open_ _ => exact open_.elim
    | _ => simp
  | member _ => exact absurd rfl (ne _ _)
  | _ => simp [Expr.equals, Expr.both, Expr.negated]

/-- Members are found alike when columns are renamed. -/
theorem Plain.bindMember_replace (h : Plain False P e) (hσ : ∀ c, P c → ∃ c', σ c = .column c') :
    (e.replace σ).bindMember name = (e.bindMember name).replace σ := by
  have renamed : ∀ {e}, Plain False P e → Plain False (fun _ => True) (e.replace σ) := fun h =>
    h.replace fun c hc => by
      obtain ⟨c', hc'⟩ := hσ c hc
      exact hc' ▸ .column trivial
  induction h with
  | @const v _ => cases v <;> simp [Expr.bindMember]
  | column hc =>
    obtain ⟨c', hc'⟩ := hσ _ hc
    simp [Expr.bindMember, hc']
  | construct hf _ =>
    rw [Expr.replace_construct, Expr.bindMember, Expr.bindMember, fieldNamed?_replace]
    cases fieldNamed? name _ <;> simp
  | @entity n e he ih =>
    by_cases hm : ∃ t m, e.bindMember name = .member t m
    · obtain ⟨t, m, hm⟩ := hm
      obtain ⟨rfl, rfl⟩ := he.of_bindMember_eq_member hm
      have self : (t == t) = true := he.same_self
      have self' : (t.replace σ == t.replace σ) = true := (renamed he).same_self
      rw [Expr.replace_entity, Expr.bindMember, Expr.bindMember, ih, hm]
      simp [self, self']
    · simp only [not_exists] at hm
      rw [Expr.replace_entity, bindMember_entity hm, bindMember_entity, ih]
      rw [ih]
      exact he.bindMember.replace_ne_member hσ hm
  | cond _ _ _ _ hl hr => simp [Expr.bindMember, hl, hr]
  | member open_ _ _ => exact open_.elim
  | _ => simp [Expr.bindMember]

theorem Opened.bindMember_replace (h : Opened P e) (hσ : ∀ c, P c → ∃ c', σ c = .column c') :
    (e.replace σ).bindMember name = (e.bindMember name).replace σ := by
  induction h with
  | plain h => exact h.bindMember_replace hσ
  | cond _ _ _ hl hr => simp [Expr.bindMember, hl, hr]
  | _ => simp [Expr.bindMember, Expr.equals, Expr.both, Expr.negated]

theorem Opened.isNullConst_replace (h : Opened P e) (hσ : ∀ c, P c → ∃ c', σ c = .column c') :
    (e.replace σ).isNullConst = e.isNullConst := by
  cases h with
  | plain h =>
    cases h with
    | column hc =>
      obtain ⟨c', hc'⟩ := hσ _ hc
      simp [hc', Expr.isNullConst]
    | _ => simp [Expr.isNullConst]
  | _ => simp [Expr.isNullConst, Expr.equals, Expr.both, Expr.negated]

end Members

section Comparison

variable {left right : Expr}

theorem Opened.ne_outerJoined (h : Opened P e) (test inner : Expr) : e ≠ .outerJoined test inner := by
  rintro rfl
  cases h with
  | plain h => cases h

theorem Opened.joinTest?_eq (hl : Opened P left) (hr : Opened P right) :
    joinTest? left right = none := by
  unfold joinTest?
  split
  · exact absurd rfl (hl.ne_outerJoined _ _)
  · exact absurd rfl (hr.ne_outerJoined _ _)
  · rfl

theorem Opened.entity?_replace (h : Opened P e) (hσ : ∀ c, P c → ∃ c', σ c = .column c') :
    entity? (e.replace σ) = entity? e := by
  cases h with
  | plain h =>
    cases h with
    | column hc =>
      obtain ⟨c', hc'⟩ := hσ _ hc
      simp [hc', entity?]
    | _ => simp [entity?]
  | _ => simp [entity?, Expr.equals, Expr.both, Expr.negated]

theorem Opened.members?_replace (h : Opened P e) (hσ : ∀ c, P c → ∃ c', σ c = .column c') :
    members? (e.replace σ) = members? e := by
  cases h with
  | plain h =>
    cases h with
    | column hc =>
      obtain ⟨c', hc'⟩ := hσ _ hc
      simp [hc', members?]
    | _ => simp [members?, Function.comp_def]
  | _ => simp [members?, Expr.equals, Expr.both, Expr.negated]

theorem Opened.memberTerm (hl : Opened P left) (hr : Opened P right) :
    Opened P (memberTerm left right name) := by
  simp only [Comparisons.memberTerm]
  split
  · exact .isNull hl.bindMember
  · split
    · exact .isNull hr.bindMember
    · exact .equals hl.bindMember hr.bindMember

theorem Opened.memberTerm_replace (hl : Opened P left) (hr : Opened P right)
    (hσ : ∀ c, P c → ∃ c', σ c = .column c') :
    Comparisons.memberTerm (left.replace σ) (right.replace σ) name
      = (Comparisons.memberTerm left right name).replace σ := by
  simp only [Comparisons.memberTerm, hl.bindMember_replace hσ, hr.bindMember_replace hσ,
    hl.bindMember.isNullConst_replace hσ, hr.bindMember.isNullConst_replace hσ]
  split
  · simp
  · split <;> simp [Expr.equals]

theorem Opened.foldl_both {es : List Expr} (he : Opened P e) (hes : ∀ t ∈ es, Opened P t) :
    Opened P (es.foldl .both e) := by
  induction es generalizing e with
  | nil => exact he
  | cons t rest ih => exact ih (.both he (hes t (by simp))) fun u hu => hes u (by simp [hu])

theorem foldl_both_replace (es : List Expr) (e : Expr) :
    (es.foldl Expr.both e).replace σ = (es.map (Expr.replace σ)).foldl .both (e.replace σ) := by
  induction es generalizing e with
  | nil => rfl
  | cons t rest ih =>
    rw [List.foldl_cons, ih]
    simp [Expr.both]

theorem Opened.byMembers (hl : Opened P left) (hr : Opened P right) (names : List String) :
    Opened P (byMembers left right names) := by
  cases names with
  | nil => exact .plain (.const (.bool true))
  | cons name rest =>
    refine (hl.memberTerm hr).foldl_both fun t ht => ?_
    obtain ⟨n, -, rfl⟩ := List.mem_map.mp ht
    exact hl.memberTerm hr

theorem Opened.byMembers_replace (hl : Opened P left) (hr : Opened P right)
    (hσ : ∀ c, P c → ∃ c', σ c = .column c') (names : List String) :
    Comparisons.byMembers (left.replace σ) (right.replace σ) names
      = (Comparisons.byMembers left right names).replace σ := by
  have terms : names.map (Comparisons.memberTerm (left.replace σ) (right.replace σ))
      = (names.map (Comparisons.memberTerm left right)).map (Expr.replace σ) := by
    rw [List.map_map]
    exact List.map_congr_left fun n _ => hl.memberTerm_replace hr hσ
  rw [Comparisons.byMembers, Comparisons.byMembers, terms]
  cases names with
  | nil => simp [Expr.conjoin?]
  | cons n rest => simp [Expr.conjoin?, foldl_both_replace]

theorem Opened.negateIf (h : Opened P e) (negate : Bool) : Opened P (negateIf negate e) := by
  cases negate
  · exact h
  · exact .negated h

variable {m : Mapping}

theorem Opened.expand_eq (hl : Opened P left) (hr : Opened P right) (negate : Bool) :
    expand m negate left right = (comparedMembers m left right).map fun names? =>
      names?.map fun names => Comparisons.negateIf negate (Comparisons.byMembers left right names) := by
  rw [expand, hl.joinTest?_eq hr]
  cases comparedMembers m left right <;> rfl

theorem Opened.expand (hl : Opened P left) (hr : Opened P right) {negate : Bool}
    (h : expand m negate left right = .ok (some e)) : Opened P e := by
  rw [hl.expand_eq hr] at h
  cases hc : comparedMembers m left right with
  | error _ =>
    rw [hc] at h
    cases h
  | ok names? =>
    rw [hc] at h
    cases names? with
    | none => cases h
    | some names =>
      cases h
      exact (hl.byMembers hr names).negateIf negate

theorem negateIf_replace (negate : Bool) (e : Expr) :
    Comparisons.negateIf negate (e.replace σ) = (Comparisons.negateIf negate e).replace σ := by
  cases negate <;> simp [Comparisons.negateIf, Expr.negated]

theorem Opened.replace (h : Opened P e) (hσ : ∀ c, P c → ∃ c', σ c = .column c') :
    Opened (fun _ => True) (e.replace σ) := by
  have renamed : ∀ {e}, Plain False P e → Plain False (fun _ => True) (e.replace σ) := fun h =>
    h.replace fun c hc => by
      obtain ⟨c', hc'⟩ := hσ c hc
      exact hc' ▸ .column trivial
  induction h with
  | plain h => exact .plain (renamed h)
  | member _ h => simpa using Opened.member h
  | cond ht _ _ hl hr => simpa using Opened.cond (renamed ht) hl hr
  | equals _ _ hl hr => simpa [Expr.equals] using Opened.equals hl hr
  | isNull _ h => simpa using Opened.isNull h
  | both _ _ hl hr => simpa [Expr.both] using Opened.both hl hr
  | negated _ h => simpa [Expr.negated] using Opened.negated h

theorem Opened.expand_replace (hl : Opened P left) (hr : Opened P right)
    (hσ : ∀ c, P c → ∃ c', σ c = .column c') (negate : Bool) :
    Comparisons.expand m negate (left.replace σ) (right.replace σ)
      = (Comparisons.expand m negate left right).map (Option.map (Expr.replace σ)) := by
  have compared : comparedMembers m (left.replace σ) (right.replace σ)
      = comparedMembers m left right := by
    unfold comparedMembers
    rw [hl.entity?_replace hσ, hr.entity?_replace hσ, hl.members?_replace hσ,
      hr.members?_replace hσ]
  rw [(hl.replace hσ).expand_eq (hr.replace hσ), hl.expand_eq hr, compared]
  cases comparedMembers m left right with
  | error _ => rfl
  | ok names? =>
    cases names? with
    | none => rfl
    | some names =>
      simp only [Except.map, Option.map_some, hl.byMembers_replace hr hσ, negateIf_replace]

end Comparison

def Expr.expanded (m : Mapping) : Expr → Expr
  | .binary op left right =>
    if _ : op = .eq ∨ op = .notEq then
      match _ : expand m (op == .notEq) left right with
      | .ok (some e) => e.expanded m
      | _ => .binary op (left.expanded m) (right.expanded m)
    else .binary op (left.expanded m) (right.expanded m)
  | e => Id.run (e.traverse (fun c _ => pure (c.expanded m)) (fun s _ => pure s) fun p _ => pure p)
termination_by e => (rank (.expr e), (Part.expr e).weight)
decreasing_by
  · exact Prod.Lex.left _ _ (rank_comparison ‹_› left right ▸ rank_expand_lt ‹_›)
  · exact lex_of_mem (by simp [Part.parts])
  · exact lex_of_mem (by simp [Part.parts])
  · exact lex_of_mem (by simp [Part.parts])
  · exact lex_of_mem (by simp [Part.parts])
  all_goals exact lex_of_mem ‹_›

namespace Expr

variable {m : Mapping}

theorem expanded_expands {op : BinaryOp} {left right : Expr} (hop : op = .eq ∨ op = .notEq)
    (h : expand m (op == .notEq) left right = .ok (some e)) :
    (binary op left right).expanded m = e.expanded m := by
  rw [expanded, dif_pos hop]
  split
  · rename_i found
    rw [h] at found
    cases found
    rfl
  · rename_i none
    exact absurd h (none e)

theorem expanded_binary {op : BinaryOp} {left right : Expr}
    (h : (op = .eq ∨ op = .notEq) → ∀ e, expand m (op == .notEq) left right ≠ .ok (some e)) :
    (binary op left right).expanded m = .binary op (left.expanded m) (right.expanded m) := by
  rw [expanded]
  split
  · rename_i hop
    split
    · rename_i e found
      exact absurd found (h hop e)
    · rfl
  · rfl

@[simp] theorem expanded_const (v : Value) : (const v).expanded m = .const v := by
  rw [expanded] <;> simp [traverse]

@[simp] theorem expanded_column (c : Column) : (column c).expanded m = .column c := by
  rw [expanded] <;> simp [traverse]

@[simp] theorem expanded_unary (op : UnaryOp) (e : Expr) :
    (unary op e).expanded m = .unary op (e.expanded m) := by
  rw [expanded] <;> simp [traverse]

@[simp] theorem expanded_cond (a b c : Expr) :
    (cond a b c).expanded m = .cond (a.expanded m) (b.expanded m) (c.expanded m) := by
  rw [expanded] <;> simp [traverse]

@[simp] theorem expanded_call (f : String) (args : List Expr) :
    (call f args).expanded m = .call f (args.map (expanded m)) := by
  rw [expanded] <;> simp [traverse]

@[simp] theorem expanded_construct (t : Option String) (fields : List (Field Expr)) :
    (construct t fields).expanded m
      = .construct t (fields.map fun f => ⟨f.name, f.expr.expanded m⟩) := by
  rw [expanded] <;> simp [traverse]

@[simp] theorem expanded_entity (n : String) (e : Expr) :
    (entity n e).expanded m = .entity n (e.expanded m) := by
  rw [expanded] <;> simp [traverse]

@[simp] theorem expanded_isNull (e : Expr) : (isNull e).expanded m = .isNull (e.expanded m) := by
  rw [expanded] <;> simp [traverse]

@[simp] theorem expanded_member (e : Expr) (n : String) :
    (member e n).expanded m = .member (e.expanded m) n := by
  rw [expanded] <;> simp [traverse]

theorem expanded_both (a b : Expr) : (both a b).expanded m = .both (a.expanded m) (b.expanded m) :=
  expanded_binary (by simp)

end Expr

namespace Opened

variable {m : Mapping} {left right : Expr}

theorem of_binary {op : BinaryOp} (h : Opened P (.binary op left right)) :
    Opened P left ∧ Opened P right := by
  cases h with
  | plain h =>
    cases h with
    | binary hl hr => exact ⟨.plain hl, .plain hr⟩
  | equals hl hr => exact ⟨hl, hr⟩
  | both hl hr => exact ⟨hl, hr⟩

/-- Induction along the expansion: where a comparison is expanded, what it is expanded to comes
first. -/
theorem induction (h : Opened P e) (m : Mapping) {motive : Expr → Prop}
    (const : ∀ v, v.Exact → motive (.const v)) (column : ∀ c, P c → motive (.column c))
    (expands : ∀ op left right e, op = .eq ∨ op = .notEq →
      Comparisons.expand m (op == .notEq) left right = .ok (some e) → Opened P left →
      Opened P right → motive e → motive (.binary op left right))
    (binary : ∀ op left right, (op = .eq ∨ op = .notEq → ∀ e,
      Comparisons.expand m (op == .notEq) left right ≠ .ok (some e)) →
      Opened P (.binary op left right) → motive left → motive right → motive (.binary op left right))
    (unary : ∀ op e, Opened P (.unary op e) → motive e → motive (.unary op e))
    (cond : ∀ a b c, Opened P a → motive a → motive b → motive c → motive (.cond a b c))
    (call : ∀ f args, Opened P (.call f args) → (∀ a ∈ args, motive a) → motive (.call f args))
    (construct : ∀ t fields, (∀ f ∈ fields, motive f.expr) → motive (.construct t fields))
    (entity : ∀ n e, motive e → motive (.entity n e))
    (isNull : ∀ e, Opened P (.isNull e) → motive e → motive (.isNull e))
    (member : ∀ e n, motive e → motive (.member e n)) : motive e := by
  induction e using Expr.expanded.induct m with
  | case1 op left right hop e found ih =>
    have operands := h.of_binary
    exact expands op left right e hop found operands.1 operands.2
      (ih (operands.1.expand operands.2 found))
  | case2 op left right hop none ihl ihr =>
    have operands := h.of_binary
    exact binary op left right (fun _ e => none e) h (ihl operands.1) (ihr operands.2)
  | case3 op left right hop ihl ihr =>
    have operands := h.of_binary
    exact binary op left right (fun h => absurd h hop) h (ihl operands.1) (ihr operands.2)
  | case4 e other ih =>
    cases h with
    | plain h =>
      cases h with
      | const hv => exact const _ hv
      | column hc => exact column _ hc
      | binary _ _ => exact absurd rfl (other _ _ _)
      | unary h => exact unary _ _ (.plain (.unary h)) (ih _ (by simp [Part.parts]) (.plain h))
      | cond ht hl hr =>
        exact cond _ _ _ (.plain ht) (ih _ (by simp [Part.parts]) (.plain ht))
          (ih _ (by simp [Part.parts]) (.plain hl)) (ih _ (by simp [Part.parts]) (.plain hr))
      | call h =>
        exact call _ _ (.plain (.call h)) fun a ha =>
          ih _ (by simp [Part.parts, ha]) (.plain (h a ha))
      | construct h => exact construct _ _ fun f hf => ih _ (Expr.field_mem hf) (.plain (h f hf))
      | entity h => exact entity _ _ (ih _ (by simp [Part.parts]) (.plain h))
      | isNull h => exact isNull _ (.plain (.isNull h)) (ih _ (by simp [Part.parts]) (.plain h))
      | member open_ _ => exact open_.elim
    | member h => exact member _ _ (ih _ (by simp [Part.parts]) h)
    | cond ht hl hr =>
      exact cond _ _ _ (.plain ht) (ih _ (by simp [Part.parts]) (.plain ht))
        (ih _ (by simp [Part.parts]) hl) (ih _ (by simp [Part.parts]) hr)
    | equals _ _ => exact absurd rfl (other _ _ _)
    | isNull h => exact isNull _ (.isNull h) (ih _ (by simp [Part.parts]) h)
    | both _ _ => exact absurd rfl (other _ _ _)
    | negated h => exact unary _ _ (.negated h) (ih _ (by simp [Expr.negated, Part.parts]) h)

theorem plain_expanded (h : Opened P e) : Plain True P (e.expanded m) := by
  refine h.induction m (motive := fun e => Plain True P (e.expanded m)) ?const ?column ?expands ?binary ?unary ?cond ?call ?construct ?entity
    ?isNull ?member
  case const => exact fun v hv => by simpa using Plain.const hv
  case column => exact fun c hc => by simpa using Plain.column hc
  case expands =>
    intro op left right e hop found _ _ ih
    rwa [Expr.expanded_expands hop found]
  case binary =>
    intro op left right none _ ihl ihr
    rw [Expr.expanded_binary none]
    exact .binary ihl ihr
  case unary => exact fun op e _ ih => by simpa using Plain.unary ih
  case cond => exact fun a b c _ iha ihb ihc => by simpa using Plain.cond iha ihb ihc
  case call =>
    intro f args _ ih
    rw [Expr.expanded_call]
    refine .call fun a ha => ?_
    obtain ⟨a, hm, rfl⟩ := List.mem_map.mp ha
    exact ih a hm
  case construct =>
    intro t fields ih
    rw [Expr.expanded_construct]
    refine .construct fun f hf => ?_
    obtain ⟨f, hm, rfl⟩ := List.mem_map.mp hf
    exact ih f hm
  case entity => exact fun n e ih => by simpa using Plain.entity ih
  case isNull => exact fun e _ ih => by simpa using Plain.isNull ih
  case member => exact fun e n ih => by simpa using Plain.member trivial ih

/-- Expanding and renaming columns can be done in either order. -/
theorem expanded_replace (h : Opened P e) (hσ : ∀ c, P c → ∃ c', σ c = .column c') :
    (e.replace σ).expanded m = (e.expanded m).replace σ := by
  refine h.induction m (motive := fun e => (e.replace σ).expanded m = (e.expanded m).replace σ) ?const ?column ?expands ?binary ?unary ?cond ?call ?construct ?entity
    ?isNull ?member
  case const => simp
  case column =>
    intro c hc
    obtain ⟨c', hc'⟩ := hσ c hc
    simp [hc']
  case expands =>
    intro op left right e hop found hl hr ih
    have found' := hl.expand_replace hr hσ (m := m) (op == .notEq)
    rw [found] at found'
    rw [Expr.replace_binary, Expr.expanded_expands hop found', Expr.expanded_expands hop found]
    exact ih
  case binary =>
    intro op left right none h ihl ihr
    obtain ⟨hl, hr⟩ := h.of_binary
    rw [Expr.replace_binary, Expr.expanded_binary none, Expr.replace_binary, Expr.expanded_binary,
      ihl, ihr]
    intro hop e he
    rw [hl.expand_replace hr hσ] at he
    cases hx : Comparisons.expand m (op == .notEq) left right with
    | error _ =>
      rw [hx] at he
      cases he
    | ok o =>
      rw [hx] at he
      cases o with
      | none => cases he
      | some e' => exact none hop e' hx
  case unary => exact fun op e _ ih => by simp [ih]
  case cond => exact fun a b c _ iha ihb ihc => by simp [iha, ihb, ihc]
  case call => exact fun f args _ ih => by simpa using ih
  case construct => exact fun t fields ih => by simpa using ih
  case entity => exact fun n e ih => by simp [ih]
  case isNull => exact fun e _ ih => by simp [ih]
  case member => exact fun e n ih => by simp [ih]

theorem scalar_object (tables : Tables) (scope : Scope) (h : Opened P e) (object : isObject e = true) :
    ∃ error, scalar tables e scope = .error error := by
  cases h with
  | plain h =>
    cases h with
    | construct _ => exact ⟨_, scalar_construct _ _⟩
    | entity _ => exact ⟨_, scalar_entity _ _⟩
    | _ => simp [isObject, entity?, members?] at object
  | _ => simp [isObject, entity?, members?, Expr.equals, Expr.both, Expr.negated] at object

variable {tables : Tables} {scope : Scope}

/-- Where a comparison is expanded, it has no value as it stands. -/
theorem scalar_expands {op : BinaryOp} (hl : Opened P left) (hr : Opened P right)
    (found : Comparisons.expand m (op == .notEq) left right = .ok (some e)) (v : Value) :
    scalar tables (.binary op left right) scope ≠ .ok v := by
  intro h
  rw [scalar] at h
  obtain ⟨a, ha, h⟩ := bind_eq_ok.mp h
  obtain ⟨b, hb, h⟩ := bind_eq_ok.mp h
  rw [hl.expand_eq hr] at found
  cases hc : comparedMembers m left right with
  | error _ =>
    rw [hc] at found
    cases found
  | ok names? =>
    rw [hc] at found
    cases names? with
    | none => cases found
    | some names =>
      rcases isObject_of_comparedMembers hc with object | object
      · obtain ⟨_, herr⟩ := hl.scalar_object tables scope object
        rw [herr] at ha
        cases ha
      · obtain ⟨_, herr⟩ := hr.scalar_object tables scope object
        rw [herr] at hb
        cases hb

theorem scalar_expanded (h : Opened P e) {v : Value} (hv : scalar tables e scope = .ok v) :
    scalar tables (e.expanded m) scope = .ok v := by
  refine h.induction m (motive := fun e => ∀ v, scalar tables e scope = .ok v →
    scalar tables (e.expanded m) scope = .ok v) ?const ?column ?expands ?binary ?unary ?cond ?call
    ?construct ?entity ?isNull ?member v hv
  case const => simp
  case column => simp
  case expands =>
    intro op left right e hop found hl hr ih v hv
    exact absurd hv (hl.scalar_expands hr found v)
  case binary =>
    intro op left right none _ ihl ihr v hv
    rw [scalar] at hv
    obtain ⟨a, ha, hv⟩ := bind_eq_ok.mp hv
    obtain ⟨b, hb, hv⟩ := bind_eq_ok.mp hv
    rw [Expr.expanded_binary none, scalar, ihl a ha, ihr b hb]
    exact hv
  case unary =>
    intro op e _ ih v hv
    rw [scalar] at hv
    obtain ⟨a, ha, hv⟩ := bind_eq_ok.mp hv
    rw [Expr.expanded_unary, scalar, ih a ha]
    exact hv
  case cond =>
    intro a b c _ iha ihb ihc v hv
    rw [scalar] at hv
    obtain ⟨t, ht, hv⟩ := bind_eq_ok.mp hv
    obtain ⟨holds, hh, hv⟩ := bind_eq_ok.mp hv
    rw [Expr.expanded_cond, scalar, iha t ht, ok_bind, hh, ok_bind]
    cases holds
    · exact ihc v hv
    · exact ihb v hv
  case call =>
    intro f args _ ih v hv
    rw [scalar_call] at hv
    obtain ⟨values, hvalues, hv⟩ := bind_eq_ok.mp hv
    rw [Expr.expanded_call, scalar_call, List.mapM_map, Function.comp_def, mapM_ok_of_ok ih hvalues]
    exact hv
  case construct =>
    intro t fields _ v hv
    rw [scalar_construct] at hv
    cases hv
  case entity =>
    intro n e _ v hv
    rw [scalar_entity] at hv
    cases hv
  case isNull =>
    intro e _ ih v hv
    rw [scalar] at hv
    obtain ⟨a, ha, hv⟩ := bind_eq_ok.mp hv
    rw [Expr.expanded_isNull, scalar, ih a ha]
    exact hv
  case member =>
    intro e n _ v hv
    rw [scalar_member] at hv
    cases hv

/-- What is expanded builds the same object. -/
theorem client_expanded (h : Opened P e) {cache : List (Alias × JoinedRows)}
    {r : ClientValue × List (Alias × JoinedRows)} (hr : (client tables e scope).run cache = .ok r) :
    (client tables (e.expanded m) scope).run cache = .ok r := by
  have value : ∀ {e e' : Expr}, isValue e = true → isValue e' = true →
      (∀ v, scalar tables e scope = .ok v → scalar tables e' scope = .ok v) →
      ∀ cache r, (client tables e scope).run cache = .ok r →
        (client tables e' scope).run cache = .ok r := by
    intro e e' he he' h cache r hr
    rw [client_value he, StateT.run_bind] at hr
    rw [client_value he', StateT.run_bind]
    obtain ⟨p, hp, hr⟩ := bind_eq_ok.mp hr
    obtain ⟨v, hv, hp⟩ := bind_eq_ok.mp hp
    cases hp
    have lifted : (liftM (scalar tables e' scope) : Client Value).run cache = .ok (v, cache) := by
      rw [h v hv]
      rfl
    rw [lifted]
    exact hr
  refine h.induction m (motive := fun e => ∀ cache r, (client tables e scope).run cache = .ok r →
    (client tables (e.expanded m) scope).run cache = .ok r) ?const ?column ?expands ?binary ?unary
    ?cond ?call ?construct ?entity ?isNull ?member cache r hr
  case const => simp
  case column => simp
  case expands =>
    intro op left right e hop found hl hr ih cache r h
    rw [client_value rfl, StateT.run_bind] at h
    obtain ⟨p, hp, h⟩ := bind_eq_ok.mp h
    obtain ⟨v, hv, hp⟩ := bind_eq_ok.mp hp
    exact absurd hv (hl.scalar_expands hr found v)
  case binary =>
    intro op left right none h _ _
    refine value rfl ?_ fun v hv => h.scalar_expanded hv
    rw [Expr.expanded_binary none, isValue]
  case unary => exact fun op e h _ => value rfl (by simp [isValue]) fun v hv => h.scalar_expanded hv
  case cond =>
    intro a b c ha _ ihb ihc cache r h
    rw [client, StateT.run_bind] at h
    obtain ⟨p, hp, h⟩ := bind_eq_ok.mp h
    obtain ⟨v, hv, hp⟩ := bind_eq_ok.mp hp
    cases hp
    have lifted : (liftM (scalar tables (a.expanded m) scope) : Client Value).run cache
        = .ok (v, cache) := by
      rw [ha.scalar_expanded hv]
      rfl
    rw [Expr.expanded_cond, client, StateT.run_bind, lifted, ok_bind]
    rw [StateT.run_bind] at h ⊢
    obtain ⟨q, hq, h⟩ := bind_eq_ok.mp h
    rw [hq, ok_bind]
    cases hb : q.1 <;> rw [hb] at h
    · exact ihc _ _ h
    · exact ihb _ _ h
  case call => exact fun f args h _ => value rfl (by simp [isValue]) fun v hv => h.scalar_expanded hv
  case construct =>
    intro t fields ih cache r h
    rw [client_construct, StateT.run_bind] at h
    obtain ⟨p, hp, h⟩ := bind_eq_ok.mp h
    rw [Expr.expanded_construct, client_construct, StateT.run_bind, List.mapM_map,
      mapM_run_ok_of_ok (fun f hf s r hr => ?_) hp]
    · exact h
    · rw [StateT.run_bind] at hr
      obtain ⟨q, hq, hr⟩ := bind_eq_ok.mp hr
      simp only [Function.comp_def]
      rw [StateT.run_bind, ih f hf _ _ hq]
      exact hr
  case entity =>
    intro n e ih cache r h
    rw [client] at h
    rw [Expr.expanded_entity, client]
    exact ih cache r h
  case isNull => exact fun e h _ => value rfl (by simp [isValue]) fun v hv => h.scalar_expanded hv
  case member =>
    intro e n ih cache r h
    rw [client, StateT.run_bind] at h
    obtain ⟨p, hp, h⟩ := bind_eq_ok.mp h
    rw [Expr.expanded_member, client, StateT.run_bind, ih _ _ hp]
    exact h

theorem exprs_of_mem {p : Part} (h : Opened P e) (hp : p ∈ (Part.expr e).parts) :
    ∃ c, p = .expr c ∧ Opened P c := by
  cases h with
  | plain h =>
    obtain ⟨c, rfl, hc⟩ := h.exprs_of_mem hp
    exact ⟨c, rfl, .plain hc⟩
  | cond ht hl hr =>
    simp only [Part.parts, List.mem_cons, List.not_mem_nil, or_false] at hp
    rcases hp with rfl | rfl | rfl
    · exact ⟨_, rfl, .plain ht⟩
    · exact ⟨_, rfl, hl⟩
    · exact ⟨_, rfl, hr⟩
  | _ =>
    simp only [Expr.equals, Expr.both, Expr.negated, Part.parts, List.mem_cons, List.not_mem_nil,
      or_false] at hp
    grind

/-- Where all objects can be compared, the pass expands every comparison. -/
theorem eq_expanded (h : Opened P e) :
    (Yields.ofOnly RewriteError).gives () (e.expandComparisons m) (e.expanded m) () := by
  let Y := Yields.ofOnly RewriteError
  induction e using Expr.expanded.induct m with
  | case1 op left right hop e found ih =>
    have operands := h.of_binary
    rw [Expr.expanded_expands hop found, Expr.expandComparisons, dif_pos hop]
    split
    · rename_i failed
      rw [found] at failed
      cases failed
    · rename_i found'
      rw [found] at found'
      cases found'
      exact ih (operands.1.expand operands.2 found)
    · rename_i none
      rw [found] at none
      cases none
  | case2 op left right hop none ihl ihr =>
    have operands := h.of_binary
    rw [Expr.expanded_binary fun _ e => none e, Expr.expandComparisons, dif_pos hop]
    split
    · intro _ failed
      cases failed
    · rename_i found
      exact absurd found (none _)
    · exact Y.bind (ihl operands.1) (Y.bind (ihr operands.2) (Y.pure _ _))
  | case3 op left right hop ihl ihr =>
    have operands := h.of_binary
    rw [Expr.expanded_binary fun h => absurd h hop, Expr.expandComparisons, dif_neg hop]
    exact Y.bind (ihl operands.1) (Y.bind (ihr operands.2) (Y.pure _ _))
  | case4 e other ih =>
    rw [Expr.expandComparisons.eq_2 m e other, Expr.expanded.eq_2 m e other]
    refine e.traverse_gives Y (fun c hc => ?_) (fun q hq => ?_) fun q hq => ?_
    · obtain ⟨_, hc', opened⟩ := h.exprs_of_mem hc
      cases hc'
      exact ih c hc opened
    · obtain ⟨_, hq', -⟩ := h.exprs_of_mem hq
      cases hq'
    · obtain ⟨_, hq', -⟩ := h.exprs_of_mem hq
      cases hq'

end Opened

namespace Comparisons

def isExpanded (m : Mapping) : Part → Bool
  | .expr (.binary op left right) =>
    (op == .eq || op == .notEq) && match expand m (op == .notEq) left right with
      | .ok none => false
      | _ => true
  | _ => false

def settled (m : Mapping) (p : Part) : Bool :=
  (p.gather (fun q => if isExpanded m q then [()] else []) fun _ => true).isEmpty

variable {m : Mapping} {p q : Part}

theorem settled_iff : settled m p = true
    ↔ isExpanded m p = false ∧ ∀ q ∈ p.parts, settled m q = true := by
  simp only [settled]
  rw [Part.gather]
  simp

/-- A comparison that is left as it is. -/
theorem expand_of_settled {op : BinaryOp} (hop : op = .eq ∨ op = .notEq) {left right : Expr}
    (h : settled m (.expr (.binary op left right)) = true) :
    expand m (op == .notEq) left right = .ok none := by
  have compares : (op == .eq || op == .notEq) = true := by
    rcases hop with rfl | rfl <;> rfl
  have kept := (settled_iff.mp h).1
  simp only [isExpanded, compares, Bool.true_and] at kept
  split at kept
  · assumption
  · cases kept

end Comparisons

/-- The pass leaves such a tree alone. -/
theorem Expr.expandComparisons_settled (m : Mapping) (e : Expr)
    (h : settled m (.expr e) = true) : e.expandComparisons m = .ok e := by
  let Y := Yields.ofOk RewriteError
  revert h
  refine (Expr.expandComparisons.mutual_induct m
    (fun e => settled m (.expr e) = true → e.expandComparisons m = .ok e)
    (fun p => settled m (.projection p) = true → p.expandComparisons m = .ok p)
    (fun s => settled m (.select s) = true → s.expandComparisons m = .ok s)
    ?_ ?_ ?_ ?_ ?_ ?_ ?_).1 e
  · intro op left right hop error found h
    cases found.symm.trans (expand_of_settled hop h)
  · intro op left right hop expanded found _ h
    cases found.symm.trans (expand_of_settled hop h)
  · intro op left right hop found ihl ihr h
    have parts := (settled_iff.mp h).2
    rw [Expr.expandComparisons, dif_pos hop]
    split
    · rename_i failed
      cases failed.symm.trans found
    · rename_i expands
      cases expands.symm.trans found
    · rw [ihl (parts _ (by simp [Part.parts])), ihr (parts _ (by simp [Part.parts]))]
      rfl
  · intro op left right hop ihl ihr h
    have parts := (settled_iff.mp h).2
    rw [Expr.expandComparisons, dif_neg hop]
    rw [ihl (parts _ (by simp [Part.parts])), ihr (parts _ (by simp [Part.parts]))]
    rfl
  · intro e other ihe ihs ihp h
    have parts := (settled_iff.mp h).2
    rw [Expr.expandComparisons.eq_2 m e other]
    refine Eq.trans (e.traverse_gives Y (s := ()) (f := fun c _ => pure c) (g := fun s _ => pure s)
      (k := fun p _ => pure p) (fun c hc => ihe c hc (parts _ hc))
      (fun s hs => ihs s hs (parts _ hs)) fun p hp => ihp p hp (parts _ hp)) ?_
    rw [e.traverse_pure]
  · intro p ihe ihs h
    have parts := (settled_iff.mp h).2
    rw [Projection.expandComparisons, Projection.traverse,
      ihs _ Projection.select_mem (parts _ Projection.select_mem),
      ihe _ Projection.projector_mem (parts _ Projection.projector_mem)]
    rfl
  · intro s ihe h
    have parts := (settled_iff.mp h).2
    rw [Select.expandComparisons]
    refine Eq.trans (s.traverse_gives Y (s := ()) (f := fun e _ => pure e)
      fun e he => ihe e he (parts _ he)) ?_
    rw [s.traverse_pure]

end ObjectQuery
