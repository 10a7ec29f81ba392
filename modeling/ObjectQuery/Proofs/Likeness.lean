import ObjectQuery.Proofs.AlikeSelects
import ObjectQuery.Proofs.Realiasing
import ObjectQuery.Tree.Operands

/-!
The laws of the comparison of trees. A comparison only ever looks an alias of the left tree up among the
partners, and takes an alias without a partner for itself; so it can be turned round, and two comparisons
can be made one after the other, as long as no alias of the right tree is declared twice or read on the
left.
-/

namespace ObjectQuery

/-- The property holds of the part and of everything under it, of what an operator is given as well. -/
inductive Part.Everywhere (P : Part → Prop) : Part → Prop
  | node {p : Part} : P p → (∀ q ∈ p.operands, Everywhere P q) → Everywhere P p

namespace Part

variable {P : Part → Prop} {p q : Part}

theorem parts_subset_operands (p : Part) : p.parts ⊆ p.operands := by
  unfold operands
  split
  · exact List.nil_subset _
  · exact List.Subset.refl _

theorem Everywhere.part (h : Everywhere P p) (hq : q ∈ p.parts) : Everywhere P q := by
  cases h with
  | node _ operands => exact operands q (parts_subset_operands p hq)

theorem Everywhere.every (h : Everywhere P p) : Every P p := by
  induction h with
  | @node p here _ ih => exact .node here fun q hq => ih q (parts_subset_operands p hq)

end Part

theorem Part.everywhere_iff {P : Part → Prop} {p : Part} :
    p.Everywhere P ↔ P p ∧ ∀ q ∈ p.operands, q.Everywhere P :=
  ⟨fun h => by cases h with | node here operands => exact ⟨here, operands⟩, fun h => .node h.1 h.2⟩

theorem Lambda.eq_of_same {l l' : Lambda Expr} (body : ∀ a : Expr, a.same l'.body = true → a = l'.body)
    (same : sameLambda l l' = true) : l = l' := by
  cases l
  cases l'
  simp only [sameLambda, Bool.and_eq_true, beq_iff_eq] at same
  rw [same.1, body _ same.2]

theorem Lambda.eq_of_sameOption {l l' : Option (Lambda Expr)}
    (bodies : ∀ e ∈ l'.toList.map (·.body), ∀ a : Expr, a.same e = true → a = e)
    (same : sameLambdaOption l l' = true) : l = l' := by
  cases l with
  | none =>
    cases l' with
    | none => rfl
    | some _ => simp [sameLambdaOption] at same
  | some l =>
    cases l' with
    | none => simp [sameLambdaOption] at same
    | some l' => rw [eq_of_same (bodies l'.body (by simp)) same]

theorem Expr.eq_of_sameOption {a a' : Option Expr}
    (given : ∀ e ∈ a'.toList, ∀ a : Expr, a.same e = true → a = e) (same : sameOption a a' = true) :
    a = a' := by
  cases optionRel_of_sameOption same with
  | none => rfl
  | some same => rw [given _ (by simp) _ same]

theorem Expr.eq_of_sameExprs {as bs : List Expr}
    (given : ∀ e ∈ bs, ∀ a : Expr, a.same e = true → a = e) (same : sameExprs as bs = true) : as = bs :=
  eq_of_forall₂ (R := Eq)
    (forall₂_imp_both (forall₂_of_sameExprs same) fun a _ b hb h => given b hb a h) fun _ _ h => h

theorem Assignment.eq_of_same {as bs : List (Assignment Expr)}
    (given : ∀ e ∈ bs.map (·.expr), ∀ a : Expr, a.same e = true → a = e)
    (same : sameAssignments as bs = true) : as = bs := by
  induction as generalizing bs with
  | nil =>
    cases bs with
    | nil => rfl
    | cons _ _ => simp [sameAssignments] at same
  | cons a as ih =>
    cases bs with
    | nil => simp [sameAssignments] at same
    | cons b bs =>
      obtain ⟨column, e⟩ := a
      obtain ⟨column', e'⟩ := b
      simp only [sameAssignments, Bool.and_eq_true, beq_iff_eq] at same
      rw [same.1.1, given e' (by simp) e same.1.2, ih (fun e he => given e (by simp at he ⊢; tauto)) same.2]

theorem Command.eq_of_same : (c' : Command Expr) → {c : Command Expr} →
    (∀ e ∈ c'.exprs, ∀ a : Expr, a.same e = true → a = e) → sameCommand c c' = true → c = c'
  | .insert _ _, c, given, same => by
    cases c <;> simp only [sameCommand, Bool.and_eq_true, Bool.false_eq_true, beq_iff_eq] at same
    rw [same.1, Assignment.eq_of_same given same.2]
  | .update _ filter assignments, c, given, same => by
    cases c <;> simp only [sameCommand, Bool.and_eq_true, Bool.false_eq_true, beq_iff_eq] at same
    rw [same.1.1, given filter (by simp [exprs]) _ same.1.2,
      Assignment.eq_of_same (fun e he => given e (List.mem_cons_of_mem _ he)) same.2]
  | .delete _ _, c, given, same => by
    cases c <;> simp only [sameCommand, Bool.and_eq_true, Bool.false_eq_true, beq_iff_eq] at same
    rw [same.1, Expr.eq_of_sameOption given same.2]
  | .conditional check onTrue none, c, given, same => by
    cases c <;> simp only [sameCommand, Bool.and_eq_true, Bool.false_eq_true] at same
    rename_i onFalse
    cases onFalse <;> simp only [sameCommandOption, Bool.false_eq_true, and_false, and_true] at same
    rw [given check (by simp [exprs]) _ same.1,
      eq_of_same onTrue (fun e he => given e (by simp [exprs, he])) same.2]
  | .conditional check onTrue (some onFalse'), c, given, same => by
    cases c <;> simp only [sameCommand, Bool.and_eq_true, Bool.false_eq_true] at same
    rename_i onFalse
    cases onFalse <;> simp only [sameCommandOption, Bool.false_eq_true, and_false] at same
    rw [given check (by simp [exprs]) _ same.1.1,
      eq_of_same onTrue (fun e he => given e (by simp [exprs, he])) same.1.2,
      eq_of_same onFalse' (fun e he => given e (by simp [exprs, he])) same.2]
  | .batch _ items operation, c, given, same => by
    cases c <;> simp only [sameCommand, Bool.and_eq_true, Bool.false_eq_true, beq_iff_eq] at same
    rw [same.1.1, Expr.eq_of_sameExprs (fun e he => given e (by simp [exprs, he])) same.1.2,
      eq_of_same operation (fun e he => given e (by simp [exprs, he])) same.2]

theorem Operator.eq_of_same {op op' : Operator Expr}
    (given : ∀ e ∈ op'.exprs, ∀ a : Expr, a.same e = true → a = e) (same : sameOperator op op' = true) :
    op = op' := by
  have expr : ∀ {a a' : Expr}, a' ∈ op'.exprs → a.same a' = true → a = a' := fun ha h => given _ ha _ h
  have lambda : ∀ {l l' : Lambda Expr}, l'.body ∈ op'.exprs → sameLambda l l' = true → l = l' :=
    fun hl h => Lambda.eq_of_same (given _ hl) h
  have option : ∀ {l l' : Option (Lambda Expr)}, l'.toList.map (·.body) ⊆ op'.exprs →
      sameLambdaOption l l' = true → l = l' :=
    fun hl h => Lambda.eq_of_sameOption (fun e he => given e (hl he)) h
  unfold sameOperator at same
  split at same <;> try simp only [Bool.and_eq_true, beq_iff_eq, Bool.false_eq_true] at same
  -- One case for each operator, in the order of the comparison.
  · rw [same]
  · rw [expr (by simp [exprs]) same.1, lambda (by simp [exprs]) same.2]
  · rw [expr (by simp [exprs]) same.1, lambda (by simp [exprs]) same.2]
  · rw [expr (by simp [exprs]) same.1.1, lambda (by simp [exprs]) same.1.2, option (by simp [exprs]) same.2]
  · rw [expr (by simp [exprs]) same.1.1.1.1, expr (by simp [exprs]) same.1.1.1.2,
      lambda (by simp [exprs]) same.1.1.2, lambda (by simp [exprs]) same.1.2,
      lambda (by simp [exprs]) same.2]
  · rw [expr (by simp [exprs]) same.1.1.1.1, expr (by simp [exprs]) same.1.1.1.2,
      lambda (by simp [exprs]) same.1.1.2, lambda (by simp [exprs]) same.1.2,
      lambda (by simp [exprs]) same.2]
  · rw [expr (by simp [exprs]) same.1.1, lambda (by simp [exprs]) same.1.2, same.2]
  · rw [expr (by simp [exprs]) same.1.1, lambda (by simp [exprs]) same.1.2, same.2]
  · rw [expr (by simp [exprs]) same.1.1.1, lambda (by simp [exprs]) same.1.1.2,
      option (by grind [exprs]) same.1.2, option (by grind [exprs]) same.2]
  · rw [expr (by simp [exprs]) same]
  · rw [expr (by simp [exprs]) same.1, expr (by simp [exprs]) same.2]
  · rw [expr (by simp [exprs]) same.1, expr (by simp [exprs]) same.2]
  · rw [expr (by simp [exprs]) same]
  · rw [expr (by simp [exprs]) same.1, same.2]
  · rw [expr (by simp [exprs]) same]
  · rw [expr (by simp [exprs]) same.1.1, same.1.2, option (by simp [exprs]) same.2]
  · rw [expr (by simp [exprs]) same.1.1, same.1.2, option (by simp [exprs]) same.2]
  · rw [expr (by simp [exprs]) same.1, option (by simp [exprs]) same.2]
  · rw [expr (by simp [exprs]) same.1, lambda (by simp [exprs]) same.2]
  · rw [expr (by simp [exprs]) same.1, expr (by simp [exprs]) same.2]
  · rw [same.1.1, expr (by simp [exprs]) same.1.2, expr (by simp [exprs]) same.2]
  · rw [same.1, expr (by simp [exprs]) same.2]
  · rw [same.1.1, expr (by simp [exprs]) same.1.2, option (by simp [exprs]) same.2]
  · rw [same.1.1, expr (by simp [exprs]) same.1.2, option (by simp [exprs]) same.2]
  · rw [same.1.1, Expr.eq_of_sameOption (fun e he => given e (by simp [exprs, he])) same.1.2,
      option (by simp [exprs]) same.2]
  · rw [Expr.eq_of_sameExprs (fun e he => given e (by simp [exprs, he])) same.1,
      lambda (by simp [exprs]) same.2]

/-- What compares equal to a node without floats is that node. -/
theorem Part.Everywhere.eq_of_same {p' : Part} (floatless : p'.Everywhere Floatless) :
    ∀ p, p.same p' = true → p = p' := by
  induction floatless with
  | @node p' here operands ih =>
    intro p same
    by_cases exact : p'.Exact
    · exact eq_of_same_parts exact (fun q hq => ih q (parts_subset_operands p' hq)) p same
    -- What is not exact and holds no float is an operator or a command.
    cases p' with
    | select _ | projection _ => exact absurd trivial exact
    | expr e' =>
      cases e' with
      | const _ => exact absurd here exact
      | operator op' =>
        cases p <;> simp only [Part.same, Bool.false_eq_true] at same
        rename_i e
        cases e <;> simp only [Expr.same, Bool.false_eq_true] at same
        rw [Operator.eq_of_same (fun e he a h => ?_) same]
        exact Part.expr.inj (ih (.expr e) (List.mem_map_of_mem he) (.expr a) h)
      | command c' =>
        cases p <;> simp only [Part.same, Bool.false_eq_true] at same
        rename_i e
        cases e <;> simp only [Expr.same, Bool.false_eq_true] at same
        rw [Command.eq_of_same c' (fun e he a h => ?_) same]
        exact Part.expr.inj (ih (.expr e) (List.mem_map_of_mem he) (.expr a) h)
      | _ => exact absurd trivial exact

section Kinds

variable {D D' R R' : Alias → Alias → Prop} {p q r : Part}

/-- Renaming a node twice is renaming it. -/
theorem Expr.Renamed.trans {e e' e'' : Expr} (h : e.Renamed D R e') (h' : e'.Renamed D' R' e'') :
    e.Renamed (fun _ _ => True) (fun _ _ => True) e'' := by
  cases h with
  | table name _ =>
    cases h' with
    | table name' _ => exact .table (name.trans name') trivial
    | nameless h => exact h.elim
  | column name _ =>
    cases h' with
    | column name' _ => exact .column (name.trans name') trivial
    | nameless h => exact h.elim
  | setOp kind s t _ =>
    cases h' with
    | setOp _ _ _ _ => exact .setOp kind s t trivial
    | nameless h => exact h.elim
  | groupAggregate _ _ a s _ =>
    cases h' with
    | groupAggregate _ _ _ _ _ => exact .groupAggregate _ _ a s trivial
    | nameless h => exact h.elim
  | nameless h =>
    cases h' with
    | nameless h' => exact .nameless h'
    | _ => exact h.elim

theorem Select.Akin.comp {Q Q' : Expr → Expr → Prop} {s s' s'' : Select Expr} (h : s.Akin Q s')
    (h' : s'.Akin Q' s'') : s.Akin (Relation.Comp Q Q') s'' where
  columns := (comp_forall₂ h.columns h'.columns).imp fun _ _ ⟨_, h, h'⟩ => ⟨h.1.trans h'.1, _, h.2, h'.2⟩
  source := comp_optionRel h.source h'.source
  filter := comp_optionRel h.filter h'.filter
  orderBy := (comp_forall₂ h.orderBy h'.orderBy).imp fun _ _ ⟨_, h, h'⟩ => ⟨h.1.trans h'.1, _, h.2, h'.2⟩
  groupBy := comp_forall₂ h.groupBy h'.groupBy
  distinct := h.distinct.trans h'.distinct
  skip := comp_optionRel h.skip h'.skip
  take := comp_optionRel h.take h'.take
  reversed := h.reversed.trans h'.reversed

theorem Part.Kin.trans (h : p.Kin D R q) (h' : q.Kin D' R' r) :
    p.Kin (fun _ _ => True) (fun _ _ => True) r := by
  cases h with
  | expr renamed like =>
    cases h' with
    | expr renamed' like' =>
      obtain ⟨e, like, between⟩ := renamed'.flip.comm like.flip
      exact .expr (renamed.trans between.flip)
        ((like.flip.comp like').imp (fun _ _ _ _ => trivial) (fun _ _ _ _ => trivial)
          fun _ _ _ _ => trivial)
  | select _ like =>
    cases h' with
    | select _ like' => exact .select trivial (like.comp like').like
  | projection pick =>
    cases h' with
    | projection pick' => exact .projection (pick.trans pick')

def Part.Loose (p : Part) : Prop :=
  ∀ e, p = .expr e → ¬ e.Rigid

theorem Part.Kin.loose (h : p.Kin D R q) (loose : p.Loose) : q.Loose := by
  rintro e' rfl rigid
  cases h with
  | @expr e e₁ _ renamed like =>
    have loose := loose e rfl
    cases like <;> first
      | exact rigid.elim
      | cases renamed
        exact loose trivial

end Kinds

section Steps

variable {P P' : Partners} {p p' : Part} {e : Expr}

/-- What a node compared as it stands equals. -/
theorem Part.eq_of_match?_rigid (rigid : e.Rigid) (floatless : p'.Everywhere Floatless)
    (h : (Part.expr e).match? P p' = some P') : p' = .expr e ∧ P' = P ∧ e.same e = true := by
  cases p' <;> simp only [match?, reduceCtorEq] at h
  rename_i e'
  rw [Expr.match?_rigid rigid] at h
  obtain ⟨same, rfl⟩ := keepIf_eq_some.mp h
  cases floatless.eq_of_same (.expr e) same
  exact ⟨rfl, rfl, same⟩

/-- A comparison goes through the parts and notes the aliases of the node last. -/
theorem Part.match?_loose_iff (loose : p.Loose) :
    p.match? P p' = some P' ↔ p.Kin (fun _ _ => True) (fun _ _ => True) p' ∧
      P.agreeAll p.reads p'.reads = true ∧
        ∃ P₁, matchParts? P p.parts p'.parts = some P₁ ∧ P' = p.binds.zip p'.binds ++ P₁ := by
  constructor
  · intro h
    have kin := kin_of_match? h loose
    rw [match?_eq kin loose, Option.bind_eq_some_iff] at h
    obtain ⟨_, test, h⟩ := h
    obtain ⟨agree, rfl⟩ := keepIf_eq_some.mp test
    obtain ⟨P₁, parts, rfl⟩ := Option.map_eq_some_iff.mp h
    exact ⟨kin, agree, P₁, parts, rfl⟩
  · rintro ⟨kin, agree, P₁, parts, rfl⟩
    rw [match?_eq kin loose, keepIf_eq_some.mpr ⟨agree, rfl⟩, Option.bind_some, parts, Option.map_some]

end Steps

structure Clear (taken declared read : List Alias) : Prop where
  nodup : (taken ++ declared).Nodup
  unread : ∀ a ∈ read, a ∉ taken ++ declared

namespace Clear

variable {taken taken' declared declared' read read' added : List Alias} {p p' : Part}

/-- Aliases are told apart where more of them are. -/
theorem mono (h : Clear taken declared read) (names : (taken' ++ declared').Subperm (taken ++ declared))
    (reads : read' ⊆ read) : Clear taken' declared' read' where
  nodup := by
    obtain ⟨_, perm, sub⟩ := names
    exact perm.nodup_iff.mp (h.nodup.sublist sub)
  unread a ha := fun here => h.unread a (reads ha) (names.subset here)

theorem first (h : Clear taken (declared ++ declared') (read ++ read')) : Clear taken declared read :=
  h.mono ((List.sublist_append_left _ _).append_left _).subperm (List.subset_append_left _ _)

/-- When aliases that were declared are taken, the others are still new. -/
theorem next (h : Clear taken (declared ++ declared') (read ++ read')) (sub : added.Subperm declared) :
    Clear (added ++ taken) declared' read' := by
  refine h.mono ?_ (List.subset_append_right _ _)
  rw [← List.append_assoc]
  exact (List.subperm_append_right _).mpr
    (List.perm_append_comm.subperm.trans ((List.subperm_append_left _).mpr sub))

theorem parts (h : Clear taken p'.declared p.references) :
    Clear taken (p'.parts.flatMap Part.declared) (p.parts.flatMap Part.references) := by
  rw [Part.declared_eq, Part.references_eq] at h
  exact h.mono ((List.sublist_append_right _ _).append_left _).subperm (List.subset_append_right _ _)

theorem reads (h : Clear taken p'.declared p.references) : ∀ a ∈ p.reads, a ∉ taken := fun a ha here =>
  h.unread a (Part.reads_subset p ha) (List.mem_append_left _ here)

theorem taken_nodup (h : Clear taken declared read) : taken.Nodup :=
  h.nodup.of_append_left

end Clear

namespace Partners

variable {P Q : Partners} {a b c : Alias}

def swap (P : Partners) : Partners :=
  P.map Prod.swap

theorem lookup_eq_none (h : a ∉ P.map (·.1)) : P.lookup a = none := by
  refine List.lookup_eq_none_iff.mpr fun pair hpair => bne_iff_ne.mpr fun same => h ?_
  exact same ▸ List.mem_map_of_mem hpair

theorem lookup_swap (distinct : (P.map (·.2)).Nodup) (h : P.lookup a = some b) :
    P.swap.lookup b = some a := by
  induction P with
  | nil => simp at h
  | cons pair P ih =>
    obtain ⟨x, y⟩ := pair
    rw [List.map_cons, List.nodup_cons] at distinct
    rw [List.lookup_cons] at h
    rw [swap, List.map_cons, Prod.swap_prod_mk, List.lookup_cons]
    by_cases found : a = x
    · simp only [found, BEq.rfl, Option.some.injEq] at h
      simp [h, found]
    · have other : (a == x) = false := beq_false_of_ne found
      rw [other] at h
      have mem : b ∈ P.map (·.2) := List.mem_map_of_mem (mem_of_lookup h)
      have apart : (b == y) = false := beq_false_of_ne fun same => distinct.1 (same ▸ mem)
      rw [apart]
      exact ih distinct.2 h

/-- Aliases that agree do so from right to left, if the left one is no partner itself. -/
theorem agree_swap (distinct : (P.map (·.2)).Nodup) (ha : a ∉ P.map (·.2)) (h : P.agree a b = true) :
    P.swap.agree b a = true := by
  rw [agree] at h
  split at h
  · rename_i partner found
    rw [← beq_iff_eq.mp h, agree, lookup_swap distinct found]
    exact BEq.rfl
  · cases beq_iff_eq.mp h
    rw [agree, lookup_eq_none]
    · exact BEq.rfl
    · simpa [swap] using ha

theorem agreeAll_swap {as bs : List Alias} (distinct : (P.map (·.2)).Nodup)
    (unread : ∀ a ∈ as, a ∉ P.map (·.2)) (h : P.agreeAll as bs = true) :
    P.swap.agreeAll bs as = true := by
  rw [agreeAll, List.all_eq_true] at h ⊢
  rintro ⟨b, a⟩ mem
  have mem : (a, b) ∈ as.zip bs := by
    rw [← List.zip_swap]
    exact List.mem_map_of_mem mem
  exact agree_swap distinct (unread a (List.of_mem_zip mem).1) (h _ mem)

theorem swap_append_zip {as bs : List Alias} : swap (as.zip bs ++ P) = bs.zip as ++ P.swap := by
  rw [swap, List.map_append, List.zip_swap, swap]

end Partners

section Swap

variable {P P' : Partners}

/-- Comparisons of several parts can be turned round if each of them can. -/
theorem matchParts?_swap {ps ps' : List Part}
    (clear : Clear (P.map (·.2)) (ps'.flatMap Part.declared) (ps.flatMap Part.references))
    (step : ∀ q ∈ ps, ∀ q' ∈ ps', ∀ {P P' : Partners}, Clear (P.map (·.2)) q'.declared q.references →
      q.match? P q' = some P' → P.Grown P' q.declared q'.declared ∧ q'.match? P.swap q = some P'.swap)
    (h : matchParts? P ps ps' = some P') : matchParts? P.swap ps' ps = some P'.swap := by
  induction ps generalizing P ps' with
  | nil =>
    cases ps' with
    | nil =>
      cases h
      rfl
    | cons _ _ => simp [matchParts?] at h
  | cons q ps ih =>
    cases ps' with
    | nil => simp [matchParts?] at h
    | cons q' ps' =>
      obtain ⟨P₁, head, rest⟩ := Option.bind_eq_some_iff.mp h
      rw [List.flatMap_cons, List.flatMap_cons] at clear
      obtain ⟨⟨added, rfl, -, sub⟩, turned⟩ := step q (by simp) q' (by simp) clear.first head
      rw [matchParts?, turned, Option.bind_some]
      refine ih ?_ (fun q hq q' hq' => step q (by simp [hq]) q' (by simp [hq'])) rest
      rw [List.map_append]
      exact clear.next sub

/-- A comparison of trees without floats can be turned round. -/
theorem Part.match?_swap {P P' : Partners} {p p' : Part} (floatless : p.Everywhere Floatless)
    (floatless' : p'.Everywhere Floatless) (clear : Clear (P.map (·.2)) p'.declared p.references)
    (h : p.match? P p' = some P') : p'.match? P.swap p = some P'.swap := by
  by_cases loose : p.Loose
  · obtain ⟨kin, agree, P₁, parts, rfl⟩ := (match?_loose_iff loose).mp h
    refine (match?_loose_iff (kin.loose loose)).mpr
      ⟨kin.flip, Partners.agreeAll_swap clear.taken_nodup clear.reads agree, P₁.swap, ?_,
        Partners.swap_append_zip⟩
    refine matchParts?_swap clear.parts (fun q hq q' hq' _ _ clear h => ⟨?_, ?_⟩) parts
    · exact (compared_of_match? (floatless.part hq).every h).grown
    · exact match?_swap (floatless.part hq) (floatless'.part hq') clear h
  · simp only [Loose, not_forall, not_not] at loose
    obtain ⟨e, rfl, rigid⟩ := loose
    obtain ⟨rfl, rfl, same⟩ := eq_of_match?_rigid rigid floatless' h
    rw [match?, Expr.match?_rigid rigid]
    exact keepIf_eq_some.mpr ⟨same, rfl⟩
termination_by p.weight
decreasing_by exact weight_lt hq

end Swap

namespace Partners

variable {P Q : Partners} {a b c : Alias} {as bs cs : List Alias}

def compose (P Q : Partners) : Partners :=
  (P.map (·.1)).zip (Q.map (·.2))

theorem lookup_compose (aligned : P.map (·.2) = Q.map (·.1)) (distinct : (P.map (·.2)).Nodup)
    (h : P.lookup a = some b) : (P.compose Q).lookup a = Q.lookup b ∧ b ∈ Q.map (·.1) := by
  induction P generalizing Q with
  | nil => simp at h
  | cons pair P ih =>
    cases Q with
    | nil => simp at aligned
    | cons pair' Q =>
      obtain ⟨x, y⟩ := pair
      obtain ⟨y', z⟩ := pair'
      simp only [List.map_cons, List.cons.injEq] at aligned
      obtain ⟨rfl, aligned⟩ := aligned
      rw [List.map_cons, List.nodup_cons] at distinct
      rw [List.lookup_cons] at h
      rw [compose, List.map_cons, List.map_cons, List.zip_cons_cons, List.lookup_cons, List.lookup_cons]
      by_cases found : a = x
      · simp only [found, BEq.rfl, Option.some.injEq] at h
        simp [h, found]
      · have other : (a == x) = false := beq_false_of_ne found
        rw [other] at h
        have mem : b ∈ P.map (·.2) := List.mem_map_of_mem (mem_of_lookup h)
        have apart : (b == y) = false := beq_false_of_ne fun same => distinct.1 (same ▸ mem)
        rw [other, apart]
        exact (ih aligned distinct.2 h).imp_right (List.mem_cons_of_mem _)

/-- Agreement goes from one pair of trees to the next, if the leftmost alias is no partner itself. -/
theorem agree_compose (aligned : P.map (·.2) = Q.map (·.1)) (distinct : (P.map (·.2)).Nodup)
    (ha : a ∉ P.map (·.2)) (h : P.agree a b = true) (h' : Q.agree b c = true) :
    (P.compose Q).agree a c = true := by
  rw [agree] at h
  split at h
  · rename_i partner found
    rw [beq_iff_eq.mp h] at found
    obtain ⟨same, mem⟩ := lookup_compose aligned distinct found
    rw [agree] at h' ⊢
    rw [same]
    split at h'
    · exact h'
    · rename_i missing
      obtain ⟨pair, hpair, rfl⟩ := List.mem_map.mp mem
      exact absurd rfl (bne_iff_ne.mp (List.lookup_eq_none_iff.mp missing pair hpair))
  · rename_i missing
    cases beq_iff_eq.mp h
    rw [agree, lookup_eq_none (aligned ▸ ha)] at h'
    have alone : (P.compose Q).lookup a = none := by
      refine lookup_eq_none fun here => ?_
      rw [compose, List.map_fst_zip (by simpa using (congrArg List.length aligned).le)] at here
      obtain ⟨pair, hpair, rfl⟩ := List.mem_map.mp here
      exact absurd rfl (bne_iff_ne.mp (List.lookup_eq_none_iff.mp missing pair hpair))
    rw [agree, alone]
    exact h'

theorem agreeAll_compose (aligned : P.map (·.2) = Q.map (·.1)) (distinct : (P.map (·.2)).Nodup)
    (unread : ∀ a ∈ as, a ∉ P.map (·.2)) (h : P.agreeAll as bs = true) (h' : Q.agreeAll bs cs = true)
    (lengths : as.length = bs.length) : (P.compose Q).agreeAll as cs = true := by
  induction as generalizing bs cs with
  | nil => rfl
  | cons a as ih =>
    cases bs with
    | nil => simp at lengths
    | cons b bs =>
      cases cs with
      | nil => rfl
      | cons c cs =>
        simp only [agreeAll, List.zip_cons_cons, List.all_cons, Bool.and_eq_true] at h h' ⊢
        exact ⟨agree_compose aligned distinct (unread a (by simp)) h.1 h'.1,
          ih (fun x hx => unread x (by simp [hx])) h.2 h'.2 (by simpa using lengths)⟩

theorem compose_append (left : as.length = bs.length) (right : bs.length = cs.length) :
    compose (as.zip bs ++ P) (bs.zip cs ++ Q) = as.zip cs ++ P.compose Q := by
  rw [compose, List.map_append, List.map_append, List.map_fst_zip left.le, List.map_snd_zip right.ge,
    List.zip_append (left.trans right), compose]

theorem aligned_append (left : as.length = bs.length) (right : bs.length = cs.length)
    (aligned : P.map (·.2) = Q.map (·.1)) :
    (as.zip bs ++ P).map (·.2) = (bs.zip cs ++ Q).map (·.1) := by
  rw [List.map_append, List.map_append, List.map_snd_zip left.ge, List.map_fst_zip right.le, aligned]

end Partners

section Compose

variable {P P' Q Q' : Partners}

/-- Comparisons of several parts can be made one after the other if those of each can. -/
theorem matchParts?_compose {ps qs rs : List Part} (aligned : P.map (·.2) = Q.map (·.1))
    (clear : Clear (P.map (·.2)) (qs.flatMap Part.declared) (ps.flatMap Part.references))
    (step : ∀ p ∈ ps, ∀ q ∈ qs, ∀ r ∈ rs, ∀ {P P' Q Q' : Partners}, P.map (·.2) = Q.map (·.1) →
      Clear (P.map (·.2)) q.declared p.references → p.match? P q = some P' → q.match? Q r = some Q' →
      P.Grown P' p.declared q.declared ∧ P'.map (·.2) = Q'.map (·.1)
        ∧ p.match? (P.compose Q) r = some (P'.compose Q'))
    (h : matchParts? P ps qs = some P') (h' : matchParts? Q qs rs = some Q') :
    P'.map (·.2) = Q'.map (·.1) ∧ matchParts? (P.compose Q) ps rs = some (P'.compose Q') := by
  induction ps generalizing P Q qs rs with
  | nil =>
    cases qs with
    | nil =>
      cases rs with
      | nil =>
        cases h
        cases h'
        exact ⟨aligned, rfl⟩
      | cons _ _ => simp [matchParts?] at h'
    | cons _ _ => simp [matchParts?] at h
  | cons p ps ih =>
    cases qs with
    | nil => simp [matchParts?] at h
    | cons q qs =>
      cases rs with
      | nil => simp [matchParts?] at h'
      | cons r rs =>
        obtain ⟨P₁, head, rest⟩ := Option.bind_eq_some_iff.mp h
        obtain ⟨Q₁, head', rest'⟩ := Option.bind_eq_some_iff.mp h'
        rw [List.flatMap_cons, List.flatMap_cons] at clear
        obtain ⟨⟨added, rfl, -, sub⟩, aligned, composed⟩ :=
          step p (by simp) q (by simp) r (by simp) aligned clear.first head head'
        rw [matchParts?, composed, Option.bind_some]
        refine ih aligned ?_ (fun p hp q hq r hr => step p (by simp [hp]) q (by simp [hq]) r (by simp [hr]))
          rest rest'
        rw [List.map_append]
        exact clear.next sub

/-- Comparisons of trees without floats can be made one after the other. -/
theorem Part.match?_compose {P P' Q Q' : Partners} {p q r : Part} (floatless : p.Everywhere Floatless)
    (floatless' : q.Everywhere Floatless) (floatless'' : r.Everywhere Floatless)
    (aligned : P.map (·.2) = Q.map (·.1)) (clear : Clear (P.map (·.2)) q.declared p.references)
    (h : p.match? P q = some P') (h' : q.match? Q r = some Q') :
    P'.map (·.2) = Q'.map (·.1) ∧ p.match? (P.compose Q) r = some (P'.compose Q') := by
  by_cases loose : p.Loose
  · obtain ⟨kin, agree, P₁, parts, rfl⟩ := (match?_loose_iff loose).mp h
    obtain ⟨kin', agree', Q₁, parts', rfl⟩ := (match?_loose_iff (kin.loose loose)).mp h'
    have binds := kin.binds.length_eq
    have binds' := kin'.binds.length_eq
    obtain ⟨aligned', composed⟩ := matchParts?_compose aligned clear.parts
      (fun p hp q hq r hr _ _ _ _ aligned clear h h' =>
        ⟨(compared_of_match? (floatless.part hp).every h).grown,
          match?_compose (floatless.part hp) (floatless'.part hq) (floatless''.part hr) aligned clear h h'⟩)
      parts parts'
    refine ⟨Partners.aligned_append binds binds' aligned', (match?_loose_iff loose).mpr
      ⟨kin.trans kin', ?_, P₁.compose Q₁, composed, (Partners.compose_append binds binds')⟩⟩
    exact Partners.agreeAll_compose aligned clear.taken_nodup clear.reads agree agree' kin.reads.length_eq
  · simp only [Loose, not_forall, not_not] at loose
    obtain ⟨e, rfl, rigid⟩ := loose
    obtain ⟨rfl, rfl, -⟩ := eq_of_match?_rigid rigid floatless' h
    obtain ⟨rfl, rfl, same⟩ := eq_of_match?_rigid rigid floatless'' h'
    rw [match?, Expr.match?_rigid rigid]
    exact ⟨aligned, keepIf_eq_some.mpr ⟨same, rfl⟩⟩
termination_by p.weight
decreasing_by exact weight_lt hp

end Compose

def Part.aliases (p : Part) : List Alias :=
  p.declared ++ p.references

/-- No alias that one of the trees declares occurs in the other. -/
def Expr.Apart (a b : Expr) : Prop :=
  (∀ x ∈ (Part.expr a).declared, x ∉ (Part.expr b).aliases) ∧
    ∀ x ∈ (Part.expr b).declared, x ∉ (Part.expr a).aliases

namespace Expr

variable {a b c : Expr}

instance : DecidableRel Apart :=
  fun _ _ => inferInstanceAs (Decidable (_ ∧ _))

theorem Apart.symm (h : a.Apart b) : b.Apart a :=
  ⟨h.2, h.1⟩

theorem Apart.clear (h : a.Apart b) (distinct : (Part.expr b).declared.Nodup) :
    Clear [] (Part.expr b).declared (Part.expr a).references where
  nodup := distinct
  unread _ ha := fun here => h.2 _ here (List.mem_append_right _ ha)

theorem alike_iff : a.alike b = true ↔ ∃ P, (Part.expr a).match? [] (.expr b) = some P := by
  rw [alike, alikeUnder, Option.isSome_iff_exists]
  rfl

theorem alike_of_alike (floatless : (Part.expr a).Everywhere Part.Floatless)
    (floatless' : (Part.expr b).Everywhere Part.Floatless) (distinct : (Part.expr b).declared.Nodup)
    (apart : a.Apart b) (h : a.alike b = true) : b.alike a = true := by
  obtain ⟨P, h⟩ := alike_iff.mp h
  exact alike_iff.mpr ⟨P.swap, Part.match?_swap (P := []) floatless floatless' (apart.clear distinct) h⟩

/-- Likeness is symmetric and transitive among trees without floats that declare aliases of their own. -/
theorem alike_symm_trans {a b c : Expr}
    (floatless : ∀ e ∈ [a, b, c], (Part.expr e).Everywhere Part.Floatless)
    (distinct : ∀ e ∈ [a, b, c], (Part.expr e).declared.Nodup) (apart : [a, b, c].Pairwise Apart) :
    a.alike b = b.alike a ∧ (a.alike b = true → b.alike c = true → a.alike c = true) := by
  simp only [List.forall_mem_cons, List.not_mem_nil, false_imp_iff, implies_true, and_true]
    at floatless distinct
  obtain ⟨fa, fb, fc⟩ := floatless
  obtain ⟨da, db, -⟩ := distinct
  have apart : a.Apart b := (List.pairwise_cons.mp apart).1 b (by simp)
  refine ⟨Bool.eq_iff_iff.mpr ⟨alike_of_alike fa fb db apart, alike_of_alike fb fa da apart.symm⟩,
    fun hab hbc => ?_⟩
  obtain ⟨P, hab⟩ := alike_iff.mp hab
  obtain ⟨Q, hbc⟩ := alike_iff.mp hbc
  exact alike_iff.mpr ⟨P.compose Q,
    (Part.match?_compose (P := []) (Q := []) fa fb fc rfl (apart.clear db) hab hbc).2⟩

end Expr

namespace Sample

theorem everywhere_leaders (rel employee team member : Alias) :
    (Part.expr (.select (leaders rel employee team member))).Everywhere Part.Floatless := by
  simp [leaders, Part.everywhere_iff (p := .expr _), Part.everywhere_iff (p := .select _), Part.operands,
    Part.parts, Select.exprs, Expr.equals, Expr.both, Expr.int, Select.plain, Part.Floatless,
    Value.Exact.int]

/-- The leaders under three sets of names. -/
theorem alike_leaders :
    (Expr.select (leaders ⟨5⟩ ⟨6⟩ ⟨7⟩ ⟨8⟩)).alike (.select (leaders ⟨1⟩ ⟨2⟩ ⟨3⟩ ⟨4⟩)) = true
      ∧ (Expr.select (leaders ⟨1⟩ ⟨2⟩ ⟨3⟩ ⟨4⟩)).alike (.select (leaders ⟨10⟩ ⟨11⟩ ⟨12⟩ ⟨13⟩)) = true := by
  have floatless : ∀ e ∈ [Expr.select (leaders ⟨1⟩ ⟨2⟩ ⟨3⟩ ⟨4⟩), .select (leaders ⟨5⟩ ⟨6⟩ ⟨7⟩ ⟨8⟩),
      .select (leaders ⟨10⟩ ⟨11⟩ ⟨12⟩ ⟨13⟩)], (Part.expr e).Everywhere Part.Floatless := by
    simp only [List.forall_mem_cons, everywhere_leaders, List.not_mem_nil, false_imp_iff, implies_true,
      and_true]
  obtain ⟨symm, trans⟩ := Expr.alike_symm_trans floatless (by decide +kernel) (by decide +kernel)
  have first :
      (Expr.select (leaders ⟨1⟩ ⟨2⟩ ⟨3⟩ ⟨4⟩)).alike (.select (leaders ⟨5⟩ ⟨6⟩ ⟨7⟩ ⟨8⟩)) = true := by
    decide +kernel
  exact ⟨symm ▸ first, trans first (by decide +kernel)⟩

end Sample

end ObjectQuery
