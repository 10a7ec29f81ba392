import ObjectQuery.Proofs.Renaming
import Mathlib.Data.List.Perm.Subperm
import Mathlib.Data.Option.Basic

/-!
What a comparison of two trees says. The comparison of two nodes is a test of the nodes themselves,
then one comparison of their parts after another, and at last it notes that the aliases which the nodes
declare are partners.
-/

namespace ObjectQuery

def Expr.Rigid : Expr → Prop
  | .const _ | .param _ | .lambda _ | .operator _ | .command _ => True
  | _ => False

def Part.match? (P : Partners) : Part → Part → Option Partners
  | .expr e, .expr e' => e.match? P e'
  | .select s, .select s' => matchSelect? P s s'
  | .projection p, .projection p' => matchProjection? P p p'
  | _, _ => none

def matchParts? (P : Partners) : List Part → List Part → Option Partners
  | [], [] => some P
  | p :: ps, p' :: ps' => (p.match? P p').bind fun P => matchParts? P ps ps'
  | _, _ => none

section Sequences

variable {P P' : Partners}

theorem matchExprs?_eq (as bs : List Expr) :
    matchExprs? P as bs = matchParts? P (as.map .expr) (bs.map .expr) := by
  induction as generalizing P bs with
  | nil => cases bs <;> rfl
  | cons a as ih =>
    cases bs with
    | nil => rfl
    | cons b bs => simp [matchExprs?, matchParts?, Part.match?, ih, bind]

theorem matchOption?_eq (a b : Option Expr) :
    matchOption? P a b = matchParts? P (a.toList.map .expr) (b.toList.map .expr) := by
  cases a <;> cases b <;> simp [matchOption?, matchParts?, Part.match?]

theorem matchParts?_append {ps ps' qs qs' : List Part} (lengths : ps.length = ps'.length) :
    matchParts? P (ps ++ qs) (ps' ++ qs')
      = (matchParts? P ps ps').bind fun P => matchParts? P qs qs' := by
  induction ps generalizing P ps' with
  | nil =>
    cases ps' with
    | nil => rfl
    | cons _ _ => simp at lengths
  | cons p ps ih =>
    cases ps' with
    | nil => simp at lengths
    | cons p' ps' =>
      have rest : ps.length = ps'.length := by simpa using lengths
      simp [matchParts?, Option.bind_assoc, ih rest]

theorem length_of_matchParts? {ps ps' : List Part} (h : matchParts? P ps ps' = some P') :
    ps.length = ps'.length := by
  induction ps generalizing P ps' with
  | nil =>
    cases ps' with
    | nil => rfl
    | cons _ _ => simp [matchParts?] at h
  | cons p ps ih =>
    cases ps' with
    | nil => simp [matchParts?] at h
    | cons p' ps' =>
      obtain ⟨P₁, -, h⟩ := Option.bind_eq_some_iff.mp h
      rw [List.length_cons, List.length_cons, ih h]

theorem matchFields?_eq {as bs : List (Field Expr)}
    (h : List.Forall₂ (fun f f' => f.name = f'.name ∧ True) as bs) :
    matchFields? P as bs = matchParts? P (as.map (.expr ·.expr)) (bs.map (.expr ·.expr)) := by
  induction h generalizing P with
  | nil => rfl
  | cons head _ ih =>
    simp only [matchFields?, matchParts?, List.map_cons, Part.match?, head.1, beq_self_eq_true, keepIf,
      if_true, bind, Option.bind_some, ih]

theorem matchOrders?_eq {as bs : List (Order Expr)}
    (h : List.Forall₂ (fun o o' => o.direction = o'.direction ∧ True) as bs) :
    matchOrders? P as bs = matchParts? P (as.map (.expr ·.expr)) (bs.map (.expr ·.expr)) := by
  induction h generalizing P with
  | nil => rfl
  | cons head _ ih =>
    simp only [matchOrders?, matchParts?, List.map_cons, Part.match?, head.1, beq_self_eq_true, keepIf,
      if_true, bind, Option.bind_some, ih]

theorem matchColumns?_eq {as bs : List (ColumnDecl Expr)}
    (h : List.Forall₂ (fun d d' => d.name = d'.name ∧ True) as bs) :
    matchColumns? P as bs = matchParts? P (as.map (.expr ·.expr)) (bs.map (.expr ·.expr)) := by
  induction h generalizing P with
  | nil => rfl
  | cons head _ ih =>
    simp only [matchColumns?, matchParts?, List.map_cons, Part.match?, head.1, beq_self_eq_true, keepIf,
      if_true, bind, Option.bind_some, ih]

end Sequences

section Kinds

variable {P P' : Partners} {D R : Alias → Alias → Prop}

def Partners.agreeAll (P : Partners) (as bs : List Alias) : Bool :=
  (as.zip bs).all fun x => P.agree x.1 x.2

/-- The parts of a select, clause after clause. -/
theorem Select.parts_eq (s : Select Expr) :
    (Part.select s).parts = s.source.toList.map Part.expr ++ (s.filter.toList.map Part.expr
      ++ (s.orderBy.map (Part.expr ·.expr) ++ (s.groupBy.map Part.expr ++ (s.skip.toList.map Part.expr
      ++ (s.take.toList.map Part.expr ++ s.columns.map (Part.expr ·.expr)))))) := by
  simp [Part.parts, Select.exprs, Function.comp_def]

theorem matchSelect?_eq {s s' : Select Expr} (like : s.Like s') :
    matchSelect? P s s' = (matchParts? P (Part.select s).parts (Part.select s').parts).map
      ((s.rel, s'.rel) :: ·) := by
  have lengths : ∀ {a b : Option Expr}, Option.Rel (fun _ _ => True) a b →
      (a.toList.map Part.expr).length = (b.toList.map Part.expr).length := by
    intro a b h
    simpa using length_toList h
  have orders : (s.orderBy.map fun o => Part.expr o.expr).length
      = (s'.orderBy.map fun o => Part.expr o.expr).length := by
    simpa using like.orderBy.length_eq
  have groups : (s.groupBy.map Part.expr).length = (s'.groupBy.map Part.expr).length := by
    simpa using like.groupBy.length_eq
  have walked : matchParts? P (Part.select s).parts (Part.select s').parts = (do
      let P ← matchOption? P s.source s'.source
      let P ← matchOption? P s.filter s'.filter
      let P ← matchOrders? P s.orderBy s'.orderBy
      let P ← matchExprs? P s.groupBy s'.groupBy
      let P ← matchOption? P s.skip s'.skip
      let P ← matchOption? P s.take s'.take
      matchColumns? P s.columns s'.columns) := by
    simp only [matchOption?_eq, matchExprs?_eq, matchOrders?_eq like.orderBy,
      matchColumns?_eq like.columns, Select.parts_eq, matchParts?_append (lengths like.source),
      matchParts?_append (lengths like.filter), matchParts?_append (lengths like.skip),
      matchParts?_append (lengths like.take), matchParts?_append orders, matchParts?_append groups]
    rfl
  rw [walked]
  have distinct := like.distinct
  have reversed := like.reversed
  cases s
  cases s'
  cases distinct
  cases reversed
  simp [matchSelect?, keepIf, Partners.declare, bind, Option.map_eq_bind, Option.bind_assoc]

/-- The comparison of nodes of one kind. -/
theorem Part.match?_eq {p p' : Part} (kin : p.Kin D R p') (loose : ∀ e, p = .expr e → ¬ e.Rigid) :
    p.match? P p' = (keepIf (P.agreeAll p.reads p'.reads) P).bind fun P =>
      (matchParts? P p.parts p'.parts).map (p.binds.zip p'.binds ++ ·) := by
  cases kin with
  | select _ like =>
    rw [match?, matchSelect?_eq like]
    rfl
  | @projection q q' pick =>
    cases q
    cases q'
    cases pick
    simp [match?, matchProjection?, keepIf, Partners.agreeAll, reads, binds, parts, matchParts?, bind]
  | @expr e e₁ e' renamed like =>
    have loose := loose e rfl
    cases renamed with
    | table name _ =>
      cases like
      simp [match?, Expr.match?, keepIf, name, Partners.agreeAll, reads, binds, parts, matchParts?,
        Partners.declare]
    | column name _ =>
      cases like
      simp [match?, Expr.match?, keepIf, name, Partners.agreeAll, reads, binds, parts, matchParts?]
    | setOp kind _ _ _ =>
      cases like
      simp [match?, Expr.match?, keepIf, Partners.agreeAll, reads, binds, parts, matchParts?,
        Partners.declare, bind, Option.map_eq_bind, Option.bind_assoc]
    | groupAggregate _ _ _ _ _ =>
      cases like
      simp [match?, Expr.match?, keepIf, Partners.agreeAll, reads, binds, parts, matchParts?, bind]
    | nameless nameless =>
      cases like with
      | const _ | param _ | lambda _ _ | operator _ | command _ => exact absurd trivial loose
      | table _ | column _ | setOp _ _ _ _ | groupAggregate _ _ _ _ => exact nameless.elim
      | construct _ hfields =>
        simp [match?, Expr.match?, keepIf, Partners.agreeAll, reads, binds, parts, bind,
          matchFields?_eq hfields]
      | rowNumber horders =>
        simp [match?, Expr.match?, keepIf, Partners.agreeAll, reads, binds, parts,
          matchOrders?_eq horders]
      | @clientJoin _ _ outer outer' _ _ _ houter _ =>
        have lengths : (outer.map Part.expr).length = (outer'.map Part.expr).length := by
          simpa using houter.length_eq
        simp [match?, Expr.match?, keepIf, Partners.agreeAll, reads, binds, parts, bind, matchExprs?_eq,
          matchParts?_append lengths, matchParts?]
      | _ =>
        simp only [match?, Expr.match?, keepIf, BEq.rfl, Bool.and_self, ↓reduceIte, Partners.agreeAll,
          reads, binds, parts, matchParts?, matchExprs?_eq, matchOption?_eq, List.zip_nil_right,
          List.all_nil, List.nil_append, bind, Option.bind_some, Option.bind_fun_some, Option.map_bind,
          Option.map_id_fun', Function.comp_def, id_eq]

theorem forall₂_true {α β : Type} {as : List α} {bs : List β} (h : as.length = bs.length) :
    List.Forall₂ (fun _ _ => True) as bs :=
  List.forall₂_iff_zip.mpr ⟨h, fun _ => trivial⟩

theorem like_of_matchExprs? {as bs : List Expr} (h : matchExprs? P as bs = some P') :
    List.Forall₂ (fun _ _ => True) as bs := by
  rw [matchExprs?_eq] at h
  exact forall₂_true (by simpa using length_of_matchParts? h)

theorem like_of_matchOption? {a b : Option Expr} (h : matchOption? P a b = some P') :
    Option.Rel (fun _ _ => True) a b := by
  rw [matchOption?_eq] at h
  exact optionRel_of_toList (forall₂_true (by simpa using length_of_matchParts? h))

theorem keepIf_eq_some {test : Bool} : keepIf test P = some P' ↔ test = true ∧ P = P' := by
  cases test <;> simp [keepIf]

theorem like_of_matchFields? {as bs : List (Field Expr)} (h : matchFields? P as bs = some P') :
    List.Forall₂ (fun f f' => f.name = f'.name ∧ True) as bs := by
  induction as generalizing P bs with
  | nil =>
    cases bs with
    | nil => exact .nil
    | cons _ _ => simp [matchFields?] at h
  | cons a as ih =>
    cases bs with
    | nil => simp [matchFields?] at h
    | cons b bs =>
      simp only [matchFields?, bind, Option.bind_eq_some_iff, keepIf_eq_some, beq_iff_eq] at h
      obtain ⟨_, ⟨name, rfl⟩, _, -, h⟩ := h
      exact .cons ⟨name, trivial⟩ (ih h)

theorem like_of_matchOrders? {as bs : List (Order Expr)} (h : matchOrders? P as bs = some P') :
    List.Forall₂ (fun o o' => o.direction = o'.direction ∧ True) as bs := by
  induction as generalizing P bs with
  | nil =>
    cases bs with
    | nil => exact .nil
    | cons _ _ => simp [matchOrders?] at h
  | cons a as ih =>
    cases bs with
    | nil => simp [matchOrders?] at h
    | cons b bs =>
      simp only [matchOrders?, bind, Option.bind_eq_some_iff, keepIf_eq_some, beq_iff_eq] at h
      obtain ⟨_, ⟨direction, rfl⟩, _, -, h⟩ := h
      exact .cons ⟨direction, trivial⟩ (ih h)

theorem like_of_matchColumns? {as bs : List (ColumnDecl Expr)} (h : matchColumns? P as bs = some P') :
    List.Forall₂ (fun d d' => d.name = d'.name ∧ True) as bs := by
  induction as generalizing P bs with
  | nil =>
    cases bs with
    | nil => exact .nil
    | cons _ _ => simp [matchColumns?] at h
  | cons a as ih =>
    cases bs with
    | nil => simp [matchColumns?] at h
    | cons b bs =>
      simp only [matchColumns?, bind, Option.bind_eq_some_iff, keepIf_eq_some, beq_iff_eq] at h
      obtain ⟨_, ⟨name, rfl⟩, _, -, h⟩ := h
      exact .cons ⟨name, trivial⟩ (ih h)

theorem like_of_matchSelect? {s s' : Select Expr} (h : matchSelect? P s s' = some P') : s.Like s' := by
  cases s
  cases s'
  simp only [matchSelect?, bind, Option.bind_eq_some_iff, keepIf_eq_some, Bool.and_eq_true,
    beq_iff_eq] at h
  obtain ⟨_, source, _, filter, _, orders, _, groups, _, skip, _, take, _, ⟨flags, -⟩, _, columns, -⟩ := h
  exact {
    columns := like_of_matchColumns? columns
    source := like_of_matchOption? source
    filter := like_of_matchOption? filter
    orderBy := like_of_matchOrders? orders
    groupBy := like_of_matchExprs? groups
    distinct := flags.1
    skip := like_of_matchOption? skip
    take := like_of_matchOption? take
    reversed := flags.2 }

/-- Expressions that are compared as they stand. -/
theorem Expr.match?_rigid {e e' : Expr} (rigid : e.Rigid) : e.match? P e' = keepIf (e == e') P := by
  cases e <;> first | exact rigid.elim | rfl

theorem Part.Kin.of_like {e e' : Expr} (like : e.Like e') :
    Kin (fun _ _ => True) (fun _ _ => True) (.expr e) (.expr e') :=
  .expr (.refl (fun _ => trivial) (fun _ => trivial) e) like

/-- What compares equal is of one kind. -/
theorem Expr.like_of_same {e e' : Expr} (same : e.same e' = true) (loose : ¬ e.Rigid) : e.Like e' := by
  have exact : Part.Exact (.expr e') := by
    cases e' with
    | const _ | operator _ | command _ =>
      cases e <;> first | exact absurd trivial loose | simp [Expr.same] at same
    | _ => trivial
  exact (Expr.shaped_of_same exact same).imp (fun _ _ _ _ => trivial) (fun _ _ _ _ => trivial)
    fun _ _ _ _ => trivial

/-- What passes the comparison is of one kind, unless it is compared as it stands. -/
theorem Expr.kin_of_match? {e e' : Expr} (h : e.match? P e' = some P') (loose : ¬ e.Rigid) :
    Part.Kin (fun _ _ => True) (fun _ _ => True) (.expr e) (.expr e') := by
  unfold Expr.match? at h
  split at h
  -- One case for each kind of node, in the order of the comparison.
  · obtain ⟨name, -⟩ := keepIf_eq_some.mp h
    exact .expr (.table (beq_iff_eq.mp name) trivial) (.table _)
  · obtain ⟨test, -⟩ := keepIf_eq_some.mp h
    have name := (Bool.and_eq_true_iff.mp test).1
    exact .expr (.column (beq_iff_eq.mp name) trivial) (.column _)
  · exact .of_like (.select trivial)
  · simp only [bind, Option.bind_eq_some_iff, keepIf_eq_some, beq_iff_eq] at h
    obtain ⟨_, ⟨rfl, rfl⟩, _, -, _, -, on⟩ := h
    exact .of_like (.join _ trivial trivial (like_of_matchOption? on))
  · simp only [bind, Option.bind_eq_some_iff, keepIf_eq_some, beq_iff_eq] at h
    obtain ⟨_, ⟨rfl, rfl⟩, -⟩ := h
    exact .expr (.setOp _ _ _ trivial) (.setOp _ _ trivial trivial)
  · simp only [bind, Option.bind_eq_some_iff, keepIf_eq_some, beq_iff_eq] at h
    obtain ⟨_, ⟨rfl, rfl⟩, -⟩ := h
    exact .of_like (.binary _ trivial trivial)
  · simp only [bind, Option.bind_eq_some_iff, keepIf_eq_some, beq_iff_eq] at h
    obtain ⟨_, ⟨rfl, rfl⟩, -⟩ := h
    exact .of_like (.unary _ trivial)
  · exact .of_like (.cond trivial trivial trivial)
  · simp only [bind, Option.bind_eq_some_iff, keepIf_eq_some, beq_iff_eq] at h
    obtain ⟨_, ⟨rfl, rfl⟩, -⟩ := h
    exact .of_like (.member _ trivial)
  · simp only [bind, Option.bind_eq_some_iff, keepIf_eq_some, beq_iff_eq] at h
    obtain ⟨_, ⟨rfl, rfl⟩, args⟩ := h
    exact .of_like (.call _ (like_of_matchExprs? args))
  · simp only [bind, Option.bind_eq_some_iff, keepIf_eq_some, beq_iff_eq] at h
    obtain ⟨_, ⟨rfl, rfl⟩, fields⟩ := h
    exact .of_like (.construct _ (like_of_matchFields? fields))
  · simp only [bind, Option.bind_eq_some_iff, keepIf_eq_some, Bool.and_eq_true, beq_iff_eq] at h
    obtain ⟨_, ⟨⟨rfl, rfl⟩, rfl⟩, argument⟩ := h
    exact .of_like (.aggregate _ _ (like_of_matchOption? argument))
  · exact .expr (.groupAggregate _ _ _ _ trivial) (.groupAggregate _ _ trivial trivial)
  · exact .of_like (.scalar trivial)
  · exact .of_like (.existsIn trivial)
  · exact .of_like (.inSelect trivial trivial)
  · simp only [bind, Option.bind_eq_some_iff] at h
    obtain ⟨_, -, values⟩ := h
    exact .of_like (.inValues trivial (like_of_matchExprs? values))
  · exact .of_like (.isNull trivial)
  · exact .of_like (.between trivial trivial trivial)
  · exact .of_like (.rowNumber (like_of_matchOrders? h))
  · exact .of_like (.projection trivial)
  · simp only [bind, Option.bind_eq_some_iff] at h
    obtain ⟨_, outer, _, -, inner⟩ := h
    exact .of_like (.clientJoin trivial (like_of_matchExprs? outer) (like_of_matchExprs? inner))
  · simp only [bind, Option.bind_eq_some_iff, keepIf_eq_some, beq_iff_eq] at h
    obtain ⟨_, ⟨rfl, rfl⟩, -⟩ := h
    exact .of_like (.entity _ trivial)
  · exact .of_like (.outerJoined trivial trivial)
  · exact .of_like (.grouping trivial trivial)
  · exact .of_like (like_of_same (keepIf_eq_some.mp h).1 loose)

theorem Part.kin_of_match? {p p' : Part} (h : p.match? P p' = some P')
    (loose : ∀ e, p = .expr e → ¬ e.Rigid) :
    p.Kin (fun _ _ => True) (fun _ _ => True) p' := by
  cases p with
  | expr e =>
    cases p' <;> simp only [match?, reduceCtorEq] at h
    exact Expr.kin_of_match? h (loose e rfl)
  | select s =>
    cases p' <;> simp only [match?, reduceCtorEq] at h
    exact .select trivial (like_of_matchSelect? h)
  | projection p =>
    cases p' with
    | projection p' =>
      obtain ⟨s, e, pick⟩ := p
      obtain ⟨s', e', pick'⟩ := p'
      simp only [match?, matchProjection?, bind, Option.bind_eq_some_iff, keepIf_eq_some, beq_iff_eq] at h
      obtain ⟨_, ⟨same, -⟩, -⟩ := h
      exact .projection same
    | _ => simp only [match?, reduceCtorEq] at h

end Kinds

/-- A constant without floats, or any other node. -/
def Part.Floatless : Part → Prop
  | .expr (.const v) => v.Exact
  | _ => True

namespace Partners

variable {P P' P'' F : Partners} {ds ds' es es' : List Alias} {a b : Alias}

theorem mem_of_lookup (h : P.lookup a = some b) : (a, b) ∈ P := by
  obtain ⟨before, after, rfl, -⟩ := List.lookup_eq_some_iff.mp h
  simp

theorem mem_or_eq_of_agree (h : P.agree a b = true) : (a, b) ∈ P ∨ a = b := by
  rw [agree] at h
  split at h
  · rename_i partner found
    rw [beq_iff_eq] at h
    exact .inl (h ▸ mem_of_lookup found)
  · exact .inr (beq_iff_eq.mp h)

theorem forall₂_of_agreeAll (lengths : ds.length = ds'.length) (h : P.agreeAll ds ds' = true) :
    List.Forall₂ (fun a b => P.agree a b = true) ds ds' := by
  rw [agreeAll, List.all_eq_true] at h
  exact List.forall₂_iff_zip.mpr ⟨lengths, fun hab => h _ hab⟩

def Grown (P P' : Partners) (ds ds' : List Alias) : Prop :=
  ∃ added, P' = added ++ P ∧ (added.map (·.1)).Subperm ds ∧ (added.map (·.2)).Subperm ds'

theorem Grown.refl (P : Partners) (ds ds' : List Alias) : P.Grown P ds ds' :=
  ⟨[], rfl, List.nil_subperm, List.nil_subperm⟩

theorem Grown.trans (h : P.Grown P' ds ds') (h' : P'.Grown P'' es es') :
    P.Grown P'' (ds ++ es) (ds' ++ es') := by
  obtain ⟨added, rfl, left, right⟩ := h
  obtain ⟨added', rfl, left', right'⟩ := h'
  refine ⟨added' ++ added, by simp, ?_, ?_⟩
  · rw [List.map_append]
    exact (left'.append left).trans List.perm_append_comm.subperm
  · rw [List.map_append]
    exact (right'.append right).trans List.perm_append_comm.subperm

theorem Grown.perm (h : P.Grown P' ds ds') (left : ds.Perm es) (right : ds'.Perm es') :
    P.Grown P' es es' := by
  obtain ⟨added, rfl, hl, hr⟩ := h
  exact ⟨added, rfl, hl.trans left.subperm, hr.trans right.subperm⟩

theorem Grown.zip (P : Partners) (lengths : ds.length = ds'.length) :
    P.Grown (ds.zip ds' ++ P) ds ds' := by
  refine ⟨ds.zip ds', rfl, ?_, ?_⟩
  · rw [List.map_fst_zip (Nat.le_of_eq lengths)]
  · rw [List.map_snd_zip (Nat.le_of_eq lengths.symm)]

theorem Grown.subset (h : P.Grown P' ds ds') : P ⊆ P' := by
  obtain ⟨added, rfl, -⟩ := h
  exact List.subset_append_right _ _

end Partners

structure Part.Compared (P P' : Partners) (p p' : Part) : Prop where
  grown : P.Grown P' p.declared p'.declared
  paired : ∀ F : Partners, P' ⊆ F →
    p.Paired (fun a b => (a, b) ∈ F) (fun a b => (a, b) ∈ F ∨ a = b) Expr.ValuelessBoth p'

section Compared

variable {P P' : Partners} {p p' : Part}

theorem compared_of_matchParts? {ps ps' : List Part} (h : matchParts? P ps ps' = some P')
    (step : ∀ q ∈ ps, ∀ {P P' : Partners} {q' : Part}, q.match? P q' = some P' → q.Compared P P' q') :
    P.Grown P' (ps.flatMap Part.declared) (ps'.flatMap Part.declared) ∧
      ∀ q q', (q, q') ∈ ps.zip ps' → ∀ F : Partners, P' ⊆ F →
        q.Paired (fun a b => (a, b) ∈ F) (fun a b => (a, b) ∈ F ∨ a = b) Expr.ValuelessBoth q' := by
  induction ps generalizing P ps' with
  | nil =>
    cases ps' with
    | nil =>
      cases h
      exact ⟨.refl _ _ _, by simp⟩
    | cons _ _ => simp [matchParts?] at h
  | cons p ps ih =>
    cases ps' with
    | nil => simp [matchParts?] at h
    | cons p' ps' =>
      obtain ⟨P₁, head, rest⟩ := Option.bind_eq_some_iff.mp h
      have first := step p (by simp) head
      obtain ⟨grown, paired⟩ := ih rest fun q hq => step q (by simp [hq])
      refine ⟨first.grown.trans grown, fun q q' hq F sub => ?_⟩
      rcases List.mem_cons.mp hq with same | hq
      · cases same
        exact first.paired F (List.Subset.trans grown.subset sub)
      · exact paired q q' hq F sub

/-- Nodes that compare equal as they stand. -/
theorem compared_of_rigid {e e' : Expr} (rigid : e.Rigid) (floatless : Part.Floatless (.expr e))
    (h : e.match? P e' = some P') : (Part.expr e).Compared P P' (.expr e') := by
  rw [Expr.match?_rigid rigid] at h
  obtain ⟨same, rfl⟩ := keepIf_eq_some.mp h
  have aggregates : (Part.expr e).aggregates = (Part.expr e').aggregates := Part.aggregates_of_same same
  refine ⟨.refl _ _ _, fun F _ => ?_⟩
  cases e with
  | const v =>
    cases e' <;> simp only [BEq.beq, Expr.same, Bool.false_eq_true] at same
    rename_i v'
    cases (show v.Exact from floatless).eq_of_same same
    exact .node (.expr (.nameless trivial) (.const v)) rfl (by simp [Part.parts])
  | param n =>
    cases e' <;> simp only [BEq.beq, Expr.same, Bool.false_eq_true] at same
    cases of_decide_eq_true same
    exact .node (.expr (.nameless trivial) (.param n)) rfl (by simp [Part.parts])
  | lambda _ | operator _ | command _ =>
    cases e' <;> simp only [BEq.beq, Expr.same, Bool.false_eq_true] at same
    exact .given ⟨trivial, trivial, aggregates⟩
  | _ => exact rigid.elim

/-- What passes a comparison is the same tree under the names that the comparison paired. -/
theorem compared_of_match? {P P' : Partners} {p p' : Part} (floatless : p.Every Part.Floatless)
    (h : p.match? P p' = some P') : p.Compared P P' p' := by
  by_cases rigid : ∃ e, p = .expr e ∧ e.Rigid
  · obtain ⟨e, rfl, rigid⟩ := rigid
    cases p' <;> simp only [Part.match?, reduceCtorEq] at h
    exact compared_of_rigid rigid floatless.here h
  have loose : ∀ e, p = .expr e → ¬ e.Rigid := fun e he hr => rigid ⟨e, he, hr⟩
  have kin := Part.kin_of_match? h loose
  rw [Part.match?_eq kin loose, Option.bind_eq_some_iff] at h
  obtain ⟨_, test, h⟩ := h
  obtain ⟨agree, rfl⟩ := keepIf_eq_some.mp test
  obtain ⟨P₁, parts, rfl⟩ := Option.map_eq_some_iff.mp h
  obtain ⟨grown, paired⟩ := compared_of_matchParts? parts fun q hq _ _ _ hm =>
    compared_of_match? (floatless.part hq) hm
  have own := Partners.Grown.zip P₁ kin.binds.length_eq
  refine ⟨?_, fun F sub => ?_⟩
  · rw [Part.declared_eq, Part.declared_eq]
    exact (grown.trans own).perm List.perm_append_comm List.perm_append_comm
  · have binds : List.Forall₂ (fun a b => (a, b) ∈ F) p.binds p'.binds :=
      List.forall₂_iff_zip.mpr ⟨kin.binds.length_eq, fun hab => sub (List.mem_append_left _ hab)⟩
    have reads := (Partners.forall₂_of_agreeAll kin.reads.length_eq agree).imp fun a b hab =>
      (Partners.mem_or_eq_of_agree hab).imp (fun mem => sub (own.subset (grown.subset mem))) id
    exact .node (kin.of_names binds reads) (length_of_matchParts? parts) fun q q' hq =>
      paired q q' hq F (List.Subset.trans own.subset sub)
termination_by p.weight
decreasing_by exact Part.weight_lt hq

end Compared

end ObjectQuery
