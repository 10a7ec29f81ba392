import Mathlib.Data.List.Forall2
import Mathlib.Logic.Relation
import ObjectQuery.Proofs.Traversal
import ObjectQuery.Tree.Basic

/-!
Nodes of the same shape. A walk that rebuilds every node over what it makes of the parts leads from a
node to one of the same kind, with the parts related one by one. The state that a walk threads may
grow on the way; what holds of a part when the walk leaves it holds when the walk ends.
-/

namespace ObjectQuery

inductive Expr.Shaped (Q : Expr → Expr → Prop) (QS : Select Expr → Select Expr → Prop)
    (QP : Projection Expr → Projection Expr → Prop) : Expr → Expr → Prop
  | const (v : Value) : Shaped Q QS QP (.const v) (.const v)
  | param (p : Param) : Shaped Q QS QP (.param p) (.param p)
  | operator (op : Operator Expr) : Shaped Q QS QP (.operator op) (.operator op)
  | table (t : Table) : Shaped Q QS QP (.table t) (.table t)
  | column (c : Column) : Shaped Q QS QP (.column c) (.column c)
  | member {a a' : Expr} (name : String) : Q a a' → Shaped Q QS QP (.member a name) (.member a' name)
  | binary {a a' b b' : Expr} (op : BinaryOp) : Q a a' → Q b b' →
    Shaped Q QS QP (.binary op a b) (.binary op a' b')
  | unary {a a' : Expr} (op : UnaryOp) : Q a a' → Shaped Q QS QP (.unary op a) (.unary op a')
  | cond {a a' b b' c c' : Expr} : Q a a' → Q b b' → Q c c' →
    Shaped Q QS QP (.cond a b c) (.cond a' b' c')
  | call {args args' : List Expr} (function : String) : List.Forall₂ Q args args' →
    Shaped Q QS QP (.call function args) (.call function args')
  | construct {fields fields' : List (Field Expr)} (typeName : Option String) :
    List.Forall₂ (fun f f' => f.name = f'.name ∧ Q f.expr f'.expr) fields fields' →
    Shaped Q QS QP (.construct typeName fields) (.construct typeName fields')
  | lambda {a a' : Expr} (params : List Param) : Q a a' →
    Shaped Q QS QP (.lambda ⟨params, a⟩) (.lambda ⟨params, a'⟩)
  | select {s s' : Select Expr} : QS s s' → Shaped Q QS QP (.select s) (.select s')
  | join {a a' b b' : Expr} {on on' : Option Expr} (kind : JoinKind) : Q a a' → Q b b' →
    Option.Rel Q on on' → Shaped Q QS QP (.join kind a b on) (.join kind a' b' on')
  | setOp {s s' t t' : Select Expr} (rel : Alias) (kind : SetKind) : QS s s' → QS t t' →
    Shaped Q QS QP (.setOp rel kind s t) (.setOp rel kind s' t')
  | aggregate {argument argument' : Option Expr} (kind : AggregateKind) (distinct : Bool) :
    Option.Rel Q argument argument' →
    Shaped Q QS QP (.aggregate kind argument distinct) (.aggregate kind argument' distinct)
  | groupAggregate {a a' : Expr} {s s' : Select Expr} (correlation : Nat) (owner : Alias) :
    Q a a' → QS s s' →
    Shaped Q QS QP (.groupAggregate correlation owner a s) (.groupAggregate correlation owner a' s')
  | scalar {s s' : Select Expr} : QS s s' → Shaped Q QS QP (.scalar s) (.scalar s')
  | existsIn {s s' : Select Expr} : QS s s' → Shaped Q QS QP (.existsIn s) (.existsIn s')
  | inSelect {a a' : Expr} {s s' : Select Expr} : Q a a' → QS s s' →
    Shaped Q QS QP (.inSelect a s) (.inSelect a' s')
  | inValues {a a' : Expr} {values values' : List Expr} : Q a a' → List.Forall₂ Q values values' →
    Shaped Q QS QP (.inValues a values) (.inValues a' values')
  | isNull {a a' : Expr} : Q a a' → Shaped Q QS QP (.isNull a) (.isNull a')
  | between {a a' b b' c c' : Expr} : Q a a' → Q b b' → Q c c' →
    Shaped Q QS QP (.between a b c) (.between a' b' c')
  | rowNumber {orders orders' : List (Order Expr)} :
    List.Forall₂ (fun o o' => o.direction = o'.direction ∧ Q o.expr o'.expr) orders orders' →
    Shaped Q QS QP (.rowNumber orders) (.rowNumber orders')
  | projection {p p' : Projection Expr} : QP p p' → Shaped Q QS QP (.projection p) (.projection p')
  | clientJoin {p p' : Projection Expr} {outer outer' inner inner' : List Expr} : QP p p' →
    List.Forall₂ Q outer outer' → List.Forall₂ Q inner inner' →
    Shaped Q QS QP (.clientJoin p outer inner) (.clientJoin p' outer' inner')
  | entity {a a' : Expr} (name : String) : Q a a' → Shaped Q QS QP (.entity name a) (.entity name a')
  | outerJoined {a a' b b' : Expr} : Q a a' → Q b b' →
    Shaped Q QS QP (.outerJoined a b) (.outerJoined a' b')
  | grouping {a a' b b' : Expr} : Q a a' → Q b b' →
    Shaped Q QS QP (.grouping a b) (.grouping a' b')
  | command {c c' : Command Expr} : List.Forall₂ Q c.exprs c'.exprs →
    Shaped Q QS QP (.command c) (.command c')

structure Select.Shaped (Q : Expr → Expr → Prop) (s s' : Select Expr) : Prop where
  rel : s.rel = s'.rel
  columns : List.Forall₂ (fun d d' => d.name = d'.name ∧ d.type = d'.type ∧ Q d.expr d'.expr)
    s.columns s'.columns
  source : Option.Rel Q s.source s'.source
  filter : Option.Rel Q s.filter s'.filter
  orderBy : List.Forall₂ (fun o o' => o.direction = o'.direction ∧ Q o.expr o'.expr)
    s.orderBy s'.orderBy
  groupBy : List.Forall₂ Q s.groupBy s'.groupBy
  distinct : s.distinct = s'.distinct
  skip : Option.Rel Q s.skip s'.skip
  take : Option.Rel Q s.take s'.take
  reversed : s.reversed = s'.reversed

structure Select.AkinClauses (Q : Expr → Expr → Prop) (s s' : Select Expr) : Prop where
  columns : List.Forall₂ (fun d d' => d.name = d'.name ∧ Q d.expr d'.expr) s.columns s'.columns
  filter : Option.Rel Q s.filter s'.filter
  orderBy : List.Forall₂ (fun o o' => o.direction = o'.direction ∧ Q o.expr o'.expr)
    s.orderBy s'.orderBy
  groupBy : List.Forall₂ Q s.groupBy s'.groupBy
  distinct : s.distinct = s'.distinct
  skip : Option.Rel Q s.skip s'.skip
  take : Option.Rel Q s.take s'.take
  reversed : s.reversed = s'.reversed

structure Select.Akin (Q : Expr → Expr → Prop) (s s' : Select Expr) : Prop
    extends s.AkinClauses Q s' where
  source : Option.Rel Q s.source s'.source

structure Projection.Shaped (Q : Expr → Expr → Prop) (QS : Select Expr → Select Expr → Prop)
    (p p' : Projection Expr) : Prop where
  select : QS p.select p'.select
  projector : Q p.projector p'.projector
  pick : p.pick = p'.pick

section Related

variable {Q Q' : Expr → Expr → Prop} {QS QS' : Select Expr → Select Expr → Prop}
  {QP QP' : Projection Expr → Projection Expr → Prop}

theorem forall₂_imp_mem {α β : Type} {R R' : α → β → Prop} {as : List α} {bs : List β}
    (h : List.Forall₂ R as bs) (sub : ∀ a ∈ as, ∀ b, R a b → R' a b) : List.Forall₂ R' as bs := by
  induction h with
  | nil => exact .nil
  | cons hab _ ih => exact .cons (sub _ (by simp) _ hab) (ih fun a ha => sub a (by simp [ha]))

theorem forall₂_trans {α β γ : Type} {R : α → β → Prop} {S : β → γ → Prop} {T : α → γ → Prop}
    (trans : ∀ a b c, R a b → S b c → T a c) {as : List α} {bs : List β} {cs : List γ}
    (h : List.Forall₂ R as bs) (h' : List.Forall₂ S bs cs) : List.Forall₂ T as cs := by
  induction h generalizing cs with
  | nil =>
    cases h'
    exact .nil
  | cons hab _ ih =>
    cases h' with
    | cons hbc rest => exact .cons (trans _ _ _ hab hbc) (ih rest)

theorem optionRel_imp_mem {α β : Type} {R R' : α → β → Prop} {a : Option α} {b : Option β}
    (h : Option.Rel R a b) (sub : ∀ x ∈ a, ∀ y, R x y → R' x y) : Option.Rel R' a b := by
  cases h with
  | none => exact .none
  | some h => exact .some (sub _ rfl _ h)

theorem exists_of_forall₂_right {α β : Type} {R : α → β → Prop} {as : List α} {bs : List β}
    (h : List.Forall₂ R as bs) : ∀ b ∈ bs, ∃ a ∈ as, R a b := by
  induction h with
  | nil => simp
  | cons hab _ ih =>
    intro b hb
    rcases List.mem_cons.mp hb with rfl | hb
    · exact ⟨_, by simp, hab⟩
    · obtain ⟨a, ha, h⟩ := ih b hb
      exact ⟨a, by simp [ha], h⟩

theorem forall₂_refl_mem {α : Type} {R : α → α → Prop} {as : List α} (h : ∀ a ∈ as, R a a) :
    List.Forall₂ R as as := List.forall₂_same.mpr h

theorem optionRel_refl_mem {α : Type} {R : α → α → Prop} {a : Option α} (h : ∀ x ∈ a, R x x) :
    Option.Rel R a a := by
  cases a with
  | none => exact .none
  | some a => exact .some (h a rfl)

theorem flip_optionRel {α β : Type} {R : α → β → Prop} {a : Option α} {b : Option β}
    (h : Option.Rel R a b) : Option.Rel (flip R) b a := by
  cases h with
  | none => exact .none
  | some h => exact .some h

theorem comp_optionRel {α β γ : Type} {R : α → β → Prop} {R' : β → γ → Prop} {a : Option α}
    {b : Option β} {c : Option γ} (h : Option.Rel R a b) (h' : Option.Rel R' b c) :
    Option.Rel (Relation.Comp R R') a c := by
  cases h with
  | none =>
    cases h'
    exact .none
  | some h =>
    cases h' with
    | some h' => exact .some ⟨_, h, h'⟩

theorem comp_forall₂ {α β γ : Type} {R : α → β → Prop} {R' : β → γ → Prop} {as : List α}
    {bs : List β} {cs : List γ} (h : List.Forall₂ R as bs) (h' : List.Forall₂ R' bs cs) :
    List.Forall₂ (Relation.Comp R R') as cs := by
  induction h generalizing cs with
  | nil =>
    cases h'
    exact .nil
  | cons hab _ ih =>
    cases h' with
    | cons hbc h' => exact .cons ⟨_, hab, hbc⟩ (ih h')

theorem Expr.Shaped.refl (e : Expr) : e.Shaped Eq Eq Eq e := by
  cases e <;> constructor <;> first
    | rfl
    | exact forall₂_refl_mem fun _ _ => rfl
    | exact forall₂_refl_mem fun _ _ => ⟨rfl, rfl⟩
    | exact optionRel_refl_mem fun _ _ => rfl

theorem Select.Shaped.refl (s : Select Expr) : s.Shaped Eq s where
  rel := rfl
  columns := forall₂_refl_mem fun _ _ => ⟨rfl, rfl, rfl⟩
  source := optionRel_refl_mem fun _ _ => rfl
  filter := optionRel_refl_mem fun _ _ => rfl
  orderBy := forall₂_refl_mem fun _ _ => ⟨rfl, rfl⟩
  groupBy := forall₂_refl_mem fun _ _ => rfl
  distinct := rfl
  skip := optionRel_refl_mem fun _ _ => rfl
  take := optionRel_refl_mem fun _ _ => rfl
  reversed := rfl

/-- It matters only how the parts are related. -/
theorem Expr.Shaped.imp {e e' : Expr} (h : e.Shaped Q QS QP e')
    (hQ : ∀ c c', Part.expr c ∈ (Part.expr e).parts → Q c c' → Q' c c')
    (hQS : ∀ s s', Part.select s ∈ (Part.expr e).parts → QS s s' → QS' s s')
    (hQP : ∀ p p', Part.projection p ∈ (Part.expr e).parts → QP p p' → QP' p p') :
    e.Shaped Q' QS' QP' e' := by
  cases h with
  | const v => exact .const v
  | param p => exact .param p
  | operator op => exact .operator op
  | table t => exact .table t
  | column c => exact .column c
  | member n ha => exact .member n (hQ _ _ (by simp [Part.parts]) ha)
  | binary op ha hb =>
    exact .binary op (hQ _ _ (by simp [Part.parts]) ha) (hQ _ _ (by simp [Part.parts]) hb)
  | unary op ha => exact .unary op (hQ _ _ (by simp [Part.parts]) ha)
  | cond ha hb hc =>
    exact .cond (hQ _ _ (by simp [Part.parts]) ha) (hQ _ _ (by simp [Part.parts]) hb)
      (hQ _ _ (by simp [Part.parts]) hc)
  | call f h => exact .call f (forall₂_imp_mem h fun a ha b => hQ a b (by simp [Part.parts, ha]))
  | construct t h =>
    exact .construct t (forall₂_imp_mem h fun f hf f' h =>
      ⟨h.1, hQ _ _ (Expr.field_mem hf) h.2⟩)
  | lambda ps ha => exact .lambda ps (hQ _ _ (by simp [Part.parts]) ha)
  | select hs => exact .select (hQS _ _ (by simp [Part.parts]) hs)
  | join k ha hb hon =>
    exact .join k (hQ _ _ (by simp [Part.parts]) ha) (hQ _ _ (by simp [Part.parts]) hb)
      (optionRel_imp_mem hon fun e he e' => hQ e e' (by simp_all [Part.parts]))
  | setOp rel k hs ht =>
    exact .setOp rel k (hQS _ _ (by simp [Part.parts]) hs) (hQS _ _ (by simp [Part.parts]) ht)
  | aggregate k d h =>
    exact .aggregate k d (optionRel_imp_mem h fun e he e' => hQ e e' (by simp_all [Part.parts]))
  | groupAggregate n owner ha hs =>
    exact .groupAggregate n owner (hQ _ _ (by simp [Part.parts]) ha)
      (hQS _ _ (by simp [Part.parts]) hs)
  | scalar hs => exact .scalar (hQS _ _ (by simp [Part.parts]) hs)
  | existsIn hs => exact .existsIn (hQS _ _ (by simp [Part.parts]) hs)
  | inSelect ha hs =>
    exact .inSelect (hQ _ _ (by simp [Part.parts]) ha) (hQS _ _ (by simp [Part.parts]) hs)
  | inValues ha hv =>
    exact .inValues (hQ _ _ (by simp [Part.parts]) ha)
      (forall₂_imp_mem hv fun v hv v' => hQ v v' (by simp [Part.parts, hv]))
  | isNull ha => exact .isNull (hQ _ _ (by simp [Part.parts]) ha)
  | between ha hb hc =>
    exact .between (hQ _ _ (by simp [Part.parts]) ha) (hQ _ _ (by simp [Part.parts]) hb)
      (hQ _ _ (by simp [Part.parts]) hc)
  | rowNumber h =>
    exact .rowNumber (forall₂_imp_mem h fun o ho o' h =>
      ⟨h.1, hQ _ _ (by simpa [Part.parts] using ⟨o, ho, rfl⟩) h.2⟩)
  | projection hp => exact .projection (hQP _ _ (by simp [Part.parts]) hp)
  | clientJoin hp ho hi =>
    exact .clientJoin (hQP _ _ (by simp [Part.parts]) hp)
      (forall₂_imp_mem ho fun k hk k' => hQ k k' (by simp [Part.parts, hk]))
      (forall₂_imp_mem hi fun k hk k' => hQ k k' (by simp [Part.parts, hk]))
  | entity n ha => exact .entity n (hQ _ _ (by simp [Part.parts]) ha)
  | outerJoined ha hb =>
    exact .outerJoined (hQ _ _ (by simp [Part.parts]) ha) (hQ _ _ (by simp [Part.parts]) hb)
  | grouping ha hb =>
    exact .grouping (hQ _ _ (by simp [Part.parts]) ha) (hQ _ _ (by simp [Part.parts]) hb)
  | command h =>
    exact .command (forall₂_imp_mem h fun e he e' => hQ e e' (by simp [Part.parts, he]))

theorem Select.Shaped.imp {s s' : Select Expr} (h : s.Shaped Q s')
    (hQ : ∀ c c', Part.expr c ∈ (Part.select s).parts → Q c c' → Q' c c') : s.Shaped Q' s' where
  rel := h.rel
  columns := forall₂_imp_mem h.columns fun _ hd _ h => ⟨h.1, h.2.1, hQ _ _ (columns_mem hd) h.2.2⟩
  source := optionRel_imp_mem h.source fun _ he _ => hQ _ _ (source_mem he)
  filter := optionRel_imp_mem h.filter fun _ he _ => hQ _ _ (filter_mem he)
  orderBy := forall₂_imp_mem h.orderBy fun _ ho _ h => ⟨h.1, hQ _ _ (orderBy_mem ho) h.2⟩
  groupBy := forall₂_imp_mem h.groupBy fun _ he _ => hQ _ _ (groupBy_mem he)
  distinct := h.distinct
  skip := optionRel_imp_mem h.skip fun _ he _ => hQ _ _ (skip_mem he)
  take := optionRel_imp_mem h.take fun _ he _ => hQ _ _ (take_mem he)
  reversed := h.reversed

theorem Expr.Shaped.flip {e e' : Expr} (h : e.Shaped Q QS QP e') :
    e'.Shaped (flip Q) (flip QS) (flip QP) e := by
  cases h with
  | construct t h => exact .construct t (h.flip.imp fun _ _ h => ⟨h.1.symm, h.2⟩)
  | rowNumber h => exact .rowNumber (h.flip.imp fun _ _ h => ⟨h.1.symm, h.2⟩)
  | _ =>
    constructor <;> first
      | assumption
      | exact List.Forall₂.flip (by assumption)
      | exact flip_optionRel (by assumption)

theorem Select.Shaped.flip {s s' : Select Expr} (h : s.Shaped Q s') : s'.Shaped (flip Q) s where
  rel := h.rel.symm
  columns := h.columns.flip.imp fun _ _ h => ⟨h.1.symm, h.2.1.symm, h.2.2⟩
  source := flip_optionRel h.source
  filter := flip_optionRel h.filter
  orderBy := h.orderBy.flip.imp fun _ _ h => ⟨h.1.symm, h.2⟩
  groupBy := h.groupBy.flip
  distinct := h.distinct.symm
  skip := flip_optionRel h.skip
  take := flip_optionRel h.take
  reversed := h.reversed.symm

theorem Select.Shaped.akin {s s' : Select Expr} (h : s.Shaped Q s') : s.Akin Q s' where
  columns := h.columns.imp fun _ _ h => ⟨h.1, h.2.2⟩
  source := h.source
  filter := h.filter
  orderBy := h.orderBy
  groupBy := h.groupBy
  distinct := h.distinct
  skip := h.skip
  take := h.take
  reversed := h.reversed

theorem Select.Akin.flip {s s' : Select Expr} (h : s.Akin Q s') : s'.Akin (flip Q) s where
  columns := h.columns.flip.imp fun _ _ h => ⟨h.1.symm, h.2⟩
  source := flip_optionRel h.source
  filter := flip_optionRel h.filter
  orderBy := h.orderBy.flip.imp fun _ _ h => ⟨h.1.symm, h.2⟩
  groupBy := h.groupBy.flip
  distinct := h.distinct.symm
  skip := flip_optionRel h.skip
  take := flip_optionRel h.take
  reversed := h.reversed.symm

theorem Expr.Shaped.imp_right {e e' : Expr} (h : e.Shaped Q QS QP e')
    (hQ : ∀ c c', Part.expr c' ∈ (Part.expr e').parts → Q c c' → Q' c c')
    (hQS : ∀ s s', Part.select s' ∈ (Part.expr e').parts → QS s s' → QS' s s')
    (hQP : ∀ p p', Part.projection p' ∈ (Part.expr e').parts → QP p p' → QP' p p') :
    e.Shaped Q' QS' QP' e' :=
  (h.flip.imp (fun c' c => hQ c c') (fun s' s => hQS s s') fun p' p => hQP p p').flip

theorem Select.Shaped.imp_right {s s' : Select Expr} (h : s.Shaped Q s')
    (hQ : ∀ c c', Part.expr c' ∈ (Part.select s').parts → Q c c' → Q' c c') : s.Shaped Q' s' :=
  (h.flip.imp fun c' c => hQ c c').flip

/-- One relation after another. -/
theorem Expr.Shaped.comp {e e' e'' : Expr} (h : e.Shaped Q QS QP e') (h' : e'.Shaped Q' QS' QP' e'') :
    e.Shaped (Relation.Comp Q Q') (Relation.Comp QS QS') (Relation.Comp QP QP') e'' := by
  cases h with
  | construct t h =>
    cases h' with
    | construct _ h' =>
      exact .construct t ((comp_forall₂ h h').imp fun _ _ ⟨_, h, h'⟩ =>
        ⟨h.1.trans h'.1, _, h.2, h'.2⟩)
  | rowNumber h =>
    cases h' with
    | rowNumber h' =>
      exact .rowNumber ((comp_forall₂ h h').imp fun _ _ ⟨_, h, h'⟩ =>
        ⟨h.1.trans h'.1, _, h.2, h'.2⟩)
  | _ =>
    cases h'
    constructor <;> first
      | exact ⟨_, by assumption, by assumption⟩
      | exact comp_forall₂ (by assumption) (by assumption)
      | exact comp_optionRel (by assumption) (by assumption)

theorem Select.Shaped.comp {s s' s'' : Select Expr} (h : s.Shaped Q s') (h' : s'.Shaped Q' s'') :
    s.Shaped (Relation.Comp Q Q') s'' where
  rel := h.rel.trans h'.rel
  columns := (comp_forall₂ h.columns h'.columns).imp fun _ _ ⟨_, h, h'⟩ =>
    ⟨h.1.trans h'.1, h.2.1.trans h'.2.1, _, h.2.2, h'.2.2⟩
  source := comp_optionRel h.source h'.source
  filter := comp_optionRel h.filter h'.filter
  orderBy := (comp_forall₂ h.orderBy h'.orderBy).imp fun _ _ ⟨_, h, h'⟩ =>
    ⟨h.1.trans h'.1, _, h.2, h'.2⟩
  groupBy := comp_forall₂ h.groupBy h'.groupBy
  distinct := h.distinct.trans h'.distinct
  skip := comp_optionRel h.skip h'.skip
  take := comp_optionRel h.take h'.take
  reversed := h.reversed.trans h'.reversed

theorem Projection.Shaped.comp {p p' p'' : Projection Expr} (h : p.Shaped Q QS p')
    (h' : p'.Shaped Q' QS' p'') : p.Shaped (Relation.Comp Q Q') (Relation.Comp QS QS') p'' :=
  ⟨⟨_, h.select, h'.select⟩, ⟨_, h.projector, h'.projector⟩, h.pick.trans h'.pick⟩

theorem eq_of_optionRel {α : Type} {a b : Option α} (h : Option.Rel Eq a b) : a = b := by
  cases h with
  | none => rfl
  | some h => rw [h]

theorem eq_of_forall₂ {α : Type} {R : α → α → Prop} {as bs : List α} (h : List.Forall₂ R as bs)
    (same : ∀ a b, R a b → a = b) : as = bs :=
  List.forall₂_eq_eq_eq ▸ h.imp same

/-- Selects over the same parts are the same. -/
theorem Select.Shaped.eq {s s' : Select Expr} (h : s.Shaped Eq s') : s = s' := by
  obtain ⟨rel, columns, source, filter, orderBy, groupBy, distinct, skip, take, reversed⟩ := h
  cases s
  cases s'
  simp only [Select.mk.injEq]
  refine ⟨rel, eq_of_forall₂ columns ?_, eq_of_optionRel source, eq_of_optionRel filter,
    eq_of_forall₂ orderBy ?_, eq_of_forall₂ groupBy fun _ _ h => h, distinct, eq_of_optionRel skip,
    eq_of_optionRel take, reversed⟩
  · rintro ⟨_, _, _⟩ ⟨_, _, _⟩ ⟨hn, ht, he⟩
    cases hn
    cases ht
    cases he
    rfl
  · rintro ⟨_, _⟩ ⟨_, _⟩ ⟨hd, he⟩
    cases hd
    cases he
    rfl

/-- Projections over the same parts are the same. -/
theorem Projection.Shaped.eq {p p' : Projection Expr} (h : p.Shaped Eq Eq p') : p = p' := by
  obtain ⟨hs, he, hp⟩ := h
  cases p
  cases p'
  simp_all

/-- Nodes over the same parts are the same, commands apart. -/
theorem Expr.Shaped.eq {e e' : Expr} (h : e.Shaped Eq Eq Eq e') (noCommand : ∀ c, e ≠ .command c) :
    e = e' := by
  cases h with
  | command _ => exact absurd rfl (noCommand _)
  | call f h => rw [eq_of_forall₂ h fun _ _ h => h]
  | construct t h =>
    rw [eq_of_forall₂ h]
    rintro ⟨_, _⟩ ⟨_, _⟩ ⟨hn, he⟩
    cases hn
    cases he
    rfl
  | rowNumber h =>
    rw [eq_of_forall₂ h]
    rintro ⟨_, _⟩ ⟨_, _⟩ ⟨hd, he⟩
    cases hd
    cases he
    rfl
  | join k ha hb hon => rw [ha, hb, eq_of_optionRel hon]
  | aggregate k d h => rw [eq_of_optionRel h]
  | inValues ha h => rw [ha, eq_of_forall₂ h fun _ _ h => h]
  | clientJoin hp ho hi =>
    rw [hp, eq_of_forall₂ ho fun _ _ h => h, eq_of_forall₂ hi fun _ _ h => h]
  | _ => simp_all

end Related

structure Sequence (m : Type → Type) [Monad m] (X W : Type) where
  does : {α : Type} → List X → (W → α → Prop) → m α → Prop
  pure : ∀ {α : Type} {R : W → α → Prop} {a : α}, (∀ w, R w a) → does [] R (Pure.pure a)
  bind : ∀ {α β : Type} {xs ys : List X} {R : W → α → Prop} {R' : W → β → Prop} {act : m α}
    {next : α → m β}, does xs R act → (∀ a, does ys (fun w b => R w a → R' w b) (next a)) →
    does (xs ++ ys) R' (act >>= next)

namespace Sequence

variable {m : Type → Type} [Monad m] {X W α β : Type} (S : Sequence m X W)

/-- The last action of a sequence. -/
theorem finish {xs : List X} {R : W → α → Prop} {R' : W → β → Prop} {act : m α} {f : α → β}
    (h : S.does xs R act) (hf : ∀ a w, R w a → R' w (f a)) :
    S.does xs R' (act >>= fun a => Pure.pure (f a)) := by
  have ended := S.bind h fun a => S.pure (R := fun w b => R w a → R' w b) (hf a)
  rwa [List.append_nil] at ended

variable [LawfulMonad m]

theorem mapM {V : α → X} {R : W → α → β → Prop} {l : List α} {act : α → m β}
    (h : ∀ a ∈ l, S.does [V a] (fun w b => R w a b) (act a)) :
    S.does (l.map V) (fun w bs => List.Forall₂ (R w) l bs) (l.mapM act) := by
  induction l with
  | nil => exact S.pure fun _ => .nil
  | cons a rest ih =>
    rw [List.mapM_cons]
    exact S.bind (h a (by simp)) fun b => S.finish (ih fun b hb => h b (by simp [hb])) fun bs w hbs hb =>
      .cons hb hbs

theorem attach {V : α → X} {R : W → α → β → Prop} {l : List α} {act : (a : α) → a ∈ l → m β}
    (h : ∀ a ha, S.does [V a] (fun w b => R w a b) (act a ha)) :
    S.does (l.map V) (fun w bs => List.Forall₂ (R w) l bs)
      (l.attach.mapM fun x => act x.1 x.2) := by
  have all := S.mapM (l := l.attach) (V := fun x => V x.1) (R := fun w x b => R w x.1 b)
    fun x _ => h x.1 x.2
  have same : l.attach.map (fun x => V x.1) = l.map V := by simp
  rw [same] at all
  have shown := S.finish (f := id) all fun bs w hbs => by
    rwa [← List.forall₂_map_left_iff, List.attach_map_subtype_val] at hbs
  simpa using shown

theorem attachOption {V : α → X} {R : W → α → β → Prop} {o : Option α}
    {act : (a : α) → a ∈ o → m β} (h : ∀ a ha, S.does [V a] (fun w b => R w a b) (act a ha)) :
    S.does (o.toList.map V) (fun w b => Option.Rel (R w) o b)
      (o.attach.mapM fun x => act x.1 x.2) := by
  cases o with
  | none => exact S.pure fun _ => .none
  | some a =>
    rw [Option.attach_some, Option.mapM_some, map_eq_pure_bind]
    exact S.finish (h a rfl) fun b w hb => .some hb

theorem option {V : α → X} {R : W → α → β → Prop} {o : Option α} {act : α → m β}
    (h : ∀ a ∈ o, S.does [V a] (fun w b => R w a b) (act a)) :
    S.does (o.toList.map V) (fun w b => Option.Rel (R w) o b) (o.mapM act) := by
  rw [← optionMapM_attach]
  exact S.attachOption h

section Traversal

variable {Q : W → Expr → Expr → Prop} {QS : W → Select Expr → Select Expr → Prop}
  {QP : W → Projection Expr → Projection Expr → Prop} {V : Part → X}

theorem command : (c : Command Expr) →
    {onExpr : (e : Expr) → e ∈ c.exprs → m Expr} →
    (∀ e he, S.does [V (.expr e)] (fun w e' => Q w e e') (onExpr e he)) →
    S.does (c.exprs.map fun e => V (.expr e))
      (fun w c' => List.Forall₂ (Q w) c.exprs c'.exprs) (c.traverse onExpr)
  | .insert table assignments, onExpr, h => by
    have all := S.attach (V := fun a : Assignment Expr => V (.expr a.expr))
      (R := fun w (a a' : Assignment Expr) => Q w a.expr a'.expr) fun a ha =>
      S.finish (f := fun e => { a with expr := e }) (h a.expr (List.mem_map_of_mem ha)) fun e w he => he
    have parts : (Command.insert table assignments).exprs.map (fun e => V (.expr e))
        = assignments.map fun a => V (.expr a.expr) := by
      simp [Command.exprs]
    rw [parts]
    refine S.finish all fun as w has => ?_
    exact List.forall₂_map_left_iff.mpr (List.forall₂_map_right_iff.mpr has)
  | .update table filter assignments, onExpr, h => by
    have all := S.attach (V := fun a : Assignment Expr => V (.expr a.expr))
      (R := fun w (a a' : Assignment Expr) => Q w a.expr a'.expr) fun a ha =>
      S.finish (f := fun e => { a with expr := e })
        (h a.expr (List.mem_cons_of_mem _ (List.mem_map_of_mem ha))) fun e w he => he
    have parts : (Command.update table filter assignments).exprs.map (fun e => V (.expr e))
        = [V (.expr filter)] ++ assignments.map fun a => V (.expr a.expr) := by
      simp [Command.exprs]
    rw [parts]
    refine S.bind (h filter List.mem_cons_self) fun e => S.finish all fun as w has he => ?_
    exact .cons he (List.forall₂_map_left_iff.mpr (List.forall₂_map_right_iff.mpr has))
  | .delete table filter, onExpr, h => by
    refine S.finish (S.attachOption fun e he => h e (by simp_all [Command.exprs])) fun e w he => ?_
    cases he with
    | none => exact .nil
    | some he => exact .cons he .nil
  | .conditional check onTrue none, onExpr, h => by
    have parts : (Command.conditional check onTrue none).exprs.map (fun e => V (.expr e))
        = [V (.expr check)] ++ onTrue.exprs.map fun e => V (.expr e) := by
      simp [Command.exprs]
    rw [parts]
    exact S.bind (h check List.mem_cons_self) fun e =>
      S.finish (command onTrue fun e he => h e (by simp_all [Command.exprs])) fun c w hc he =>
        .cons he (by simpa [Command.exprs] using hc)
  | .conditional check onTrue (some onFalse), onExpr, h => by
    have parts : (Command.conditional check onTrue (some onFalse)).exprs.map (fun e => V (.expr e))
        = [V (.expr check)] ++ (onTrue.exprs.map (fun e => V (.expr e))
          ++ onFalse.exprs.map fun e => V (.expr e)) := by
      simp [Command.exprs]
    rw [parts]
    exact S.bind (h check List.mem_cons_self) fun e =>
      S.bind (command onTrue fun e he => h e (by simp_all [Command.exprs])) fun c =>
        S.finish (command onFalse fun e he => h e (by simp_all [Command.exprs])) fun d w hd hc he =>
          .cons he (List.rel_append hc hd)
  | .batch item items operation, onExpr, h => by
    have parts : (Command.batch item items operation).exprs.map (fun e => V (.expr e))
        = items.map (fun e => V (.expr e)) ++ operation.exprs.map fun e => V (.expr e) := by
      simp [Command.exprs]
    rw [parts]
    exact S.bind (S.attach fun e he => h e (List.mem_append_left _ he)) fun es =>
      S.finish (command operation fun e he => h e (List.mem_append_right _ he)) fun c w hc hes =>
        List.rel_append hes hc

/-- A walk that rebuilds a node leads to one of the same shape. -/
theorem expr (e : Expr)
    {onExpr : (c : Expr) → Part.expr c ∈ (Part.expr e).parts → m Expr}
    {onSelect : (s : Select Expr) → Part.select s ∈ (Part.expr e).parts → m (Select Expr)}
    {onProjection :
      (p : Projection Expr) → Part.projection p ∈ (Part.expr e).parts → m (Projection Expr)}
    (hf : ∀ c hc, S.does [V (.expr c)] (fun w c' => Q w c c') (onExpr c hc))
    (hg : ∀ q hq, S.does [V (.select q)] (fun w q' => QS w q q') (onSelect q hq))
    (hk : ∀ p hp, S.does [V (.projection p)] (fun w p' => QP w p p') (onProjection p hp)) :
    S.does ((Part.expr e).parts.map V) (fun w e' => Expr.Shaped (Q w) (QS w) (QP w) e e')
      (e.traverse onExpr onSelect onProjection) := by
  cases e with
  | const v => exact S.pure fun _ => .const v
  | param p => exact S.pure fun _ => .param p
  | operator op => exact S.pure fun _ => .operator op
  | table t => exact S.pure fun _ => .table t
  | column c => exact S.pure fun _ => .column c
  | member a name => exact S.finish (hf _ _) fun _ _ h => .member name h
  | unary op a => exact S.finish (hf _ _) fun _ _ h => .unary op h
  | lambda l => exact S.finish (hf _ _) fun _ _ h => .lambda l.params h
  | isNull a => exact S.finish (hf _ _) fun _ _ h => .isNull h
  | entity name a => exact S.finish (hf _ _) fun _ _ h => .entity name h
  | binary op a b =>
    exact S.bind (hf _ _) fun _ => S.finish (hf _ _) fun _ _ hb ha => .binary op ha hb
  | outerJoined a b =>
    exact S.bind (hf _ _) fun _ => S.finish (hf _ _) fun _ _ hb ha => .outerJoined ha hb
  | grouping a b =>
    exact S.bind (hf _ _) fun _ => S.finish (hf _ _) fun _ _ hb ha => .grouping ha hb
  | cond a b c =>
    exact S.bind (hf _ _) fun _ => S.bind (hf _ _) fun _ => S.finish (hf _ _) fun _ _ hc hb ha =>
      .cond ha hb hc
  | between a b c =>
    exact S.bind (hf _ _) fun _ => S.bind (hf _ _) fun _ => S.finish (hf _ _) fun _ _ hc hb ha =>
      .between ha hb hc
  | call function args =>
    rw [Part.parts, List.map_map]
    exact S.finish (S.attach fun a ha => hf a (by simp [Part.parts, ha])) fun _ _ h =>
      .call function h
  | construct typeName fields =>
    have all := S.attach (V := fun f : Field Expr => V (.expr f.expr))
      (R := fun w (f f' : Field Expr) => f.name = f'.name ∧ Q w f.expr f'.expr)
      fun f hf' => S.finish (f := fun e => { f with expr := e }) (hf f.expr (Expr.field_mem hf'))
        fun _ _ h => ⟨rfl, h⟩
    rw [Part.parts, List.map_map]
    exact S.finish all fun _ _ h => .construct typeName h
  | select s => exact S.finish (hg _ _) fun _ _ h => .select h
  | scalar s => exact S.finish (hg _ _) fun _ _ h => .scalar h
  | existsIn s => exact S.finish (hg _ _) fun _ _ h => .existsIn h
  | setOp rel kind s t =>
    exact S.bind (hg _ _) fun _ => S.finish (hg _ _) fun _ _ ht hs => .setOp rel kind hs ht
  | groupAggregate correlation owner a s =>
    exact S.bind (hf _ _) fun _ => S.finish (hg _ _) fun _ _ hs ha =>
      .groupAggregate correlation owner ha hs
  | inSelect a s =>
    exact S.bind (hf _ _) fun _ => S.finish (hg _ _) fun _ _ hs ha => .inSelect ha hs
  | join kind a b on =>
    have parts : (Part.expr (.join kind a b on)).parts.map V
        = [V (.expr a)] ++ ([V (.expr b)] ++ on.toList.map fun e => V (.expr e)) := by
      simp [Part.parts]
    rw [parts]
    exact S.bind (hf _ _) fun _ => S.bind (hf _ _) fun _ =>
      S.finish (S.attachOption fun e he => hf e (by simp_all [Part.parts])) fun _ _ hon hb ha =>
        .join kind ha hb hon
  | aggregate kind argument distinct =>
    rw [Part.parts, List.map_map]
    exact S.finish (S.attachOption fun e he => hf e (by simp_all [Part.parts])) fun _ _ h =>
      .aggregate kind distinct h
  | inValues a values =>
    have parts : (Part.expr (.inValues a values)).parts.map V
        = [V (.expr a)] ++ values.map fun e => V (.expr e) := by
      simp [Part.parts]
    rw [parts]
    exact S.bind (hf _ _) fun _ =>
      S.finish (S.attach fun e he => hf e (by simp [Part.parts, he])) fun _ _ hv ha => .inValues ha hv
  | rowNumber orders =>
    have all := S.attach (V := fun o : Order Expr => V (.expr o.expr))
      (R := fun w (o o' : Order Expr) => o.direction = o'.direction ∧ Q w o.expr o'.expr)
      fun o ho => S.finish (f := fun e => { o with expr := e })
        (hf o.expr (by simpa [Part.parts] using ⟨o, ho, rfl⟩)) fun _ _ h => ⟨rfl, h⟩
    rw [Part.parts, List.map_map]
    exact S.finish all fun _ _ h => .rowNumber h
  | projection p => exact S.finish (hk _ _) fun _ _ h => .projection h
  | clientJoin p outer inner =>
    have parts : (Part.expr (.clientJoin p outer inner)).parts.map V
        = outer.map (fun e => V (.expr e)) ++ ([V (.projection p)]
          ++ inner.map fun e => V (.expr e)) := by
      simp [Part.parts, Function.comp_def]
    rw [parts]
    exact S.bind (S.attach fun e he => hf e (by simp [Part.parts, he])) fun _ =>
      S.bind (hk _ _) fun _ =>
        S.finish (S.attach fun e he => hf e (by simp [Part.parts, he])) fun _ _ hi hp ho =>
          .clientJoin hp ho hi
  | command c =>
    rw [Part.parts, List.map_map]
    exact S.finish (S.command c fun e he => hf e (by simp [Part.parts, he])) fun _ _ h => .command h

theorem select (q : Select Expr)
    {onExpr : (e : Expr) → Part.expr e ∈ (Part.select q).parts → m Expr}
    (hf : ∀ e he, S.does [V (.expr e)] (fun w e' => Q w e e') (onExpr e he)) :
    S.does ((Part.select q).parts.map V) (fun w q' => Select.Shaped (Q w) q q')
      (q.traverse onExpr) := by
  have orders := S.attach (V := fun o : Order Expr => V (.expr o.expr))
    (R := fun w (o o' : Order Expr) => o.direction = o'.direction ∧ Q w o.expr o'.expr)
    fun o ho => S.finish (f := fun e => { o with expr := e }) (hf o.expr (Select.orderBy_mem ho))
      fun _ _ h => ⟨rfl, h⟩
  have columns := S.attach (V := fun d : ColumnDecl Expr => V (.expr d.expr))
    (R := fun w (d d' : ColumnDecl Expr) => d.name = d'.name ∧ d.type = d'.type
      ∧ Q w d.expr d'.expr)
    fun d hd => S.finish (f := fun e => { d with expr := e }) (hf d.expr (Select.columns_mem hd))
      fun _ _ h => ⟨rfl, rfl, h⟩
  have parts : (Part.select q).parts.map V
      = q.source.toList.map (fun e => V (.expr e)) ++ (q.filter.toList.map (fun e => V (.expr e))
        ++ (q.orderBy.map (fun o => V (.expr o.expr)) ++ (q.groupBy.map (fun e => V (.expr e))
        ++ (q.skip.toList.map (fun e => V (.expr e)) ++ (q.take.toList.map (fun e => V (.expr e))
        ++ q.columns.map fun d => V (.expr d.expr)))))) := by
    simp [Part.parts, Select.exprs, Function.comp_def]
  rw [parts]
  exact S.bind (S.attachOption fun e he => hf e (Select.source_mem he)) fun _ =>
    S.bind (S.attachOption fun e he => hf e (Select.filter_mem he)) fun _ =>
    S.bind orders fun _ => S.bind (S.attach fun e he => hf e (Select.groupBy_mem he)) fun _ =>
    S.bind (S.attachOption fun e he => hf e (Select.skip_mem he)) fun _ =>
    S.bind (S.attachOption fun e he => hf e (Select.take_mem he)) fun _ =>
    S.finish columns fun _ _ hc ht hs hg ho hf hsrc =>
      ⟨rfl, hc, hsrc, hf, ho, hg, rfl, hs, ht, rfl⟩

omit [LawfulMonad m] in
theorem projection (p : Projection Expr)
    {onExpr : (e : Expr) → Part.expr e ∈ (Part.projection p).parts → m Expr}
    {onSelect : (s : Select Expr) → Part.select s ∈ (Part.projection p).parts → m (Select Expr)}
    (hf : ∀ c hc, S.does [V (.expr c)] (fun w c' => Q w c c') (onExpr c hc))
    (hg : ∀ q hq, S.does [V (.select q)] (fun w q' => QS w q q') (onSelect q hq)) :
    S.does ((Part.projection p).parts.map V) (fun w p' => Projection.Shaped (Q w) (QS w) p p')
      (p.traverse onExpr onSelect) :=
  S.bind (hg _ _) fun _ => S.finish (hf _ _) fun _ _ he hs => ⟨hs, he, rfl⟩

end Traversal

end Sequence

structure Growth (σ : Type) where
  le : σ → σ → Prop
  refl : ∀ s, le s s
  trans : ∀ {s s' s''}, le s s' → le s' s'' → le s s''

/-- What holds of the result of an action wherever it starts, and later on. -/
def Yields.Makes {m : Type → Type} [Monad m] {σ α : Type} (Y : Yields m σ) (G : Growth σ)
    (R : σ → α → Prop) (act : m α) : Prop :=
  ∀ s, ∃ a s', Y.gives s act a s' ∧ G.le s s' ∧ ∀ s'', G.le s' s'' → R s'' a

section Makes

variable {m : Type → Type} [Monad m] {σ α β : Type} {Y : Yields m σ} {G : Growth σ}

theorem Yields.Makes.mono {R R' : σ → α → Prop} {act : m α} (h : Y.Makes G R act)
    (sub : ∀ s a, R s a → R' s a) : Y.Makes G R' act := by
  intro s
  obtain ⟨a, s', run, le, later⟩ := h s
  exact ⟨a, s', run, le, fun s'' le' => sub s'' a (later s'' le')⟩

def Yields.making (Y : Yields m σ) (G : Growth σ) : Sequence m Part σ where
  does _ R act := Y.Makes G R act
  pure h s := ⟨_, s, Y.pure _ _, G.refl s, fun s' _ => h s'⟩
  bind := by
    intro α β _ _ R R' act next h hn s
    obtain ⟨a, s₁, run, le, later⟩ := h s
    obtain ⟨b, s₂, run', le', later'⟩ := hn a s₁
    exact ⟨b, s₂, Y.bind run run', G.trans le le',
      fun s₃ le₃ => later' s₃ le₃ (later s₃ (G.trans le' le₃))⟩

variable [LawfulMonad m] {Q : σ → Expr → Expr → Prop} {QS : σ → Select Expr → Select Expr → Prop}
  {QP : σ → Projection Expr → Projection Expr → Prop}

theorem Expr.traverse_makes (e : Expr)
    {onExpr : (c : Expr) → Part.expr c ∈ (Part.expr e).parts → m Expr}
    {onSelect : (s : Select Expr) → Part.select s ∈ (Part.expr e).parts → m (Select Expr)}
    {onProjection :
      (p : Projection Expr) → Part.projection p ∈ (Part.expr e).parts → m (Projection Expr)}
    (hf : ∀ c hc, Y.Makes G (fun s c' => Q s c c') (onExpr c hc))
    (hg : ∀ q hq, Y.Makes G (fun s q' => QS s q q') (onSelect q hq))
    (hk : ∀ p hp, Y.Makes G (fun s p' => QP s p p') (onProjection p hp)) :
    Y.Makes G (fun s e' => Expr.Shaped (Q s) (QS s) (QP s) e e')
      (e.traverse onExpr onSelect onProjection) :=
  (Y.making G).expr (V := id) e hf hg hk

theorem Select.traverse_makes (q : Select Expr)
    {onExpr : (e : Expr) → Part.expr e ∈ (Part.select q).parts → m Expr}
    (hf : ∀ e he, Y.Makes G (fun s e' => Q s e e') (onExpr e he)) :
    Y.Makes G (fun s q' => Select.Shaped (Q s) q q') (q.traverse onExpr) :=
  (Y.making G).select (V := id) q hf

omit [LawfulMonad m] in
theorem Projection.traverse_makes (p : Projection Expr)
    {onExpr : (e : Expr) → Part.expr e ∈ (Part.projection p).parts → m Expr}
    {onSelect : (s : Select Expr) → Part.select s ∈ (Part.projection p).parts → m (Select Expr)}
    (hf : ∀ c hc, Y.Makes G (fun s c' => Q s c c') (onExpr c hc))
    (hg : ∀ q hq, Y.Makes G (fun s q' => QS s q q') (onSelect q hq)) :
    Y.Makes G (fun s p' => Projection.Shaped (Q s) (QS s) p p') (p.traverse onExpr onSelect) :=
  (Y.making G).projection (V := id) p hf hg

end Makes

def Growth.still : Growth Unit := ⟨fun _ _ => True, fun _ => trivial, fun _ _ => trivial⟩

theorem Yields.makes_ofId {α : Type} {P : α → Prop} {act : Id α} :
    Yields.ofId.Makes Growth.still (fun _ => P) act ↔ P act := by
  refine ⟨fun h => ?_, fun h _ => ⟨act, (), rfl, trivial, fun _ _ => h⟩⟩
  obtain ⟨a, _, rfl, -, later⟩ := h ()
  exact later () trivial

/-- Replacing columns goes on to the parts of every other node. -/
theorem Expr.substitute_shaped (f : Column → Option Expr) {e : Expr} (h : ∀ c, e ≠ .column c) :
    e.Shaped (fun c c' => c.substitute f = c') (fun s s' => s.substitute f = s')
      (fun p p' => p.substitute f = p') (e.substitute f) := by
  rw [Expr.substitute.eq_2 f e h]
  exact Yields.makes_ofId.mp (Expr.traverse_makes (Y := Yields.ofId) (G := Growth.still) e
    (fun _ _ => Yields.makes_ofId.mpr rfl) (fun _ _ => Yields.makes_ofId.mpr rfl)
    fun _ _ => Yields.makes_ofId.mpr rfl)

theorem Select.substitute_shaped (f : Column → Option Expr) (s : Select Expr) :
    s.Shaped (fun c c' => c.substitute f = c') (s.substitute f) := by
  rw [Select.substitute]
  exact Yields.makes_ofId.mp (Select.traverse_makes (Y := Yields.ofId) (G := Growth.still) s
    fun _ _ => Yields.makes_ofId.mpr rfl)

theorem Projection.substitute_shaped (f : Column → Option Expr) (p : Projection Expr) :
    p.Shaped (fun c c' => c.substitute f = c') (fun s s' => s.substitute f = s')
      (p.substitute f) := by
  rw [Projection.substitute]
  exact Yields.makes_ofId.mp (Projection.traverse_makes (Y := Yields.ofId) (G := Growth.still) p
    (fun _ _ => Yields.makes_ofId.mpr rfl) fun _ _ => Yields.makes_ofId.mpr rfl)

def Part.substitute (f : Column → Option Expr) : Part → Part
  | .expr e => .expr (e.substitute f)
  | .select s => .select (s.substitute f)
  | .projection p => .projection (p.substitute f)

def supplies : Growth Supply := ⟨(·.next ≤ ·.next), fun _ => Nat.le_refl _, Nat.le_trans⟩

abbrev Mints {α : Type} (R : α → Prop) (act : Mint α) : Prop :=
  (Yields.ofState Supply).Makes supplies (fun _ => R) act

section Mints

variable {α β : Type} {R : α → Prop} {R' : β → Prop} {act : Mint α}

theorem mints_pure {a : α} (h : R a) : Mints R (pure a) :=
  ((Yields.ofState Supply).making supplies).pure fun _ => h

theorem mints_fresh : Mints (fun _ => True) Supply.fresh :=
  fun s => ⟨s.next, ⟨s.next + 1⟩, rfl, Nat.le_succ _, fun _ _ => trivial⟩

theorem mints_bind {next : α → Mint β} (h : Mints R act) (rest : ∀ a, R a → Mints R' (next a)) :
    Mints R' (act >>= next) := by
  intro s
  obtain ⟨a, s₁, run, le, later⟩ := h s
  obtain ⟨b, s₂, run', le', later'⟩ := rest a (later s₁ (supplies.refl s₁)) s₁
  exact ⟨b, s₂, (Yields.ofState Supply).bind run run', supplies.trans le le', later'⟩

end Mints

end ObjectQuery
