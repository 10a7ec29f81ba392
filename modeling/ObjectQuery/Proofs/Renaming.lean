import ObjectQuery.Proofs.Nodes
import ObjectQuery.Tree.Alike
import Mathlib.Data.List.Zip

/-!
Trees under other names. Two trees are paired when they have the same nodes, one by one, and the aliases
that a node declares or reads on one side are related to those on the other. What a tree says about its
names is read off in the order in which a comparison walks it: the parts of a node come before the alias
that the node declares.
-/

namespace ObjectQuery

namespace Part

def reads : Part → List Alias
  | .expr (.column c) => [c.rel]
  | .expr (.groupAggregate _ owner _ _) => [owner]
  | _ => []

def references (p : Part) : List Alias :=
  p.gather reads fun _ => true

theorem references_eq (p : Part) : p.references = p.reads ++ p.parts.flatMap references :=
  gather_eq _ p

theorem references_subset {p q : Part} (h : q ∈ p.parts) : q.references ⊆ p.references :=
  fun _ ha => mem_gather.mpr (.inr ⟨q, h, ha⟩)

theorem reads_subset (p : Part) : p.reads ⊆ p.references := by
  rw [references_eq]
  exact List.subset_append_left _ _

end Part

def Expr.Nameless : Expr → Prop
  | .table _ | .column _ | .setOp _ _ _ _ | .groupAggregate _ _ _ _ => False
  | _ => True

inductive Expr.Renamed (D R : Alias → Alias → Prop) : Expr → Expr → Prop
  | table {t t' : Table} : t.name = t'.name → D t.rel t'.rel → Renamed D R (.table t) (.table t')
  | column {c c' : Column} : c.name = c'.name → R c.rel c'.rel → Renamed D R (.column c) (.column c')
  | setOp {rel rel' : Alias} (kind : SetKind) (s t : Select Expr) : D rel rel' →
    Renamed D R (.setOp rel kind s t) (.setOp rel' kind s t)
  | groupAggregate {owner owner' : Alias} (correlation correlation' : Nat) (e : Expr)
    (s : Select Expr) : R owner owner' →
    Renamed D R (.groupAggregate correlation owner e s) (.groupAggregate correlation' owner' e s)
  | nameless {e : Expr} : e.Nameless → Renamed D R e e

abbrev Expr.Like (e e' : Expr) : Prop :=
  e.Shaped (fun _ _ => True) (fun _ _ => True) (fun _ _ => True) e'

abbrev Select.Like (s s' : Select Expr) : Prop := s.Akin (fun _ _ => True) s'

inductive Part.Kin (D R : Alias → Alias → Prop) : Part → Part → Prop
  | expr {e e₁ e' : Expr} : e.Renamed D R e₁ → e₁.Like e' → Kin D R (.expr e) (.expr e')
  | select {s s' : Select Expr} : D s.rel s'.rel → s.Like s' → Kin D R (.select s) (.select s')
  | projection {p p' : Projection Expr} : p.pick = p'.pick → Kin D R (.projection p) (.projection p')

theorem forall₂_imp_both {α β : Type} {R R' : α → β → Prop} {as : List α} {bs : List β}
    (h : List.Forall₂ R as bs) (sub : ∀ a ∈ as, ∀ b ∈ bs, R a b → R' a b) : List.Forall₂ R' as bs := by
  rw [List.forall₂_iff_zip] at h ⊢
  refine ⟨h.1, fun {a b} hab => ?_⟩
  have mem := List.of_mem_zip hab
  exact sub a mem.1 b mem.2 (h.2 hab)

section Nodes

variable {D D' R R' : Alias → Alias → Prop} {Q : Expr → Expr → Prop}
  {QS : Select Expr → Select Expr → Prop} {QP : Projection Expr → Projection Expr → Prop}

namespace Expr.Renamed

variable {e e₁ e' : Expr}

protected theorem refl (hD : ∀ a, D a a) (hR : ∀ a, R a a) (e : Expr) : e.Renamed D R e := by
  cases e with
  | table t => exact .table rfl (hD _)
  | column c => exact .column rfl (hR _)
  | setOp rel kind s t => exact .setOp kind s t (hD _)
  | groupAggregate n owner a s => exact .groupAggregate n n a s (hR _)
  | _ => exact .nameless trivial

theorem parts (h : e.Renamed D R e') : (Part.expr e).parts = (Part.expr e').parts := by
  cases h <;> rfl

theorem flip (h : e.Renamed D R e') : e'.Renamed (flip D) (flip R) e := by
  cases h with
  | table name hD => exact .table name.symm hD
  | column name hR => exact .column name.symm hR
  | setOp kind s t hD => exact .setOp kind s t hD
  | groupAggregate n n' a s hR => exact .groupAggregate n' n a s hR
  | nameless h => exact .nameless h

/-- Renaming a node and replacing its parts can be done in either order. -/
theorem comm (h : e.Renamed D R e₁) (shaped : e₁.Shaped Q QS QP e') :
    ∃ e₂, e.Shaped Q QS QP e₂ ∧ e₂.Renamed D R e' := by
  cases h with
  | @table t t' name hD =>
    cases shaped
    exact ⟨.table t, .table t, .table name hD⟩
  | @column c c' name hR =>
    cases shaped
    exact ⟨.column c, .column c, .column name hR⟩
  | @setOp rel rel' kind s t hD =>
    cases shaped with
    | @setOp _ s' _ t' _ _ hs ht => exact ⟨.setOp rel kind s' t', .setOp rel kind hs ht, .setOp kind s' t' hD⟩
  | @groupAggregate owner owner' n n' a s hR =>
    cases shaped with
    | @groupAggregate _ a' _ s' _ _ ha hs =>
      exact ⟨.groupAggregate n owner a' s', .groupAggregate n owner ha hs,
        .groupAggregate n n' a' s' hR⟩
  | nameless h =>
    refine ⟨e', shaped, .nameless ?_⟩
    cases shaped <;> trivial

end Expr.Renamed

namespace Part.Kin

variable {p p' : Part}

theorem flip (h : Kin D R p p') : Kin (flip D) (flip R) p' p := by
  cases h with
  | expr renamed like =>
    obtain ⟨e₂, like, renamed⟩ := renamed.comm like
    exact .expr renamed.flip like.flip
  | select hrel like => exact .select hrel like.flip
  | projection pick => exact .projection pick.symm

theorem binds (h : Kin D R p p') : List.Forall₂ D p.binds p'.binds := by
  cases h with
  | expr renamed like =>
    cases renamed with
    | table _ hD | setOp _ _ _ hD =>
      cases like
      exact .cons hD .nil
    | column _ _ | groupAggregate _ _ _ _ _ =>
      cases like
      exact .nil
    | nameless h => cases like <;> first | exact .nil | exact h.elim
  | select hrel _ => exact .cons hrel .nil
  | projection _ => exact .nil

theorem reads (h : Kin D R p p') : List.Forall₂ R p.reads p'.reads := by
  cases h with
  | expr renamed like =>
    cases renamed with
    | column _ hR | groupAggregate _ _ _ _ hR =>
      cases like
      exact .cons hR .nil
    | table _ _ | setOp _ _ _ _ =>
      cases like
      exact .nil
    | nameless h => cases like <;> first | exact .nil | exact h.elim
  | select _ _ | projection _ => exact .nil

/-- It matters only how the names are related. -/
theorem of_names (h : Kin D R p p') (binds : List.Forall₂ D' p.binds p'.binds)
    (reads : List.Forall₂ R' p.reads p'.reads) : Kin D' R' p p' := by
  cases h with
  | expr renamed like =>
    cases renamed with
    | table name _ =>
      cases like
      obtain _ | ⟨hD, _⟩ := binds
      exact .expr (.table name hD) (.table _)
    | setOp kind s t _ =>
      cases like
      obtain _ | ⟨hD, _⟩ := binds
      exact .expr (.setOp kind s t hD) (.setOp _ kind trivial trivial)
    | column name _ =>
      cases like
      obtain _ | ⟨hR, _⟩ := reads
      exact .expr (.column name hR) (.column _)
    | groupAggregate n n' a s _ =>
      cases like
      obtain _ | ⟨hR, _⟩ := reads
      exact .expr (.groupAggregate n n' a s hR) (.groupAggregate _ _ trivial trivial)
    | nameless nameless => exact .expr (.nameless nameless) like
  | select _ like =>
    obtain _ | ⟨hD, _⟩ := binds
    exact .select hD like
  | projection pick => exact .projection pick

theorem isAggregate (h : Kin D R p p') : p.isAggregate = p'.isAggregate := by
  cases h with
  | expr renamed like =>
    rw [← like.isAggregate]
    cases renamed <;> rfl
  | select _ _ | projection _ => rfl

theorem aggregatesApart (h : Kin D R p p') : p.aggregatesApart = p'.aggregatesApart := by
  cases h with
  | expr renamed like =>
    rw [← like.aggregatesApart]
    cases renamed <;> rfl
  | select _ _ | projection _ => rfl

end Part.Kin

end Nodes

section Lists

variable {α β : Type} {R S : α → β → Prop}

theorem forall₂_and {as : List α} {bs : List β} (h : List.Forall₂ R as bs) (h' : List.Forall₂ S as bs) :
    List.Forall₂ (fun a b => R a b ∧ S a b) as bs := by
  induction h with
  | nil => exact .nil
  | cons hab _ ih =>
    cases h' with
    | cons hab' h' => exact .cons ⟨hab, hab'⟩ (ih h')

theorem forall₂_of_append {as bs : List α} {as' bs' : List β} (lengths : as.length = as'.length)
    (h : List.Forall₂ R (as ++ bs) (as' ++ bs')) : List.Forall₂ R as as' ∧ List.Forall₂ R bs bs' := by
  have left := List.forall₂_take_append _ _ _ h
  have right := List.forall₂_drop_append _ _ _ h
  rw [← lengths, List.take_left] at left
  rw [← lengths, List.drop_left] at right
  exact ⟨left, right⟩

theorem optionRel_of_toList {a : Option α} {b : Option β} (h : List.Forall₂ R a.toList b.toList) :
    Option.Rel R a b := by
  cases a with
  | none =>
    cases b with
    | none => exact .none
    | some b => cases h
  | some a =>
    cases b with
    | none => cases h
    | some b =>
      cases h with
      | cons h _ => exact .some h

end Lists

section OfParts

variable {Q : Expr → Expr → Prop} {QS : Select Expr → Select Expr → Prop}
  {QP : Projection Expr → Projection Expr → Prop}

theorem Part.Matches.of_expr {e e' : Expr} (h : Part.Matches Q QS QP (.expr e) (.expr e')) : Q e e' := by
  cases h with
  | expr h => exact h

theorem Part.Matches.of_select {s s' : Select Expr}
    (h : Part.Matches Q QS QP (.select s) (.select s')) : QS s s' := by
  cases h with
  | select h => exact h

theorem Part.Matches.of_projection {p p' : Projection Expr}
    (h : Part.Matches Q QS QP (.projection p) (.projection p')) : QP p p' := by
  cases h with
  | projection h => exact h

theorem forall₂_of_matches {es es' : List Expr}
    (h : List.Forall₂ (Part.Matches Q QS QP) (es.map .expr) (es'.map .expr)) :
    List.Forall₂ Q es es' :=
  (List.forall₂_map_left_iff.mp (List.forall₂_map_right_iff.mp h)).imp fun _ _ h => h.of_expr

/-- Nodes of one kind are related by what relates their parts. -/
theorem Expr.Shaped.of_parts {e e' : Expr} (like : e.Like e')
    (parts : List.Forall₂ (Part.Matches Q QS QP) (Part.expr e).parts (Part.expr e').parts) :
    e.Shaped Q QS QP e' := by
  cases like with
  | const v => exact .const v
  | param p => exact .param p
  | operator op => exact .operator op
  | table t => exact .table t
  | column c => exact .column c
  | member name _ =>
    obtain _ | ⟨ha, _⟩ := parts
    exact .member name ha.of_expr
  | unary op _ =>
    obtain _ | ⟨ha, _⟩ := parts
    exact .unary op ha.of_expr
  | lambda params _ =>
    obtain _ | ⟨ha, _⟩ := parts
    exact .lambda params ha.of_expr
  | isNull _ =>
    obtain _ | ⟨ha, _⟩ := parts
    exact .isNull ha.of_expr
  | entity name _ =>
    obtain _ | ⟨ha, _⟩ := parts
    exact .entity name ha.of_expr
  | binary op _ _ =>
    obtain _ | ⟨ha, _ | ⟨hb, _⟩⟩ := parts
    exact .binary op ha.of_expr hb.of_expr
  | outerJoined _ _ =>
    obtain _ | ⟨ha, _ | ⟨hb, _⟩⟩ := parts
    exact .outerJoined ha.of_expr hb.of_expr
  | grouping _ _ =>
    obtain _ | ⟨ha, _ | ⟨hb, _⟩⟩ := parts
    exact .grouping ha.of_expr hb.of_expr
  | cond _ _ _ =>
    obtain _ | ⟨ha, _ | ⟨hb, _ | ⟨hc, _⟩⟩⟩ := parts
    exact .cond ha.of_expr hb.of_expr hc.of_expr
  | between _ _ _ =>
    obtain _ | ⟨ha, _ | ⟨hb, _ | ⟨hc, _⟩⟩⟩ := parts
    exact .between ha.of_expr hb.of_expr hc.of_expr
  | call function _ => exact .call function (forall₂_of_matches parts)
  | construct typeName hfields =>
    have exprs := List.forall₂_map_left_iff.mp (List.forall₂_map_right_iff.mp parts)
    exact .construct typeName ((forall₂_and hfields exprs).imp fun _ _ h => ⟨h.1.1, h.2.of_expr⟩)
  | select _ =>
    obtain _ | ⟨hs, _⟩ := parts
    exact .select hs.of_select
  | scalar _ =>
    obtain _ | ⟨hs, _⟩ := parts
    exact .scalar hs.of_select
  | existsIn _ =>
    obtain _ | ⟨hs, _⟩ := parts
    exact .existsIn hs.of_select
  | join kind _ _ _ =>
    obtain _ | ⟨ha, _ | ⟨hb, rest⟩⟩ := parts
    exact .join kind ha.of_expr hb.of_expr (optionRel_of_toList (forall₂_of_matches rest))
  | setOp rel kind _ _ =>
    obtain _ | ⟨hs, _ | ⟨ht, _⟩⟩ := parts
    exact .setOp rel kind hs.of_select ht.of_select
  | aggregate kind distinct _ =>
    exact .aggregate kind distinct (optionRel_of_toList (forall₂_of_matches parts))
  | groupAggregate correlation owner _ _ =>
    obtain _ | ⟨ha, _ | ⟨hs, _⟩⟩ := parts
    exact .groupAggregate correlation owner ha.of_expr hs.of_select
  | inSelect _ _ =>
    obtain _ | ⟨ha, _ | ⟨hs, _⟩⟩ := parts
    exact .inSelect ha.of_expr hs.of_select
  | inValues _ _ =>
    obtain _ | ⟨ha, rest⟩ := parts
    exact .inValues ha.of_expr (forall₂_of_matches rest)
  | rowNumber horders =>
    have exprs := List.forall₂_map_left_iff.mp (List.forall₂_map_right_iff.mp parts)
    exact .rowNumber ((forall₂_and horders exprs).imp fun _ _ h => ⟨h.1.1, h.2.of_expr⟩)
  | projection _ =>
    obtain _ | ⟨hp, _⟩ := parts
    exact .projection hp.of_projection
  | clientJoin _ houter _ =>
    obtain ⟨outer, rest⟩ := forall₂_of_append (by simpa using houter.length_eq) parts
    obtain _ | ⟨hp, inner⟩ := rest
    exact .clientJoin hp.of_projection (forall₂_of_matches outer) (forall₂_of_matches inner)
  | command _ => exact .command (forall₂_of_matches parts)

theorem length_toList {α β : Type} {R : α → β → Prop} {a : Option α} {b : Option β}
    (h : Option.Rel R a b) : a.toList.length = b.toList.length :=
  (forall₂_toList h).length_eq

/-- Selects of one kind are related by what relates their expressions. -/
theorem Select.Akin.of_exprs {s s' : Select Expr} (like : s.Like s')
    (exprs : List.Forall₂ Q s.exprs s'.exprs) : s.Akin Q s' := by
  simp only [Select.exprs, List.append_assoc] at exprs
  obtain ⟨source, exprs⟩ := forall₂_of_append (length_toList like.source) exprs
  obtain ⟨filter, exprs⟩ := forall₂_of_append (length_toList like.filter) exprs
  obtain ⟨orderBy, exprs⟩ := forall₂_of_append (by simpa using like.orderBy.length_eq) exprs
  obtain ⟨groupBy, exprs⟩ := forall₂_of_append like.groupBy.length_eq exprs
  obtain ⟨skip, exprs⟩ := forall₂_of_append (length_toList like.skip) exprs
  obtain ⟨take, columns⟩ := forall₂_of_append (length_toList like.take) exprs
  have orders := List.forall₂_map_left_iff.mp (List.forall₂_map_right_iff.mp orderBy)
  have columns := List.forall₂_map_left_iff.mp (List.forall₂_map_right_iff.mp columns)
  exact {
    columns := (forall₂_and like.columns columns).imp fun _ _ h => ⟨h.1.1, h.2⟩
    source := optionRel_of_toList source
    filter := optionRel_of_toList filter
    orderBy := (forall₂_and like.orderBy orders).imp fun _ _ h => ⟨h.1.1, h.2⟩
    groupBy := groupBy
    distinct := like.distinct
    skip := optionRel_of_toList skip
    take := optionRel_of_toList take
    reversed := like.reversed }

theorem Select.Akin.of_parts {s s' : Select Expr} (like : s.Like s')
    (parts : List.Forall₂ (Part.Matches Q QS QP) (Part.select s).parts (Part.select s').parts) :
    s.Akin Q s' :=
  .of_exprs like (forall₂_of_matches parts)

end OfParts

/-- The same tree, where the aliases that a node declares are related by `D` and those that it reads by
`R`. Expressions related by `V` are taken as they are. -/
inductive Part.Paired (D R : Alias → Alias → Prop) (V : Expr → Expr → Prop) : Part → Part → Prop
  | given {e e' : Expr} : V e e' → Paired D R V (.expr e) (.expr e')
  | node {p p' : Part} : Kin D R p p' → p.parts.length = p'.parts.length →
    (∀ q q', (q, q') ∈ p.parts.zip p'.parts → Paired D R V q q') → Paired D R V p p'

namespace Part.Paired

variable {D D' R R' : Alias → Alias → Prop} {V : Expr → Expr → Prop} {p p' : Part}

theorem mono (h : Paired D R V p p')
    (hD : ∀ a ∈ p.declared, ∀ b ∈ p'.declared, D a b → D' a b)
    (hR : ∀ a ∈ p.references, ∀ b ∈ p'.references, R a b → R' a b) : Paired D' R' V p p' := by
  induction h with
  | given h => exact .given h
  | @node p p' kin lengths _ ih =>
    have binds := forall₂_imp_both kin.binds fun a ha b hb =>
      hD a (binds_subset p ha) b (binds_subset p' hb)
    have reads := forall₂_imp_both kin.reads fun a ha b hb =>
      hR a (reads_subset p ha) b (reads_subset p' hb)
    refine .node (kin.of_names binds reads) lengths fun q q' hq => ?_
    · have left := (List.of_mem_zip hq).1
      have right := (List.of_mem_zip hq).2
      exact ih q q' hq
        (fun a ha b hb => hD a (declared_subset left ha) b (declared_subset right hb))
        fun a ha b hb => hR a (references_subset left ha) b (references_subset right hb)

/-- A tree is paired with itself. -/
protected theorem refl (hD : ∀ a, D a a) (hR : ∀ a, R a a) (p : Part) : Paired D R V p p := by
  have kin : p.Kin D R p := by
    cases p with
    | expr e =>
      exact .expr (.refl hD hR e) ((Expr.Shaped.refl e).imp (fun _ _ _ _ => trivial)
        (fun _ _ _ _ => trivial) fun _ _ _ _ => trivial)
    | select s => exact .select (hD _) ((Select.Shaped.refl s).imp fun _ _ _ _ => trivial).akin
    | projection p => exact .projection rfl
  refine .node kin rfl fun q q' hq => ?_
  have under : q ∈ p.parts := (List.of_mem_zip hq).1
  obtain rfl : q = q' := (List.forall₂_iff_zip.mp (List.forall₂_refl p.parts)).2 hq
  exact Paired.refl hD hR q
termination_by p.weight
decreasing_by exact weight_lt under

theorem weaken {V' : Expr → Expr → Prop} (h : Paired D R V p p') (sub : ∀ e e', V e e' → V' e e') :
    Paired D R V' p p' := by
  induction h with
  | given h => exact .given (sub _ _ h)
  | node kin lengths _ ih => exact .node kin lengths fun q q' hq => ih q q' hq

theorem flip (h : Paired D R V p p') (symm : ∀ e e', V e e' → V e' e) :
    Paired (flip D) (flip R) V p' p := by
  induction h with
  | given h => exact .given (symm _ _ h)
  | node kin lengths _ ih =>
    refine .node kin.flip lengths.symm fun q' q hq => ih q q' ?_
    have swapped := List.mem_map_of_mem (f := Prod.swap) hq
    rwa [List.zip_swap] at swapped

theorem aggregates (h : Paired D R V p p')
    (given : ∀ e e', V e e' → (Part.expr e).aggregates = (Part.expr e').aggregates) :
    p.aggregates = p'.aggregates := by
  induction h with
  | given h => exact given _ _ h
  | node kin lengths _ ih =>
    exact aggregates_congr kin.isAggregate kin.aggregatesApart
      (List.forall₂_iff_zip.mpr ⟨lengths, fun hq => ih _ _ hq⟩)

end Part.Paired

def Expr.Valueless : Expr → Prop
  | .lambda _ | .operator _ | .command _ => True
  | _ => False

structure Expr.ValuelessBoth (e e' : Expr) : Prop where
  left : e.Valueless
  right : e'.Valueless
  aggregates : (Part.expr e).aggregates = (Part.expr e').aggregates

theorem Expr.ValuelessBoth.symm {e e' : Expr} (h : e.ValuelessBoth e') : e'.ValuelessBoth e :=
  ⟨h.right, h.left, h.aggregates.symm⟩

end ObjectQuery
