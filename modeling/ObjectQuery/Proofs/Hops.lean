import ObjectQuery.Proofs.Navigations
import ObjectQuery.Proofs.TidyNavigation

/-!
Chains of associations. A run of the pass that follows associations takes the first hop of every chain:
what is left of a chain is pushed into what the hop leads to, and is not looked at again. So chains of one
hop are followed by one run, and longer ones by as many runs as they have hops.
-/

namespace ObjectQuery

variable {m : Mapping} {entity name : String} {e : Expr} {k n : Nat}

namespace Expr

/-- A chain of associations: a record of an entity, and the number of hops that lead on from it to
another entity. -/
inductive Chain (m : Mapping) : Nat → String → Expr → Prop
  | record {entity : String} {rel : Alias} {slots : List Slot} :
    (∀ s ∈ slots, m.isAssociation entity s.member = false) → Chain m 0 entity (.record entity rel slots)
  | hop {n : Nat} {entity : String} {e : Expr} {name : String} {a : Mapping.Association}
    {target : Mapping.Entity} : Chain m n entity e → m.association? entity name = some a →
    m.resolve a.target = .ok target → Chain m (n + 1) target.name (.member e name)

inductive Holds (m : Mapping) (n : Nat) (entity : String) : Expr → Prop
  | chain {e : Expr} : e.Chain m n entity → Holds m n entity e
  | outerJoined {test e : Expr} : Holds m n entity e → Holds m n entity (.outerJoined test e)
  | projection {s : Select Expr} {projector : Expr} {pick : Option Pick} : Holds m n entity projector →
    Holds m n entity (.projection ⟨s, projector, pick⟩)

def isEntity : Expr → Bool
  | .entity .. => true
  | _ => false

end Expr

namespace Part

/-- Whoever takes a member that may be an association takes it at the end of a chain, and an association
only after less than `n` hops. -/
def HopsWithin (m : Mapping) (n : Nat) : Part → Prop
  | .expr (.member e name) => (∀ entity, m.isAssociation entity name = false)
    ∨ ∃ k entity, e.Chain m k entity ∧ (m.isAssociation entity name = true → k < n)
  | _ => True

def Navigated (m : Mapping) : Part → Prop
  | .expr (.member (.entity entity _) name) => m.isAssociation entity name = false
  | _ => True

end Part

namespace Expr

/-- An object is the start of a chain. -/
theorem Chain.of_entity {inner : Expr} (h : (Expr.entity entity inner).Chain m k name) :
    k = 0 ∧ name = entity := by
  cases h
  exact ⟨rfl, rfl⟩

/-- Two chains are the same chain. -/
theorem Chain.unique {k' : Nat} {entity' : String} (h : e.Chain m k entity) (h' : e.Chain m k' entity') :
    k = k' ∧ entity = entity' := by
  induction h generalizing k' entity' with
  | record _ =>
    obtain ⟨rfl, rfl⟩ := Chain.of_entity h'
    exact ⟨rfl, rfl⟩
  | hop _ found resolved ih =>
    cases h' with
    | hop h' found' resolved' =>
      obtain ⟨rfl, rfl⟩ := ih h'
      obtain rfl := Option.some.inj (found.symm.trans found')
      obtain rfl := Except.ok.inj (resolved.symm.trans resolved')
      exact ⟨rfl, rfl⟩

/-- An association at the end of a chain is left as it is. -/
theorem Chain.bindMember (h : e.Chain m k entity) (association : m.isAssociation entity name = true) :
    e.bindMember name = .member e name := by
  cases h with
  | @record _ rel slots apart =>
    rcases bindMember_record_cases entity rel slots name with ⟨s, hs, rfl, -⟩ | left
    · rw [apart s hs] at association
      cases association
    · exact left
  | hop _ _ _ => rfl

theorem Holds.not_column (h : e.Holds m k entity) (c : Column) : e ≠ .column c := by
  rintro rfl
  cases h with
  | chain chain => cases chain

theorem Holds.not_entity (h : e.Holds m (k + 1) entity) : e.isEntity = false := by
  cases h with
  | chain chain =>
    cases chain
    rfl
  | outerJoined _ | projection _ => rfl

/-- What is pushed into a shape makes the chain in it longer. -/
theorem Holds.bindMember {a : Mapping.Association} {target : Mapping.Entity} (h : e.Holds m k entity)
    (found : m.association? entity name = some a) (resolved : m.resolve a.target = .ok target) :
    (e.bindMember name).Holds m (k + 1) target.name := by
  have association : m.isAssociation entity name = true := by simp [Mapping.isAssociation, found]
  induction h with
  | chain h =>
    rw [h.bindMember association]
    exact .chain (.hop h found resolved)
  | @outerJoined test e _ ih =>
    have bound : (Expr.outerJoined test e).bindMember name = .outerJoined test (e.bindMember name) := by
      rw [Expr.bindMember]
      split
      · rename_i c column
        exact absurd column (ih.not_column c)
      · rfl
    rw [bound]
    exact .outerJoined ih
  | projection _ ih =>
    rw [Expr.bindMember]
    exact .projection ih

end Expr

namespace Part

theorem HopsWithin.mono (le : k ≤ n) {p : Part} (h : p.HopsWithin m k) : p.HopsWithin m n := by
  unfold HopsWithin at h ⊢
  split
  · rcases h with plain | ⟨j, entity, chain, less⟩
    · exact .inl plain
    · exact .inr ⟨j, entity, chain, fun association => Nat.lt_of_lt_of_le (less association) le⟩
  · trivial

/-- Where no chain is left, every association is followed. -/
theorem HopsWithin.navigated {p : Part} (h : p.HopsWithin m 0) : p.Navigated m := by
  unfold Navigated
  split
  · rename_i entity inner name
    rcases h with plain | ⟨k, entity', chain, none⟩
    · exact plain entity
    · obtain ⟨-, rfl⟩ := chain.of_entity
      exact Bool.eq_false_iff.mpr fun association => absurd (none association) (Nat.not_lt_zero _)
  · trivial

end Part

section Within

open ObjectQuery.Part

abbrev Part.Within (m : Mapping) (n : Nat) (p : Part) : Prop := p.Every (HopsWithin m n)

theorem Expr.within_outerJoined {test : Expr} :
    (Part.expr (.outerJoined test e)).Within m n ↔ (Part.expr test).Within m n ∧ (Part.expr e).Within m n :=
  every_iff.trans ((and_iff_right trivial).trans (by simp [Part.parts]))

theorem Expr.within_projection {p : Projection Expr} :
    (Part.expr (.projection p)).Within m n
      ↔ (Part.select p.select).Within m n ∧ (Part.expr p.projector).Within m n := by
  refine every_iff.trans ((and_iff_right trivial).trans ?_)
  simp only [Part.parts, List.mem_singleton, forall_eq]
  exact every_iff.trans ((and_iff_right trivial).trans (by simp [Part.parts]))

/-- A member that is no association leaves all chains as they are. -/
theorem Expr.within_bindMember_of_plain (plain : ∀ entity, m.isAssociation entity name = false)
    (h : (Part.expr e).Within m n) : (Part.expr (e.bindMember name)).Within m n := by
  have left : ∀ e, (Part.expr e).Within m n → (Part.expr (.member e name)).Within m n := fun e h =>
    .node (.inl plain) (by simpa [Part.parts] using h)
  fun_induction Expr.bindMember name e with
  | case1 => exact left _ h
  | case2 _ _ _ _ bound _ ih =>
    rw [bound] at ih
    exact ih (h.part (by simp [Part.parts]))
  | case3 _ _ _ ih => exact ih (h.part (by simp [Part.parts]))
  | case4 typeName fields =>
    cases found : fieldNamed? name fields with
    | none => exact left _ h
    | some e =>
      obtain ⟨f, hf, rfl⟩ := mem_of_fieldNamed? found
      exact h.part (Expr.field_mem hf)
  | case5 s projector pick ih =>
    obtain ⟨select, projector⟩ := Expr.within_projection.mp h
    exact Expr.within_projection.mpr ⟨select, ih projector⟩
  | case6 => exact every_column trivial
  | case7 _ _ _ ih =>
    obtain ⟨test, inner⟩ := Expr.within_outerJoined.mp h
    exact Expr.within_outerJoined.mpr ⟨test, ih inner⟩
  | case8 _ _ _ ihTrue ihFalse =>
    refine .node trivial fun q hq => ?_
    simp only [Part.parts, List.mem_cons, List.not_mem_nil, or_false] at hq
    rcases hq with rfl | rfl | rfl
    · exact h.part (by simp [Part.parts])
    · exact ihTrue (h.part (by simp [Part.parts]))
    · exact ihFalse (h.part (by simp [Part.parts]))
  | case9 => exact h.part (by simp [Part.parts])
  | case10 => exact left _ h
  | case11 => exact h
  | case12 => exact left _ h

/-- A member of what a chain leads to is taken there, after the hops of the chain. -/
theorem Expr.Holds.within_bindMember (holds : e.Holds m k entity) (h : (Part.expr e).Within m n)
    (less : m.isAssociation entity name = true → k < n) : (Part.expr (e.bindMember name)).Within m n := by
  induction holds with
  | @chain e chain =>
    have left : (Part.expr (.member e name)).Within m n :=
      .node (.inr ⟨k, entity, chain, less⟩) (by simpa [Part.parts] using h)
    cases chain with
    | record _ =>
      rcases bindMember_record_cases entity _ _ name with ⟨s, -, -, bound⟩ | bound
      · rw [bound]
        exact every_column trivial
      · rwa [bound]
    | hop _ _ _ => exact left
  | @outerJoined test e _ ih =>
    obtain ⟨test, inner⟩ := Expr.within_outerJoined.mp h
    rw [Expr.bindMember]
    split
    · exact every_column trivial
    · exact Expr.within_outerJoined.mpr ⟨test, ih inner⟩
  | projection _ ih =>
    obtain ⟨select, projector⟩ := Expr.within_projection.mp h
    rw [Expr.bindMember]
    exact Expr.within_projection.mpr ⟨select, ih projector⟩

theorem Part.within_record (entity : String) (rel : Alias) (slots : List Slot) :
    (Part.expr (.record entity rel slots)).Within m n :=
  every_record trivial trivial fun _ _ => trivial

theorem Expr.within_conjoin? {es : List Expr} (h : ∀ e ∈ es, (Part.expr e).Within m n) :
    ∀ e ∈ conjoin? es, (Part.expr e).Within m n := by
  have both : ∀ (es : List Expr) (e : Expr), (Part.expr e).Within m n →
      (∀ e ∈ es, (Part.expr e).Within m n) → (Part.expr (es.foldl .both e)).Within m n := by
    intro es
    induction es with
    | nil => exact fun _ he _ => he
    | cons e' rest ih =>
      intro e he hes
      refine ih _ (.node trivial ?_) fun e he => hes e (by simp [he])
      simpa [Part.parts, Expr.both] using ⟨he, hes e' (by simp)⟩
  cases es with
  | nil => simp [conjoin?]
  | cons e rest =>
    rintro _ ⟨⟩
    exact both rest e (h e (by simp)) fun e he => h e (by simp [he])

namespace Mapping

open ObjectQuery.Expr

variable {a : Association} {target : Entity} {root : Expr} {rel source table : Alias}

theorem Navigable.chain_record (navigable : m.Navigable) (resolved : m.resolve name = .ok target) (rel : Alias)
    {slots : List Slot} (members : ∀ s ∈ slots, ∃ k ∈ target.members, k.name = s.member) :
    (Expr.record target.name rel slots).Chain m 0 target.name := by
  have mem : target ∈ m.entities := by
    unfold resolve entity? at resolved
    split at resolved
    · rename_i found
      obtain rfl := Except.ok.inj resolved
      rcases Option.or_eq_some_iff.mp found with found | ⟨-, found⟩
      · exact List.mem_of_find?_eq_some found
      · exact List.mem_of_find?_eq_some found
    · cases resolved
  refine .record fun s hs => ?_
  obtain ⟨k, hk, named⟩ := members s hs
  exact named ▸ navigable.members target mem k hk

theorem Entity.members_seen (e : Entity) : ∀ s ∈ e.seen, ∃ k ∈ e.members, k.name = s.member := by
  intro s hs
  obtain ⟨stored, mem, rfl⟩ := List.mem_map.mp hs
  obtain ⟨k, hk, rfl⟩ := List.mem_map.mp mem
  exact ⟨k, hk, (Slot.member_through e.forwards ⟨k.name, k.columnName, k.type⟩).symm⟩

theorem Entity.members_reseen (e : Entity) : ∀ s ∈ e.reseen, ∃ k ∈ e.members, k.name = s.member := by
  intro s hs
  obtain ⟨seen, mem, rfl⟩ := List.mem_map.mp hs
  obtain ⟨k, hk, named⟩ := e.members_seen seen mem
  exact ⟨k, hk, named.trans (Slot.member_through _ _).symm⟩

/-- What an association leads to holds no chain, besides those of the object that it leads on from. -/
theorem Navigable.within_other (navigable : m.Navigable) (found : m.association? entity name = some a)
    (resolved : m.resolve a.target = .ok target) (chain : root.Chain m 0 entity)
    (h : (Part.expr root).Within m n) :
    (Part.expr (.projection (a.other target root rel source table))).Within m n := by
  refine within_projection.mpr ⟨Part.every_forwarding trivial (fun _ _ => trivial) ?_ ?_, Part.within_record _ _ _⟩
  · refine .node trivial fun q hq => ?_
    obtain rfl := List.mem_singleton.mp hq
    exact (target.every_rows trivial trivial trivial trivial trivial fun _ _ => trivial).part
      Projection.select_mem
  · refine within_conjoin? fun e he => ?_
    obtain ⟨⟨key, related⟩, hk, rfl⟩ := List.mem_map.mp he
    obtain ⟨hkey, hrelated⟩ := List.of_mem_zip hk
    have inner : (Part.expr ((Expr.record target.name source target.seen).bindMember related)).Within m n := by
      refine (Holds.chain (navigable.chain_record resolved source target.members_seen)).within_bindMember
        (Part.within_record _ _ _) fun association => ?_
      rw [navigable.relatedKeys found resolved related hrelated] at association
      cases association
    have outer : (Part.expr (root.bindMember key)).Within m n := by
      refine (Holds.chain chain).within_bindMember h fun association => ?_
      rw [navigable.keys found key hkey] at association
      cases association
    refine .node trivial ?_
    simpa [Part.parts, Expr.equals] using ⟨inner, outer⟩

theorem Navigable.holds_other (navigable : m.Navigable) (resolved : m.resolve a.target = .ok target)
    (root : Expr) (rel source table : Alias) :
    (Expr.projection (a.other target root rel source table)).Holds m 0 target.name :=
  .projection (.chain (navigable.chain_record resolved rel target.members_reseen))

end Mapping

/-- The test of a join is a column or a constant. -/
theorem Select.joinTest_cases (s : Select Expr) : (∃ c, s.joinTest = .column c) ∨ s.joinTest = .int 1 := by
  unfold joinTest
  simp only
  split
  · exact .inl ⟨_, rfl⟩
  · split
    · exact .inl ⟨_, rfl⟩
    · exact .inr rfl

theorem ColumnDecl.expr_of_mem_provide {columns : List (ColumnDecl Expr)} {base : String} {d : ColumnDecl Expr}
    (h : d ∈ (provide columns base e).2) : d ∈ columns ∨ d.expr = e := by
  rw [provide] at h
  split at h
  · exact .inl h
  · rcases List.mem_append.mp h with h | h
    · exact .inl h
    · rw [List.mem_singleton.mp h]
      exact .inr rfl

theorem Projection.within_withJoinTest {p : Projection Expr} (h : (Part.expr (.projection p)).Within m n) :
    (Part.select p.withJoinTest.select).Within m n ∧ (Part.expr p.withJoinTest.projector).Within m n := by
  obtain ⟨select, projector⟩ := Expr.within_projection.mp h
  refine ⟨.node trivial fun q hq => ?_, Expr.within_outerJoined.mpr ⟨every_column trivial, projector⟩⟩
  obtain ⟨e, he, rfl⟩ := List.mem_map.mp hq
  have test : (Part.expr p.select.joinTest).Within m n := by
    rcases p.select.joinTest_cases with ⟨c, test⟩ | test
    · rw [test]
      exact every_column trivial
    · rw [test]
      exact .node trivial (by simp [Part.parts, Expr.int])
  have kept : e ∈ p.select.exprs ∨ e = p.select.joinTest := by
    simp only [Select.exprs, withJoinTest, List.mem_append, List.mem_map] at he ⊢
    rcases he with he | ⟨d, hd, rfl⟩
    · exact .inl (.inl he)
    · rcases ColumnDecl.expr_of_mem_provide hd with hd | same
      · exact .inl (.inr ⟨d, hd, rfl⟩)
      · exact .inr same
  rcases kept with he | rfl
  · exact select.part (List.mem_map_of_mem he)
  · exact test

end Within

namespace Associations

open Outcomes (ofStateOk)

variable {fuel : Nat}

structure Shortened (m : Mapping) (n : Nat) (e e' : Expr) : Prop where
  within : (Part.expr e').Within m n
  holds : ∀ {k entity}, e.Holds m k entity → e'.Holds m (k - 1) entity
  wrapped : ∀ {k entity}, e.Holds m k entity → e.isEntity = false → e'.isEntity = false

structure ShortenedIn (m : Mapping) (n : Nat) (p p' : Projection Expr) : Prop where
  within : (Part.projection p').Within m n
  holds : ∀ {k entity}, p.projector.Holds m k entity → p'.projector.Holds m (k - 1) entity

def Shortens (m : Mapping) (n fuel : Nat) : Part → Prop
  | .expr e => (ofStateOk State RewriteError).Keeps (SourceHas (Part.HopsWithin m n)) (Shortened m n e)
      (e.follow m fuel)
  | .select s => (ofStateOk State RewriteError).Keeps (SourceHas (Part.HopsWithin m n))
      (fun s' => (Part.select s').Within m n) (s.follow m fuel)
  | .projection p => (ofStateOk State RewriteError).Keeps (SourceHas (Part.HopsWithin m n)) (ShortenedIn m n p)
      (p.follow m fuel)

/-- A record is left as it is. -/
theorem follow_record (m : Mapping) (fuel : Nat) (entity : String) (rel : Alias) (slots : List Slot) (s : State) :
    ((Expr.record entity rel slots).follow m fuel).run s = .ok (.record entity rel slots, s) := by
  let Y := Yields.ofStateOk State RewriteError
  have columns : ∀ k ∈ slots, Y.gives s (Expr.follow m fuel (.column (k.ref rel))) (.column (k.ref rel)) s := by
    intro k _
    rw [Expr.follow.eq_2 _ _ _ (by simp)]
    exact Y.pure _ _
  have object : Y.gives s (Expr.follow m fuel (.construct (some entity) (slots.map (Slot.field rel))))
      (.construct (some entity) (slots.map (Slot.field rel))) s := by
    rw [Expr.follow.eq_2 _ _ _ (by simp)]
    simp only [Expr.traverse, List.mapM_subtype, List.unattach_attach]
    exact Y.bind (Slot.fields_gives Y (fun e => e.follow m fuel) columns) (Y.pure _ _)
  rw [Expr.record, Expr.follow.eq_2 _ _ _ (by simp)]
  exact Y.bind object (Y.pure _ _)

theorem keeps_record (I : State → Prop) (entity : String) (rel : Alias) (slots : List Slot) :
    (ofStateOk State RewriteError).Keeps I (· = .record entity rel slots)
      (Expr.follow m fuel (.record entity rel slots)) := by
  intro s e s' hs run
  have run : (Expr.follow m fuel (.record entity rel slots)).run s = .ok (e, s') := run
  rw [follow_record] at run
  cases run
  exact ⟨rfl, hs⟩

/-- A hop from a record leads to a record of the target. -/
theorem keeps_hop (navigable : m.Navigable) {root : Expr} (chain : root.Chain m 0 entity)
    (h : (Part.expr root).Within m n) {a : Mapping.Association} (found : m.association? entity name = some a) :
    (ofStateOk State RewriteError).Keeps (SourceHas (Part.HopsWithin m n))
      (fun bound => (Part.expr bound).Within m n ∧ bound.isEntity = false
        ∧ ∃ target, m.resolve a.target = .ok target ∧ bound.Holds m 0 target.name)
      (Associations.follow m root entity name) := by
  intro state bound state' source run
  have run : Associations.follow m root entity name state = .ok (bound, state') := run
  have navigate : m.bindMember root entity name = m.navigate root a := by
    rw [Mapping.bindMember, found]
  rw [Associations.follow, navigate] at run
  cases resolved : m.resolve a.target with
  | error err =>
    have failed : (m.navigate root a).run state.supply = .error err := by
      rw [Mapping.navigate, Mapping.relation, resolved]
      rfl
    rw [failed] at run
    cases run
  | ok target =>
    have walked : (m.navigate root a).run state.supply = _ := Mapping.navigate_run resolved root state.supply.next
    rw [walked] at run
    cases run
    exact ⟨⟨navigable.within_other found resolved chain h, rfl, target, rfl,
      navigable.holds_other resolved root _ _ _⟩, source⟩

theorem keeps_joined (singleton : Bool) {p : Projection Expr} (h : (Part.expr (.projection p)).Within m n)
    (holds : (Expr.projection p).Holds m k entity) :
    (ofStateOk State RewriteError).Keeps (SourceHas (Part.HopsWithin m n))
      (fun e => (Part.expr e).Within m n ∧ e.isEntity = false ∧ e.Holds m k entity) (attach singleton p) := by
  rw [attach]
  refine (Outcomes.keepsOk_get fun _ => id).bind fun state within => ?_
  split
  · rename_i source found
    split
    · obtain ⟨select, projector⟩ := Projection.within_withJoinTest h
      have joined : (Part.expr (.join .outerApply source (.select p.withJoinTest.select) none)).Within m n := by
        refine .node trivial fun q hq => ?_
        simp only [Part.parts, Option.toList_none, List.map_nil, List.mem_cons, List.not_mem_nil, or_false] at hq
        rcases hq with rfl | rfl
        · exact within source found
        · exact .node trivial (by simpa [Part.parts] using select)
      have inner : p.projector.Holds m k entity := by
        cases holds with
        | chain chain => cases chain
        | projection inner => exact inner
      exact (Outcomes.keepsOk_modify fun _ _ => by simpa [SourceHas] using joined).bind fun _ _ =>
        .pure ⟨projector, rfl, .outerJoined inner⟩
    · exact .pure ⟨h, rfl, holds⟩
  · exact .pure ⟨h, rfl, holds⟩

theorem keeps_followed (singleton : Bool) (bound : Expr) :
    (Part.expr bound).Within m n ∧ bound.isEntity = false ∧ bound.Holds m k entity →
    (ofStateOk State RewriteError).Keeps (SourceHas (Part.HopsWithin m n))
      (fun e => (Part.expr e).Within m n ∧ e.isEntity = false ∧ e.Holds m k entity) (match bound with
        | .projection p => attach singleton p
        | other => pure other) := by
  rintro ⟨h, wrapped, holds⟩
  split
  · exact keeps_joined singleton h holds
  · exact .pure ⟨h, wrapped, holds⟩

theorem shortened_record (entity : String) (rel : Alias) (slots : List Slot) :
    Shortened m n (.record entity rel slots) (.record entity rel slots) := by
  refine ⟨Part.within_record _ _ _, fun holds => ?_, fun _ => id⟩
  cases holds with
  | chain chain =>
    obtain ⟨rfl, -⟩ := chain.of_entity
    exact .chain chain

/-- Where no association is taken, the chain in a shape is shortened with the parts. -/
theorem shortened_of_shaped {e e' : Expr} (unchained : ∀ k entity, ¬ e.Chain m k entity)
    (untaken : ∀ target name, e ≠ .member target name)
    (shaped : e.Shaped (Shortened m n) (fun _ s => (Part.select s).Within m n) (ShortenedIn m n) e') :
    Shortened m n e e' where
  within := by
    refine Expr.Shaped.every (shaped.imp (fun _ _ _ h => h.within) (fun _ _ _ h => h) fun _ _ _ h => h.within) ?_
    cases shaped with
    | member name _ => exact absurd rfl (untaken _ name)
    | _ => trivial
  holds h := by
    cases h with
    | chain chain => exact absurd chain (unchained _ _)
    | outerJoined inner =>
      cases shaped with
      | outerJoined _ h => exact .outerJoined (h.holds inner)
    | projection inner =>
      cases shaped with
      | projection h => exact .projection (h.holds inner)
  wrapped _ wrapped := by
    cases shaped with
    | entity _ _ => cases wrapped
    | _ => rfl

/-- What comes of a member at the end of a chain. -/
theorem shortened_member {target e' : Expr} (chain : target.Chain m k entity) (within : (Part.expr e').Within m n)
    (holds : ∀ {a t}, m.association? entity name = some a → m.resolve a.target = .ok t →
      e'.isEntity = false ∧ e'.Holds m k t.name) :
    Shortened m n (.member target name) e' := by
  have shorter : ∀ {k' entity'}, (Expr.member target name).Holds m k' entity' →
      e'.isEntity = false ∧ e'.Holds m (k' - 1) entity' := by
    intro k' entity' h
    cases h with
    | chain chain' =>
      cases chain' with
      | hop chain' found resolved =>
        obtain ⟨rfl, rfl⟩ := chain.unique chain'
        exact holds found resolved
  exact ⟨within, fun h => (shorter h).2, fun h _ => (shorter h).1⟩

/-- A member of an object that a chain starts from: an association of it is followed, to the record of its
target. -/
theorem keeps_taken (navigable : m.Navigable) {inner : Expr} (chain : (Expr.entity entity inner).Chain m 0 entity)
    (h : (Part.expr (.entity entity inner)).Within m n)
    (deeper : ∀ fuel' < fuel, ∀ bound, (Part.expr bound).Within m (n + 1) → Shortens m n fuel' (.expr bound)) :
    (ofStateOk State RewriteError).Keeps (SourceHas (Part.HopsWithin m n))
      (fun e' => (Part.expr e').Within m n ∧ ∀ {a t}, m.association? entity name = some a →
        m.resolve a.target = .ok t → e'.isEntity = false ∧ e'.Holds m 0 t.name)
      (if m.isAssociation entity name then do
        let bound ← Associations.follow m (.entity entity inner) entity name
        let bound ← match fuel with
          | 0 => pure bound
          | fuel + 1 => bound.follow m fuel
        match bound with
        | .projection p => attach (m.isSingleton entity name) p
        | other => return other
      else return (Expr.entity entity inner).bindMember name) := by
  split
  · rename_i association
    obtain ⟨a, found⟩ := Option.isSome_iff_exists.mp association
    refine (keeps_hop navigable chain h found).bind fun bound ⟨within, wrapped, target, resolved, holds⟩ => ?_
    have attached : ∀ bound, (Part.expr bound).Within m n ∧ bound.isEntity = false ∧ bound.Holds m 0 target.name →
        (ofStateOk State RewriteError).Keeps (SourceHas (Part.HopsWithin m n))
          (fun e' => (Part.expr e').Within m n ∧ ∀ {a t}, m.association? entity name = some a →
            m.resolve a.target = .ok t → e'.isEntity = false ∧ e'.Holds m 0 t.name)
          (match bound with
            | .projection p => attach (m.isSingleton entity name) p
            | other => pure other) := by
      refine fun bound h => (keeps_followed _ bound h).mono fun e' ⟨within, holds⟩ =>
        ⟨within, fun found' resolved' => ?_⟩
      obtain rfl := Option.some.inj (found.symm.trans found')
      obtain rfl := Except.ok.inj (resolved.symm.trans resolved')
      exact holds
    cases fuel with
    | zero => exact (Outcomes.Keeps.pure ⟨within, wrapped, holds⟩).bind attached
    | succ fuel =>
      have walked := deeper fuel (Nat.lt_succ_self fuel) bound (within.mono fun _ => .mono (Nat.le_succ n))
      exact (Outcomes.Keeps.mono walked fun bound' shortened =>
        ⟨shortened.within, shortened.wrapped holds wrapped, shortened.holds holds⟩).bind attached
  · rename_i other
    refine .pure ⟨(Expr.Holds.chain chain).within_bindMember h fun association =>
      absurd association other, fun found _ => ?_⟩
    rw [Mapping.isAssociation, found] at other
    exact absurd rfl other

/-- A member is taken of what a walk makes of the expression it is taken of. -/
theorem keeps_member (navigable : m.Navigable) {target : Expr}
    (here : Part.HopsWithin m (n + 1) (.expr (.member target name)))
    (onTarget : Shortens m n fuel (.expr target))
    (deeper : ∀ fuel' < fuel, ∀ bound, (Part.expr bound).Within m (n + 1) → Shortens m n fuel' (.expr bound)) :
    Shortens m n fuel (.expr (.member target name)) := by
  change (ofStateOk State RewriteError).Keeps _ _ (Expr.follow m fuel (.member target name))
  rw [Expr.follow]
  rcases here with plain | ⟨k, entity, chain, less⟩
  case inl =>
    have bound : ∀ target', (Part.expr target').Within m n →
        Shortened m n (.member target name) (target'.bindMember name) := by
      have unchained : ∀ {k entity}, ¬ (Expr.member target name).Holds m k entity := by
        intro k entity holds
        cases holds with
        | chain chain =>
          cases chain with
          | @hop _ entity _ _ _ _ _ found _ =>
            have association := plain entity
            rw [Mapping.isAssociation, found] at association
            cases association
      exact fun target' within => ⟨Expr.within_bindMember_of_plain plain within,
        fun holds => absurd holds unchained, fun holds => absurd holds unchained⟩
    refine Outcomes.Keeps.bind onTarget fun target' shortened => ?_
    split
    · rw [plain]
      exact .pure (bound _ shortened.within)
    · exact .pure (bound _ shortened.within)
  case inr =>
    cases k with
    | zero =>
      -- the first hop: the walk has left the record as it was
      obtain ⟨rel, slots, rfl⟩ : ∃ rel slots, target = .record entity rel slots := by
        cases chain
        exact ⟨_, _, rfl⟩
      refine (keeps_record _ entity rel slots).bind fun target' same => ?_
      subst same
      exact (keeps_taken navigable chain (Part.within_record _ _ _) deeper).mono fun e' taken =>
        shortened_member chain taken.1 taken.2
    | succ k =>
      refine Outcomes.Keeps.bind onTarget fun target' shortened => ?_
      have holds : target'.Holds m k entity := shortened.holds (.chain chain)
      split
      · rename_i entity' inner
        -- an object comes of no hop
        cases shortened.wrapped (.chain chain) (by cases chain; rfl)
      · exact .pure (shortened_member chain (holds.within_bindMember shortened.within fun association =>
          Nat.lt_of_succ_lt_succ (less association)) fun found resolved =>
            ⟨(holds.bindMember found resolved).not_entity, holds.bindMember found resolved⟩)

/-- A walk takes the first hop of every chain. -/
theorem shortens (navigable : m.Navigable) (n fuel : Nat) {p : Part} (h : p.Within m (n + 1)) :
    Shortens m n fuel p := by
  induction fuel using Nat.strongRecOn generalizing p with | ind fuel deeper =>
  induction h with
  | @node p here within parts =>
    cases p with
    | expr e =>
      have walked : (ofStateOk State RewriteError).Keeps (SourceHas (Part.HopsWithin m n))
          (e.Shaped (Shortened m n) (fun _ s => (Part.select s).Within m n) (ShortenedIn m n))
          (e.traverse (fun c _ => c.follow m fuel) (fun s _ => s.follow m fuel) fun p _ => p.follow m fuel) :=
        Walker.Keeps.related (W := walker m fuel) (fun c hc => parts (.expr c) hc)
          (fun s hs => parts (.select s) hs) fun p hp => parts (.projection p) hp
      by_cases untaken : ∃ target name, e = .member target name
      · obtain ⟨target, name, rfl⟩ := untaken
        exact keeps_member navigable here (parts (.expr target) (by simp [Part.parts])) fun fuel' less bound =>
          deeper fuel' less (p := .expr bound)
      by_cases chained : ∃ k entity, e.Chain m k entity
      · obtain ⟨k, entity, chain⟩ := chained
        cases chain with
        | @record _ rel slots _ =>
          refine Outcomes.Keeps.mono (keeps_record _ entity rel slots) fun e' same => ?_
          subst same
          exact shortened_record _ _ _
        | hop _ _ _ => exact absurd ⟨_, _, rfl⟩ untaken
      · change (ofStateOk State RewriteError).Keeps _ _ (e.follow m fuel)
        rw [Expr.follow.eq_2 _ _ _ fun target name same => untaken ⟨target, name, same⟩]
        exact walked.mono fun e' shaped => shortened_of_shaped (fun k entity chain => chained ⟨k, entity, chain⟩)
          (fun target name same => untaken ⟨target, name, same⟩) shaped
    | select s =>
      have clauses : ∀ q ∈ (Part.select s).parts,
          (walker m fuel).Keeps (ofStateOk _ _) (SourceHas (Part.HopsWithin m n)) (Part.HopsWithin m n) q := by
        intro q hq
        obtain ⟨e, he, rfl⟩ := List.mem_map.mp hq
        exact Outcomes.Keeps.mono (parts (.expr e) hq) fun _ h => h.within
      refine Outcomes.Keeps.mono (keeps_clauses clauses) fun s' kept => .node trivial fun q hq => ?_
      obtain ⟨e, he, rfl⟩ := List.mem_map.mp hq
      exact kept.2 e he
    | projection p =>
      change (ofStateOk State RewriteError).Keeps _ _ (p.follow m fuel)
      rw [Projection.follow]
      refine Outcomes.Keeps.bind (parts (.select p.select) Projection.select_mem) fun s hs =>
        Outcomes.Keeps.bind (parts (.expr p.projector) Projection.projector_mem) fun projector hp =>
          .pure ⟨.node trivial ?_, hp.holds⟩
      simpa [Part.parts] using ⟨hs, hp.within⟩

end Associations

namespace Expr

variable {e' : Expr} {supply supply' : Supply}

/-- A run of the pass takes the first hop of every chain. -/
theorem shortened_followAssociations (navigable : m.Navigable) (h : (Part.expr e).Within m (n + 1))
    (run : (e.followAssociations m).run supply = .ok (e', supply')) : Associations.Shortened m n e e' := by
  have run : e.followAssociations m supply = .ok (e', supply') := run
  unfold followAssociations at run
  split at run
  · rename_i found
    cases run
    exact (Associations.shortens navigable n _ h ⟨supply, none⟩ _ _ (by simp [Associations.SourceHas]) found).1
  · cases run

/-- Where every association is taken of a record, one run of the pass follows all of them. -/
theorem navigated_followAssociations (navigable : m.Navigable) (h : (Part.expr e).Within m 1)
    (run : (e.followAssociations m).run supply = .ok (e', supply')) : (Part.expr e').Every (Part.Navigated m) :=
  (shortened_followAssociations navigable h run).within.mono fun _ => Part.HopsWithin.navigated

def followTimes (m : Mapping) : Nat → Expr → Minting RewriteError Expr
  | 0, e => pure e
  | n + 1, e => do (← e.followAssociations m).followTimes m n

/-- As many runs take as many hops of every chain. -/
theorem shortened_followTimes (navigable : m.Navigable) {times : Nat} (h : (Part.expr e).Within m (n + times))
    (run : (e.followTimes m times).run supply = .ok (e', supply')) :
    (Part.expr e').Within m n ∧ ∀ k entity, e.Holds m k entity → e'.Holds m (k - times) entity := by
  induction times generalizing e supply with
  | zero =>
    cases run
    exact ⟨h, fun _ _ holds => holds⟩
  | succ times ih =>
    obtain ⟨e₁, supply₁, first, rest⟩ := (Outcomes.ofStateOk Supply RewriteError).bind run
    have once := shortened_followAssociations navigable h first
    obtain ⟨within, holds'⟩ := ih once.within rest
    refine ⟨within, fun k entity holds => ?_⟩
    rw [Nat.sub_add_eq, Nat.sub_right_comm]
    exact holds' _ _ (once.holds holds)

/-- No association is left after as many runs as the longest chain has hops. -/
theorem navigated_followTimes (navigable : m.Navigable) (h : (Part.expr e).Within m n)
    (run : (e.followTimes m n).run supply = .ok (e', supply')) : (Part.expr e').Every (Part.Navigated m) :=
  (shortened_followTimes navigable ((Nat.zero_add n).symm ▸ h : (Part.expr e).Within m (0 + n)) run).1.mono
    fun _ => Part.HopsWithin.navigated

theorem Chain.within (chain : e.Chain m k entity) : (Part.expr e).Within m k := by
  induction chain with
  | record _ => exact Part.within_record _ _ _
  | @hop n entity e name _ _ chain _ _ ih =>
    refine .node (.inr ⟨n, entity, chain, fun _ => Nat.lt_succ_self n⟩) fun q hq => ?_
    obtain rfl := List.mem_singleton.mp hq
    exact ih.mono fun _ => .mono (Nat.le_succ n)

/-- The first hop of a chain is an association of a record. -/
theorem Chain.not_navigated (chain : e.Chain m (k + 1) entity) : ¬ (Part.expr e).Every (Part.Navigated m) := by
  induction k generalizing e entity with
  | zero =>
    intro navigated
    cases chain with
    | @hop _ entity _ name _ _ start found _ =>
      cases start with
      | record _ =>
        have none : m.isAssociation entity name = false := navigated.here
        rw [Mapping.isAssociation, found] at none
        cases none
  | succ k ih =>
    intro navigated
    cases chain with
    | hop shorter _ _ => exact ih shorter (navigated.part (by simp [Part.parts]))

theorem Holds.not_navigated (holds : e.Holds m (k + 1) entity) :
    ¬ (Part.expr e).Every (Part.Navigated m) := by
  induction holds with
  | chain chain => exact chain.not_navigated
  | outerJoined _ ih => exact fun navigated => ih (navigated.part (by simp [Part.parts]))
  | @projection s projector pick _ ih =>
    refine fun navigated => ih ?_
    have inner : (Part.projection ⟨s, projector, pick⟩).Every (Part.Navigated m) :=
      navigated.part (by simp [Part.parts])
    exact inner.part Projection.projector_mem

/-- It takes as many runs as a chain has hops until no association is left of it. -/
theorem Chain.navigated_followTimes_iff (navigable : m.Navigable) (chain : e.Chain m k entity)
    (run : (e.followTimes m n).run supply = .ok (e', supply')) :
    (Part.expr e').Every (Part.Navigated m) ↔ k ≤ n := by
  constructor
  · intro navigated
    by_contra less
    obtain ⟨left, rfl⟩ := Nat.exists_eq_add_of_lt (Nat.lt_of_not_le less)
    have within : (Part.expr e).Within m (left + 1 + n) := by
      rw [Nat.add_comm, ← Nat.add_assoc]
      exact chain.within
    have holds := (shortened_followTimes navigable within run).2 _ _ (.chain chain)
    rw [Nat.add_assoc, Nat.add_sub_cancel_left] at holds
    exact holds.not_navigated navigated
  · exact fun le => Expr.navigated_followTimes navigable (chain.within.mono fun _ => .mono le) run

end Expr

end ObjectQuery
