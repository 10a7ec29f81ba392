import ObjectQuery.Proofs.Groupings
import ObjectQuery.Sample

/-!
What an association leads to. The other side of an association is a filtered view of the rows of its
target: the filter compares each key of the owner with the related key of the row. In a sound configuration
the keys are members on either side, so they lead nowhere by themselves.
-/

namespace ObjectQuery

namespace Expr

/-- A member of a record is a column, or is left as it is. -/
theorem bindMember_record_cases (entity : String) (rel : Alias) (slots : List Slot) (name : String) :
    (∃ s ∈ slots, s.member = name ∧ (record entity rel slots).bindMember name = .column (s.ref rel))
      ∨ (record entity rel slots).bindMember name = .member (.record entity rel slots) name := by
  cases found : slots.find? (·.member == name) with
  | some s =>
    refine .inl ⟨s, List.mem_of_find?_eq_some found, ?_, bindMember_record found⟩
    simpa using List.find?_some found
  | none =>
    right
    have object : (construct (some entity) (slots.map (Slot.field rel))).bindMember name
        = .member (.construct (some entity) (slots.map (Slot.field rel))) name := by
      have none : fieldNamed? name (slots.map (Slot.field rel)) = .none := by
        rw [fieldNamed?, List.find?_map]
        simp [Function.comp_def, Slot.field, found]
      rw [bindMember, none]
      rfl
    have same : ((construct (some entity) (slots.map (Slot.field rel))
        == construct (some entity) (slots.map (Slot.field rel))) : Bool) = true := by
      have plain := plain_record entity rel slots
      cases plain with
      | entity inner => exact inner.same_self
    rw [record, bindMember, object]
    simp only [same, beq_self_eq_true, Bool.and_self, if_true]

end Expr

namespace Mapping

variable {m : Mapping} {target : Entity}

theorem relation_run {name : String} (resolved : m.resolve name = .ok target) (n : Nat) :
    (m.relation name).run ⟨n⟩ = .ok (target.rows ⟨n + 1⟩ ⟨n⟩, ⟨n + 2⟩) := by
  rw [relation, resolved]
  exact congrArg Except.ok (target.relation_run n)

namespace Association

variable (a : Association)

def condition? (root inner : Expr) : Option Expr :=
  Expr.conjoin? ((a.keys.zip a.relatedKeys).map fun (key, related) =>
    .equals (inner.bindMember related) (root.bindMember key))

def pick : Option Pick := if a.singleton then some .singleOrDefault else none

def other (target : Entity) (root : Expr) (rel source table : Alias) : Projection Expr :=
  ⟨.forwarding rel source target.inner (.select (target.rows source table).select)
      (a.condition? root (.record target.name source target.seen)),
    .record target.name rel target.reseen, a.pick⟩

end Association

theorem navigate_run {a : Association} (resolved : m.resolve a.target = .ok target) (root : Expr) (n : Nat) :
    (m.navigate root a).run ⟨n⟩ = .ok (.projection (a.other target root ⟨n + 2⟩ ⟨n + 1⟩ ⟨n⟩), ⟨n + 3⟩) := by
  let Y := Yields.ofStateOk Supply Error
  have split : (Expr.record target.name ⟨n + 1⟩ target.seen).split .client [] ⟨n + 2⟩ [⟨n + 1⟩]
      = ⟨.record target.name ⟨n + 2⟩ target.reseen, target.inner.map (Forward.decl ⟨n + 1⟩)⟩ :=
    Expr.split_record _ _ _ _ _
  have fresh : (liftM Supply.freshAlias : Minting Error Alias).run ⟨n + 2⟩ = .ok (⟨n + 2⟩, ⟨n + 3⟩) := rfl
  rw [navigate]
  refine Y.bind (relation_run resolved n) (Y.bind fresh ?_)
  simp only [Entity.rows, split, Select.forwarding, Select.plain]
  exact Y.pure _ _

end Mapping

structure Mapping.Navigable (m : Mapping) : Prop where
  members : ∀ e ∈ m.entities, ∀ k ∈ e.members, m.isAssociation e.name k.name = false
  keys : ∀ {entity name a}, m.association? entity name = some a →
    ∀ key ∈ a.keys, m.isAssociation entity key = false
  relatedKeys : ∀ {entity name a target}, m.association? entity name = some a →
    m.resolve a.target = .ok target → ∀ key ∈ a.relatedKeys, m.isAssociation target.name key = false

namespace Mapping

variable {m : Mapping}

theorem ok_of_forM {ε α : Type} {f : α → Except ε PUnit} {l : List α} (h : l.forM f = .ok ()) :
    ∀ a ∈ l, f a = .ok () := by
  induction l with
  | nil => simp
  | cons a rest ih =>
    have h : (f a >>= fun _ => rest.forM f) = .ok () := h
    cases first : f a with
    | error _ =>
      rw [first] at h
      cases h
    | ok _ =>
      rw [first] at h
      intro b hb
      rcases List.mem_cons.mp hb with rfl | hb
      exacts [first, ih h b hb]

/-- Where no two items share a name, each is found under its own. -/
theorem find?_named {α : Type} {name : α → String} {l : List α} (distinct : (l.map name).Nodup) {a : α}
    (ha : a ∈ l) : l.find? (name · == name a) = some a := by
  obtain ⟨b, found⟩ : ∃ b, l.find? (name · == name a) = some b := by
    rw [← Option.isSome_iff_exists, List.find?_isSome]
    exact ⟨a, ha, by simp⟩
  have same : name b = name a := by simpa using List.find?_some found
  rw [found, List.inj_on_of_nodup_map distinct (List.mem_of_find?_eq_some found) ha same]

variable {c : Config}

/-- A sound configuration leaves nothing empty, and each of its associations passes its check. -/
theorem Config.associations_of_check (sound : c.check = .ok ()) {e : Entity} (he : e ∈ c.entities)
    {a : Association} (ha : a ∈ e.associations) : c.isFilled = true ∧ c.checkAssociation e a = .ok () := by
  rw [check] at sound
  by_cases filled : c.isFilled = true
  · rw [filled] at sound
    have entity := ok_of_forM (f := c.checkEntity) sound e he
    rw [checkEntity] at entity
    have associations : e.associations.forM (c.checkAssociation e) = .ok () := by
      split at entity
      · cases entity
      · exact entity
    exact ⟨filled, ok_of_forM associations a ha⟩
  · rw [if_pos (by simpa using filled)] at sound
    cases sound

/-- A checked association pairs members of its entity with members of its target. -/
theorem Config.keys_of_checkAssociation {e : Entity} {a : Association} (checked : c.checkAssociation e a = .ok ()) :
    a.keys.length = a.relatedKeys.length ∧ (∀ key ∈ a.keys, e.hasMember key = true)
      ∧ ∃ target, c.entities.find? (·.name == a.target) = some target
        ∧ ∀ key ∈ a.relatedKeys, target.hasMember key = true := by
  unfold checkAssociation at checked
  split at checked
  · cases checked
  rename_i target found
  have allMembers : ∀ {e : Entity} {names : List String}, names.find? (!e.hasMember ·) = none →
      ∀ key ∈ names, e.hasMember key = true := fun none key hkey => by
    simpa using List.find?_eq_none.mp none key hkey
  by_cases counts : a.keys.length ≠ a.relatedKeys.length
  · rw [if_pos counts] at checked
    cases checked
  rw [if_neg counts] at checked
  cases keys : a.keys.find? (!e.hasMember ·) with
  | some key =>
    rw [keys] at checked
    cases checked
  | none =>
    rw [keys] at checked
    cases related : a.relatedKeys.find? (!target.hasMember ·) with
    | some key =>
      rw [related] at checked
      cases checked
    | none => exact ⟨not_not.mp counts, allMembers keys, target, found, allMembers related⟩

/-- The keys of an association in a sound configuration are members on either side. -/
theorem Config.keys_of_check (sound : c.check = .ok ()) {e : Entity} (he : e ∈ c.entities) {a : Association}
    (ha : a ∈ e.associations) : (∀ key ∈ a.keys, e.hasMember key = true)
      ∧ ∃ target, c.entities.find? (·.name == a.target) = some target
        ∧ ∀ key ∈ a.relatedKeys, target.hasMember key = true :=
  (keys_of_checkAssociation (associations_of_check sound he ha).2).2

/-- The entities of a sound configuration with distinct names are those of its mapping. -/
theorem entities_ofConfig (sound : ofConfig c = .ok m) (distinct : (c.entities.map (·.name)).Nodup) :
    c.check = .ok () ∧ m.entities = c.entities := by
  have checked : c.check = .ok () := by
    cases checked : c.check with
    | error _ =>
      rw [ofConfig, checked] at sound
      cases sound
    | ok _ => rfl
  have added : ∀ es before : List Entity, ((before ++ es).map (·.name)).Nodup →
      es.foldl (fun entities e => entities.filter (·.name ≠ e.name) ++ [e]) before = before ++ es := by
    intro es
    induction es with
    | nil => exact fun before _ => (List.append_nil before).symm
    | cons e rest ih =>
      intro before nodup
      have kept : before.filter (·.name ≠ e.name) = before := by
        refine List.filter_eq_self.mpr fun e' he' => ?_
        rw [List.map_append, List.nodup_append] at nodup
        exact decide_eq_true (nodup.2.2 _ (List.mem_map_of_mem he') _ (by simp))
      rw [List.foldl_cons, kept, ih _ (by simpa using nodup), List.append_assoc, List.singleton_append]
  rw [ofConfig, checked] at sound
  cases sound
  exact ⟨checked, added c.entities [] distinct⟩

/-- In the mapping of a sound configuration with distinct names, associations are navigable if none of them
has the name of a member of its entity. -/
theorem navigable_ofConfig (sound : ofConfig c = .ok m) (distinct : (c.entities.map (·.name)).Nodup)
    (apart : ∀ e ∈ c.entities, ∀ a ∈ e.associations, e.hasMember a.name = false) : m.Navigable := by
  obtain ⟨checked, entities⟩ := entities_ofConfig sound distinct
  have named : ∀ {name e}, m.entity? name = some e → e ∈ c.entities ∧ e.name = name := by
    intro name e found
    rw [entity?, entities] at found
    exact ⟨List.mem_of_find?_eq_some found, by simpa using List.find?_some found⟩
  have associated : ∀ {name member a}, m.association? name member = some a →
      ∃ e, m.entity? name = some e ∧ a ∈ e.associations ∧ a.name = member := by
    intro name member a found
    obtain ⟨e, he, found⟩ := Option.bind_eq_some_iff.mp found
    exact ⟨e, he, List.mem_of_find?_eq_some found, by simpa using List.find?_some found⟩
  have unique : ∀ e ∈ c.entities, m.entity? e.name = some e := by
    intro e he
    rw [entity?, entities]
    exact find?_named distinct he
  have members : ∀ e ∈ c.entities, ∀ member, e.hasMember member = true → m.isAssociation e.name member = false := by
    intro e he member has
    rw [isAssociation, Option.isSome_eq_false_iff, Option.isNone_iff_eq_none]
    refine Option.eq_none_iff_forall_ne_some.mpr fun a found => ?_
    obtain ⟨e', found', ha, rfl⟩ := associated found
    obtain rfl := Option.some.inj ((unique e he).symm.trans found')
    rw [apart e he a ha] at has
    cases has
  refine ⟨fun e he k hk => members e (entities ▸ he) k.name ?_, fun {entity name a} found key hkey => ?_,
    fun {entity name a target} found resolved key hkey => ?_⟩
  · simpa [Entity.hasMember] using ⟨k, hk, rfl⟩
  · obtain ⟨e, found, ha, -⟩ := associated found
    obtain ⟨he, rfl⟩ := named found
    exact members e he key ((c.keys_of_check checked he ha).1 key hkey)
  · obtain ⟨e, found, ha, -⟩ := associated found
    obtain ⟨-, target', found', related⟩ := c.keys_of_check checked (named found).1 ha
    have same : m.resolve a.target = .ok target' := by
      rw [resolve, entity?, entities, found']
      rfl
    obtain rfl := Except.ok.inj (resolved.symm.trans same)
    exact members target (List.mem_of_find?_eq_some found') key (related key hkey)

example : Navigable ⟨Sample.config.entities⟩ :=
  navigable_ofConfig (c := Sample.config) rfl (by decide) (by decide)

end Mapping

end ObjectQuery
