import ObjectQuery.Proofs.Navigations

/-!
What an accepted configuration promises. Where no two entities, and no two associations of an entity, share a
name, what is checked is what is found: each entity is bound to its own rows, and each of its associations
leads to the target, with an equality of two columns for each pair of keys. With one name for two entities the
check looks at the first and the mapping keeps the last, so a related key can be left open.
-/

namespace ObjectQuery

namespace Mapping

namespace Entity

variable (e : Entity) (rel : Alias)

def seenColumn (name : String) : Option Column := (e.member? name).map fun k => (e.slot k).ref rel

variable {e rel} {name : String}

variable (rel) in
theorem exists_seenColumn (mapped : e.hasMember name = true) : ∃ c, e.seenColumn rel name = some c := by
  have found : (e.member? name).isSome = true := by
    rw [member?, List.find?_isSome]
    exact List.any_eq_true.mp mapped
  obtain ⟨k, found⟩ := Option.isSome_iff_exists.mp found
  exact ⟨_, congrArg (Option.map _) found⟩

theorem bindMember_seen {c : Column} (shown : e.seenColumn rel name = some c) :
    (Expr.record e.name rel e.seen).bindMember name = .column c := by
  obtain ⟨k, found, rfl⟩ := Option.map_eq_some_iff.mp shown
  exact Expr.bindMember_record ((e.find?_seen name).trans (congrArg (Option.map e.slot) found))

end Entity

namespace Association

def Paired (owner target : Entity) (rel source : Alias) (key : String × String) (columns : Column × Column) :
    Prop :=
  target.seenColumn source key.2 = some columns.1 ∧ owner.seenColumn rel key.1 = some columns.2

variable {a : Association} {owner target : Entity}

theorem exists_paired (keys : ∀ key ∈ a.keys, owner.hasMember key = true)
    (related : ∀ key ∈ a.relatedKeys, target.hasMember key = true) (rel source : Alias) :
    ∃ columns, List.Forall₂ (Paired owner target rel source) (a.keys.zip a.relatedKeys) columns := by
  have mapped : ∀ key ∈ a.keys.zip a.relatedKeys, ∃ columns, Paired owner target rel source key columns := by
    rintro ⟨key, other⟩ hkey
    obtain ⟨c, hc⟩ := Entity.exists_seenColumn source (related other (List.of_mem_zip hkey).2)
    obtain ⟨c', hc'⟩ := Entity.exists_seenColumn rel (keys key (List.of_mem_zip hkey).1)
    exact ⟨(c, c'), hc, hc'⟩
  generalize a.keys.zip a.relatedKeys = pairs at mapped
  induction pairs with
  | nil => exact ⟨[], .nil⟩
  | cons key rest ih =>
    obtain ⟨columns, first⟩ := mapped key (by simp)
    obtain ⟨others, hothers⟩ := ih fun key hkey => mapped key (by simp [hkey])
    exact ⟨columns :: others, .cons first hothers⟩

/-- The condition compares the columns of each pair of keys. -/
theorem condition?_paired {rel source : Alias} {columns : List (Column × Column)}
    (paired : List.Forall₂ (Paired owner target rel source) (a.keys.zip a.relatedKeys) columns) :
    a.condition? (.record owner.name rel owner.seen) (.record target.name source target.seen)
      = Expr.conjoin? (columns.map fun c => .equals (.column c.1) (.column c.2)) := by
  refine congrArg Expr.conjoin? ?_
  generalize a.keys.zip a.relatedKeys = pairs at paired
  induction paired with
  | nil => rfl
  | cons pair _ ih =>
    rw [List.map_cons, List.map_cons, ih]
    dsimp only
    rw [Entity.bindMember_seen pair.1, Entity.bindMember_seen pair.2]

end Association

variable {c : Config} {m : Mapping} {e : Entity}

theorem entity?_ofConfig (sound : ofConfig c = .ok m) (distinct : (c.entities.map (·.name)).Nodup)
    (he : e ∈ c.entities) : m.entity? e.name = some e := by
  rw [entity?, (entities_ofConfig sound distinct).2]
  exact find?_named distinct he

theorem association?_ofConfig (sound : ofConfig c = .ok m) (distinct : (c.entities.map (·.name)).Nodup)
    (he : e ∈ c.entities) (apart : (e.associations.map (·.name)).Nodup) {a : Association}
    (ha : a ∈ e.associations) : m.association? e.name a.name = some a := by
  rw [association?, entity?_ofConfig sound distinct he]
  exact find?_named apart ha

theorem Config.keys_ne_nil (filled : c.isFilled = true) (he : e ∈ c.entities) {a : Association}
    (ha : a ∈ e.associations) : a.keys ≠ [] := by
  simp only [isFilled, Entity.isFilled, Association.isFilled, Bool.and_eq_true, List.all_eq_true] at filled
  simpa using ((filled.2 e he).2 a ha).1.2

/-- Each entity of an accepted configuration is bound by its name to its own rows. -/
theorem relation_ofConfig (sound : ofConfig c = .ok m) (distinct : (c.entities.map (·.name)).Nodup)
    (he : e ∈ c.entities) (n : Nat) :
    (m.relation e.name).run ⟨n⟩ = .ok (e.rows ⟨n + 1⟩ ⟨n⟩, ⟨n + 2⟩) := by
  refine relation_run ?_ n
  rw [resolve, entity?_ofConfig sound distinct he]
  rfl

/-- Each association of an accepted configuration leads from the rows of its entity to its target. The filter
is a conjunction of one equality of two columns for each pair of keys. -/
theorem bindMember_ofConfig (sound : ofConfig c = .ok m) (distinct : (c.entities.map (·.name)).Nodup)
    (he : e ∈ c.entities) (apart : (e.associations.map (·.name)).Nodup) {a : Association}
    (ha : a ∈ e.associations) (rel table : Alias) (n : Nat) :
    ∃ target ∈ c.entities, target.name = a.target
      ∧ ∃ columns, columns ≠ [] ∧ columns.length = a.keys.length
      ∧ List.Forall₂ (Association.Paired e target rel ⟨n + 1⟩) (a.keys.zip a.relatedKeys) columns
      ∧ (m.bindMember (e.rows rel table).projector e.name a.name).run ⟨n⟩ = .ok
        (.projection ⟨.forwarding ⟨n + 2⟩ ⟨n + 1⟩ target.inner (.select (target.rows ⟨n + 1⟩ ⟨n⟩).select)
            (Expr.conjoin? (columns.map fun c => .equals (.column c.1) (.column c.2))),
          .record target.name ⟨n + 2⟩ target.reseen, a.pick⟩, ⟨n + 3⟩) := by
  obtain ⟨checked, entities⟩ := entities_ofConfig sound distinct
  obtain ⟨filled, checked⟩ := Config.associations_of_check checked he ha
  obtain ⟨same, keys, target, found, related⟩ := Config.keys_of_checkAssociation checked
  obtain ⟨columns, paired⟩ := Association.exists_paired keys related rel ⟨n + 1⟩
  have length : columns.length = a.keys.length := by
    rw [← paired.length_eq, List.length_zip, ← same, Nat.min_self]
  refine ⟨target, List.mem_of_find?_eq_some found, by simpa using List.find?_some found, columns, ?_, length,
    paired, ?_⟩
  · rw [← List.length_pos_iff, length, List.length_pos_iff]
    exact Config.keys_ne_nil filled he ha
  · have resolved : m.resolve a.target = .ok target := by
      rw [resolve, entity?, entities, found]
      rfl
    rw [bindMember, association?_ofConfig sound distinct he apart ha, ← Association.condition?_paired paired]
    exact navigate_run resolved _ n

end Mapping

end ObjectQuery
