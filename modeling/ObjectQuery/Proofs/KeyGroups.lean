import ObjectQuery.Proofs.Conditions
import ObjectQuery.Proofs.KeyOrder

/-!
Groups of equal keys. The group of the first key takes everything with that key, and what is left is
grouped in the same way. So the keys come in the order in which they first appear, every group keeps
the order of its items, and nothing is lost.
-/

namespace ObjectQuery

open Eval

namespace KeyType

variable {t : KeyType} {a b : Value}

theorem beq_iff (ha : t.admits a) (hb : t.admits b) : (a == b) = true ↔ a = b := by
  cases t <;> cases a <;> simp only [admits] at ha <;> cases b <;> simp only [admits] at hb <;>
    simp [BEq.beq, Value.same]

/-- As keys, two values of one type are equal where they are the same. -/
theorem keysEqual_singleton (ha : t.admits a) (hb : t.admits b) :
    Value.keysEqual [a] [b] = (a == b) := by
  have equal : ∀ {o : Ordering}, Value.compare a b = .ok (some o) → Value.isEqual a b = (o == .eq) := by
    intro o h
    rw [Value.isEqual_of_compare h]
    cases o <;> rfl
  cases t <;> cases a <;> simp only [admits] at ha <;> cases b <;> simp only [admits] at hb
  case bool.bool.bool x y => revert x y; decide
  case int.int.int x y | text.text.text x y =>
    simp only [Value.keysEqual, equal rfl, Bool.and_true]
    rw [Bool.eq_iff_iff]
    simp [BEq.beq, Value.same]
  all_goals rfl

/-- Values of one type can be compared. -/
theorem exists_compare (ha : t.admits a) (hb : t.admits b) : ∃ o, Value.compare a b = .ok o := by
  cases t <;> cases a <;> simp only [admits] at ha <;> cases b <;> simp only [admits] at hb <;> exact ⟨_, rfl⟩

/-- Values of one type are shown as different objects. -/
theorem ofValue_injOn (ha : t.admits a) (hb : t.admits b)
    (h : ClientValue.ofValue a = ClientValue.ofValue b) : a = b := by
  cases t <;> cases a <;> simp only [admits] at ha <;> cases b <;> simp only [admits] at hb <;>
    simp_all [ClientValue.ofValue]

end KeyType

section Items

variable {α β : Type} [BEq β] {key : α → β}

/-- To group items, those with the key of the first one are put aside before the rest is grouped. -/
theorem groups_induction {motive : List α → Prop} (key : α → β) (nil : motive [])
    (cons : ∀ a rest, motive (rest.filter (!key · == key a)) → motive (a :: rest)) (items : List α) :
    motive items := by
  induction hn : items.length using Nat.strong_induction_on generalizing items with
  | h n ih =>
    cases items with
    | nil => exact nil
    | cons a rest =>
      refine cons a rest (ih _ ?_ _ rfl)
      rw [← hn]
      exact Nat.lt_succ_of_le (List.length_filter_le _ _)

/-- The keys after the first one, each at the first item that has it. -/
theorem eraseDups_keys (a : α) (rest : List α) :
    ((a :: rest).map key).eraseDups
      = key a :: ((rest.filter (!key · == key a)).map key).eraseDups := by
  rw [List.map_cons, List.eraseDups_cons, List.filter_map]
  rfl

theorem eraseDups_subset (keys : List β) : keys.eraseDups ⊆ keys := by
  refine groups_induction (motive := fun keys => keys.eraseDups ⊆ keys) id (fun _ h => h)
    (fun k rest ih => ?_) keys
  rw [List.eraseDups_cons]
  exact List.cons_subset_cons _ fun _ h => List.mem_of_mem_filter (ih h)

end Items

section Typed

variable {α : Type} {key : α → Value} {t : KeyType} {items : List α}

/-- A group after the first one is a group of what the first one left. -/
theorem later_group {a : α} {rest : List α} (typed : ∀ b ∈ a :: rest, t.admits (key b)) {k : Value}
    (hk : k ∈ ((rest.filter (!key · == key a)).map key).eraseDups) :
    (a :: rest).filter (key · == k) = (rest.filter (!key · == key a)).filter (key · == k) := by
  obtain ⟨b, hb, rfl⟩ := List.mem_map.mp (eraseDups_subset _ hk)
  obtain ⟨hb, other⟩ := List.mem_filter.mp hb
  have first := typed a (by simp)
  have hb := typed b (by simp [hb])
  have ne : key b ≠ key a := fun h => by simp [(KeyType.beq_iff hb first).mpr h] at other
  have apart : (key a == key b) = false := by
    rw [Bool.eq_false_iff, ne_eq, KeyType.beq_iff first hb]
    exact ne.symm
  rw [List.filter_cons, apart, if_neg (by simp), List.filter_filter]
  refine List.filter_congr fun c hc => ?_
  have hc := typed c (by simp [hc])
  cases same : key c == key b with
  | false => simp
  | true =>
    rw [(KeyType.beq_iff hc hb).mp same]
    simp [Bool.eq_false_iff, KeyType.beq_iff hb first, ne]

theorem nodup_eraseDups_keys (typed : ∀ a ∈ items, t.admits (key a)) : (items.map key).eraseDups.Nodup := by
  induction items using groups_induction key with
  | nil => simp
  | cons a rest ih =>
    rw [eraseDups_keys, List.nodup_cons]
    refine ⟨fun h => ?_, ih fun b hb => typed b (by simp [List.mem_of_mem_filter hb])⟩
    obtain ⟨b, hb, same⟩ := List.mem_map.mp (eraseDups_subset _ h)
    obtain ⟨hb, other⟩ := List.mem_filter.mp hb
    have equal := (KeyType.beq_iff (typed b (by simp [hb])) (typed a (by simp))).mpr same
    simp [equal] at other

/-- Every item is in the group of its key, once. -/
theorem perm_groups (typed : ∀ a ∈ items, t.admits (key a)) :
    ((items.map key).eraseDups.flatMap fun k => items.filter (key · == k)).Perm items := by
  induction items using groups_induction key with
  | nil => exact .refl _
  | cons a rest ih =>
    have left := ih fun b hb => typed b (by simp [List.mem_of_mem_filter hb])
    have own : (key a == key a) = true :=
      (KeyType.beq_iff (typed a (by simp)) (typed a (by simp))).mpr rfl
    have others : (a :: rest).filter (!key · == key a) = rest.filter (!key · == key a) := by
      simp [own]
    rw [eraseDups_keys, List.flatMap_cons, List.flatMap_congr fun k hk => later_group typed hk]
    refine (left.append_left _).trans ?_
    rw [← others]
    exact List.filter_append_perm _ _

end Typed

namespace Eval

/-- Adding frames to groups: those with the key of the first group go there. -/
theorem foldl_addToGroup (keyed : List (List Value × Frame)) (key : List Value) (frames : List Frame)
    (groups : List (List Value × List Frame)) :
    keyed.foldl (fun groups (key, frame) => addToGroup key frame groups) ((key, frames) :: groups)
      = (key, frames ++ (keyed.filter (Value.keysEqual key ·.1)).map (·.2))
        :: (keyed.filter (!Value.keysEqual key ·.1)).foldl
          (fun groups (key, frame) => addToGroup key frame groups) groups := by
  induction keyed generalizing frames groups with
  | nil => simp
  | cons x rest ih =>
    cases equal : Value.keysEqual key x.1 with
    | true => simp [addToGroup, equal, ih]
    | false => simp [addToGroup, equal, ih]

/-- The first group takes every frame with its key. -/
theorem groupFrames_cons (key : List Value) (frame : Frame) (keyed : List (List Value × Frame)) :
    groupFrames ((key, frame) :: keyed)
      = (key, frame :: (keyed.filter (Value.keysEqual key ·.1)).map (·.2))
        :: groupFrames (keyed.filter (!Value.keysEqual key ·.1)) := by
  rw [groupFrames, List.foldl_cons]
  exact foldl_addToGroup keyed key [frame] []

/-- Frames without a key are one group. -/
theorem groupFrames_keyless (frames : List Frame) :
    groupFrames (frames.map fun f => ([], f)) = if frames.isEmpty then [] else [([], frames)] := by
  cases frames with
  | nil => rfl
  | cons f rest =>
    rw [List.map_cons, groupFrames_cons]
    simp [List.filter_map, Function.comp_def, Value.keysEqual, groupFrames]

/-- Items that are grouped by one key of one type: a group for each key, in the order of the first
items with it. -/
theorem groupFrames_eq {α : Type} {key : α → Value} {t : KeyType} (frame : α → Frame)
    {items : List α} (typed : ∀ a ∈ items, t.admits (key a)) :
    groupFrames (items.map fun a => ([key a], frame a))
      = (items.map key).eraseDups.map fun k => ([k], (items.filter (key · == k)).map frame) := by
  induction items using groups_induction key with
  | nil => rfl
  | cons a rest ih =>
    have first := typed a (by simp)
    have others : ∀ b ∈ rest, Value.keysEqual [key a] [key b] = (key b == key a) := by
      intro b hb
      have hb := typed b (by simp [hb])
      rw [KeyType.keysEqual_singleton first hb, Bool.eq_iff_iff, KeyType.beq_iff first hb,
        KeyType.beq_iff hb first, eq_comm]
    have same : rest.filter (fun b => Value.keysEqual [key a] [key b])
        = rest.filter (key · == key a) := List.filter_congr others
    have left : rest.filter (fun b => !Value.keysEqual [key a] [key b])
        = rest.filter (!key · == key a) :=
      List.filter_congr fun b hb => by rw [others b hb]
    have own : (key a == key a) = true := (KeyType.beq_iff first first).mpr rfl
    rw [List.map_cons, groupFrames_cons, List.filter_map, List.filter_map]
    simp only [Function.comp_def]
    rw [same, left, ih fun b hb => typed b (by simp [List.mem_of_mem_filter hb]), eraseDups_keys,
      List.map_cons]
    refine congrArg₂ _ (by simp [own]) (List.map_congr_left fun k hk => ?_)
    rw [later_group typed hk]

end Eval

end ObjectQuery
