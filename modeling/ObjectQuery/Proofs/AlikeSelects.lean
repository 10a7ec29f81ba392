import ObjectQuery.Proofs.Comparison
import ObjectQuery.Proofs.Lockstep
import ObjectQuery.Sample
import Mathlib.Data.List.Nodup

/-!
Selects that are alike up to the aliases they declare have the same rows. The partners that the
comparison found relate the aliases of the one select to those of the other, one to one, and every other
alias to itself. Under this relation the two selects are evaluated in lockstep, and it can be read from
either side.
-/

namespace ObjectQuery

open Eval

/-- An alias under which a row is in sight, in the scope or in a frame of its group. -/
def Scope.Binds (σ : Scope) (a : Alias) : Prop :=
  a ∈ σ.rows.map (·.1) ∨ ∃ frames ∈ σ.group, ∃ f ∈ frames, a ∈ f.map (·.1)

abbrev Frame.Exchanged (A : Alias → Alias → Prop) : Frame → Frame → Prop :=
  List.Forall₂ fun x x' => A x.1 x'.1 ∧ x.2 = x'.2

section Exchanged

variable {A : Alias → Alias → Prop}

theorem Frame.exchanged_refl {f : Frame} (h : ∀ a ∈ f.map (·.1), A a a) : f.Exchanged A f :=
  List.forall₂_same.mpr fun _ hx => ⟨h _ (List.mem_map_of_mem hx), rfl⟩

def Lockstep.exchanging (A : Alias → Alias → Prop) (unique : Relator.BiUnique A) : Lockstep where
  named := A
  reads := A
  frame := Frame.Exchanged A
  rows := Frame.Exchanged A
  number := Eq
  nil := .nil
  single related _ := .cons ⟨related, rfl⟩ .nil
  append hf hg := List.rel_append hf hg
  extend hf hr := List.rel_append (List.rel_reverse hf) hr
  lookup h hab := lookup_exchanged unique h hab
  renumber _ := rfl

/-- A scope whose aliases keep their names is its own counterpart. -/
theorem Lockstep.scopes_refl (unique : Relator.BiUnique A) {σ : Scope} (kept : ∀ a, σ.Binds a → A a a) :
    (exchanging A unique).Scopes σ σ := by
  refine ⟨Frame.exchanged_refl fun a ha => kept a (.inl ha), ?_, rfl⟩
  have group : ∀ frames ∈ σ.group, ∀ f ∈ frames, f.Exchanged A f := fun frames hg f hf =>
    Frame.exchanged_refl fun a ha => kept a (.inr ⟨frames, hg, f, hf, ha⟩)
  exact optionRel_refl_mem fun frames hg => List.forall₂_same.mpr (group frames hg)

/-- Selects under exchanged names, evaluated in the same scope. -/
theorem Lockstep.select_follows {tables : Tables} (unique : Relator.BiUnique A) {s s' : Select Expr}
    (paired : (Part.select s).Paired A A Expr.ValuelessBoth (.select s')) {σ : Scope}
    (kept : ∀ a, σ.Binds a → A a a) : Follows Eq (select tables s σ) (select tables s' σ) := by
  have pairs : (exchanging A unique).SelectPairs tables s s' :=
    (matches_of_paired paired fun _ _ h => h).of_select
  exact pairs.rows σ σ (scopes_refl unique kept)

/-- Selects under exchanged names have the same rows in the same scope, or both fail. -/
theorem Select.rows_eq_of_paired {tables : Tables} (unique : Relator.BiUnique A) {s s' : Select Expr}
    (paired : (Part.select s).Paired A A Expr.ValuelessBoth (.select s')) {σ : Scope}
    (kept : ∀ a, σ.Binds a → A a a) (rows : List Row) :
    select tables s σ = .ok rows ↔ select tables s' σ = .ok rows := by
  have swapped : Relator.BiUnique (flip A) :=
    ⟨fun _ _ _ h h' => unique.2 h h', fun _ _ _ h h' => unique.1 h h'⟩
  have forth : Follows Eq (select tables s σ) (select tables s' σ) :=
    Lockstep.select_follows unique paired kept
  have back : Follows Eq (select tables s' σ) (select tables s σ) :=
    Lockstep.select_follows swapped (paired.flip fun _ _ h => h.symm) kept
  exact ⟨fun h => back.eq_ok h, fun h => forth.eq_ok h⟩

end Exchanged

def Partners.Exchange (F : Partners) (own : List Alias) (a b : Alias) : Prop :=
  (a, b) ∈ F ∨ a = b ∧ a ∉ own

section Exchange

variable {F : Partners} {ds ds' : List Alias}

theorem nodup_of_subperm {α : Type} {as bs : List α} (nodup : bs.Nodup) (h : as.Subperm bs) : as.Nodup := by
  obtain ⟨cs, perm, sub⟩ := h
  exact perm.nodup_iff.mp (nodup.sublist sub)

/-- Partners of distinct aliases are one to one. -/
theorem Partners.exchange_unique (nodup : ds.Nodup) (nodup' : ds'.Nodup)
    (left : (F.map (·.1)).Subperm ds) (right : (F.map (·.2)).Subperm ds') :
    Relator.BiUnique (F.Exchange (ds ++ ds')) := by
  have left_mem : ∀ {a b}, (a, b) ∈ F → a ∈ ds := fun h => left.subset (List.mem_map_of_mem h)
  have right_mem : ∀ {a b}, (a, b) ∈ F → b ∈ ds' := fun h => right.subset (List.mem_map_of_mem h)
  have left_inj := List.inj_on_of_nodup_map (nodup_of_subperm nodup left)
  have right_inj := List.inj_on_of_nodup_map (nodup_of_subperm nodup' right)
  refine ⟨fun a c b ha hc => ?_, fun a b c hb hc => ?_⟩
  · rcases ha with ha | ⟨rfl, own⟩
    · rcases hc with hc | ⟨rfl, own⟩
      · exact congrArg (·.1) (right_inj ha hc rfl)
      · exact absurd (List.mem_append_right _ (right_mem ha)) own
    · rcases hc with hc | ⟨rfl, -⟩
      · exact absurd (List.mem_append_right _ (right_mem hc)) own
      · rfl
  · rcases hb with hb | ⟨rfl, own⟩
    · rcases hc with hc | ⟨rfl, own⟩
      · exact congrArg (·.2) (left_inj hb hc rfl)
      · exact absurd (List.mem_append_left _ (left_mem hb)) own
    · rcases hc with hc | ⟨rfl, -⟩
      · exact absurd (List.mem_append_left _ (left_mem hc)) own
      · rfl

end Exchange

/-- Selects that are alike have the same rows, or both fail. Each declares every alias once, neither
refers to what the other one declares, and the scope binds nothing that they declare; that the first one
holds no float is enough, since its partner holds the same constants. -/
theorem Select.rows_eq_of_alike {s s' : Select Expr} (tables : Tables) (σ : Scope)
    (floatless : (Part.select s).Every Part.Floatless)
    (nodup : (Part.select s).declared.Nodup) (nodup' : (Part.select s').declared.Nodup)
    (apart : ∀ a ∈ (Part.select s).declared, a ∉ (Part.select s').references)
    (apart' : ∀ a ∈ (Part.select s').declared, a ∉ (Part.select s).references)
    (unbound : ∀ a ∈ (Part.select s).declared ++ (Part.select s').declared, ¬ σ.Binds a)
    (alike : (Expr.select s).alike (.select s') = true) (rows : List Row) :
    select tables s σ = .ok rows ↔ select tables s' σ = .ok rows := by
  obtain ⟨F, found⟩ := Option.isSome_iff_exists.mp alike
  have compared : (Part.select s).Compared [] F (.select s') := compared_of_match? floatless found
  obtain ⟨added, hF, left, right⟩ := compared.grown
  obtain rfl : added = F := by rw [hF, List.append_nil]
  have unique := Partners.exchange_unique nodup nodup' left right
  -- An alias that both sides refer to under the same name is declared by neither.
  have paired : (Part.select s).Paired
      (added.Exchange ((Part.select s).declared ++ (Part.select s').declared))
      (added.Exchange ((Part.select s).declared ++ (Part.select s').declared))
      Expr.ValuelessBoth (.select s') := by
    refine (compared.paired added fun _ h => h).mono (fun _ _ _ _ h => .inl h) ?_
    rintro a ha b hb (mem | rfl)
    · exact .inl mem
    · refine .inr ⟨rfl, fun own => ?_⟩
      rcases List.mem_append.mp own with own | own
      · exact apart a own hb
      · exact apart' a own ha
  exact rows_eq_of_paired unique paired (fun a bound => .inr ⟨rfl, fun own => unbound a own bound⟩) rows

namespace Sample

def leaders (rel employee team member : Alias) : Select Expr :=
  { rel
    columns := [⟨"Name", .column ⟨employee, "Name", .text⟩, .text⟩,
      ⟨"Place", .rowNumber [⟨.descending, .column ⟨employee, "ID", .int⟩⟩], .int⟩]
    source := some (.table ⟨employee, "Employee", "Staff"⟩)
    filter := some (.both (.equals (.column ⟨employee, "boss_id", .int⟩) (.column ⟨⟨9⟩, "ID", .int⟩))
      (.existsIn (.plain team [⟨"One", .int 1, .int⟩] (some (.table ⟨member, "Employee", "Staff"⟩))
        (some (.equals (.column ⟨member, "boss_id", .int⟩) (.column ⟨employee, "ID", .int⟩))))))
    orderBy := [⟨.ascending, .column ⟨employee, "Name", .text⟩⟩]
    groupBy := [], distinct := false, skip := none, take := some (.int 3), reversed := false }

def underFirst : Scope := ⟨[(⟨9⟩, staff.head?)], none, none⟩

theorem floatless_leaders (rel employee team member : Alias) :
    (Part.select (leaders rel employee team member)).Every Part.Floatless := by
  simp [leaders, Part.every_iff (p := .expr _), Part.every_iff (p := .select _), Part.parts, Select.exprs,
    Expr.equals, Expr.both, Expr.int, Select.plain, Part.Floatless, Value.Exact.int]

/-- The leaders are the same under any two sets of names. -/
theorem rows_leaders : ∃ rows, rows.map Row.head == [.text "Bob"]
    ∧ select tables (leaders ⟨1⟩ ⟨2⟩ ⟨3⟩ ⟨4⟩) underFirst = .ok rows
    ∧ select tables (leaders ⟨5⟩ ⟨6⟩ ⟨7⟩ ⟨8⟩) underFirst = .ok rows := by
  have some_row : (select tables (leaders ⟨1⟩ ⟨2⟩ ⟨3⟩ ⟨4⟩) underFirst).toOption.any
      (fun rows => rows.map Row.head == [.text "Bob"]) = true := by
    decide +kernel
  obtain ⟨rows, h, bob⟩ := exists_ok_of_any some_row
  refine ⟨rows, bob, h, ?_⟩
  have unbound : ∀ a ∈ (Part.select (leaders ⟨1⟩ ⟨2⟩ ⟨3⟩ ⟨4⟩)).declared
      ++ (Part.select (leaders ⟨5⟩ ⟨6⟩ ⟨7⟩ ⟨8⟩)).declared, ¬ underFirst.Binds a := by
    have outside : ∀ a ∈ (Part.select (leaders ⟨1⟩ ⟨2⟩ ⟨3⟩ ⟨4⟩)).declared
        ++ (Part.select (leaders ⟨5⟩ ⟨6⟩ ⟨7⟩ ⟨8⟩)).declared, a ≠ ⟨9⟩ := by
      decide +kernel
    rintro a ha (bound | ⟨frames, hg, -⟩)
    · exact outside a ha (by simpa [underFirst] using bound)
    · cases hg
  exact (Select.rows_eq_of_alike tables underFirst (floatless_leaders _ _ _ _) (by decide +kernel)
    (by decide +kernel) (by decide +kernel) (by decide +kernel) unbound (by decide +kernel) rows).mp h

end Sample

end ObjectQuery
