import ObjectQuery.Proofs.Comparison
import ObjectQuery.Proofs.Copies
import ObjectQuery.Proofs.Expansion
import ObjectQuery.Sample
import Mathlib.Logic.Relator

/-!
A copy under new names is alike its original, seen from either side. A comparison meets the names of a
tree in one fixed order, and it can pair an alias only after it has met its declaration; so it must not
meet a reference before that.
-/

namespace ObjectQuery

inductive Event
  | declares (a : Alias)
  | refers (a : Alias)
deriving DecidableEq

inductive Event.Related (A : Alias → Alias → Prop) : Event → Event → Prop
  | declares {a b : Alias} : A a b → Related A (.declares a) (.declares b)
  | refers {a b : Alias} : A a b → Related A (.refers a) (.refers b)

namespace Part

def events (p : Part) : List Event :=
  p.reads.map .refers ++ (p.parts.attach.flatMap fun ⟨q, _⟩ => events q) ++ p.binds.map .declares
termination_by p.weight
decreasing_by exact weight_lt ‹_›

theorem events_eq (p : Part) :
    p.events = p.reads.map .refers ++ p.parts.flatMap events ++ p.binds.map .declares := by
  rw [events]
  simp

end Part

def Settled (known : Alias → Prop) (es : List Event) : Prop :=
  ∀ before a after, es = before ++ .refers a :: after → known a ∨ .declares a ∈ before

namespace Settled

variable {known known' : Alias → Prop} {es fs : List Event}

theorem left (h : Settled known (es ++ fs)) : Settled known es := by
  intro before a after split
  refine h before a (after ++ fs) ?_
  rw [split, List.append_assoc, List.cons_append]

theorem right (h : Settled known (es ++ fs)) : Settled (fun a => known a ∨ .declares a ∈ es) fs := by
  intro before a after split
  have found := h (es ++ before) a after (by rw [split, List.append_assoc])
  rw [List.mem_append] at found
  exact or_assoc.mpr found

theorem mono (h : Settled known es) (sub : ∀ a, known a → known' a) : Settled known' es :=
  fun before a after split => (h before a after split).imp_left (sub a)

@[simp] theorem nil : Settled known [] := by
  intro before a after split
  simp at split

@[simp] theorem refers_cons {a : Alias} :
    Settled known (.refers a :: es) ↔ known a ∧ Settled known es := by
  refine ⟨fun h => ⟨by simpa using h [] a es rfl, ?_⟩, ?_⟩
  · have rest : Settled (fun b => known b ∨ .declares b ∈ [Event.refers a]) es := right h
    exact rest.mono fun b hb => by simpa using hb
  · rintro ⟨here, rest⟩ before b after split
    cases before with
    | nil =>
      cases split
      exact .inl here
    | cons e before =>
      cases split
      exact (rest before b after rfl).imp_right (List.mem_cons_of_mem _)

@[simp] theorem declares_cons {a : Alias} :
    Settled known (.declares a :: es) ↔ Settled (fun b => known b ∨ b = a) es := by
  refine ⟨fun h => ?_, fun rest before b after split => ?_⟩
  · have rest : Settled (fun b => known b ∨ .declares b ∈ [Event.declares a]) es := right h
    exact rest.mono fun b hb => by simpa using hb
  cases before with
  | nil => cases split
  | cons e before =>
    cases split
    rcases rest before b after rfl with (hb | rfl) | hb
    · exact .inl hb
    · exact .inr List.mem_cons_self
    · exact .inr (List.mem_cons_of_mem _ hb)

theorem refers_append {as : List Alias} :
    Settled known (as.map .refers ++ es) ↔ (∀ a ∈ as, known a) ∧ Settled known es := by
  induction as with
  | nil => simp
  | cons a as ih => simp [ih, and_assoc]

/-- Events under other names are settled as well. -/
theorem of_related {A : Alias → Alias → Prop} (unique : Relator.RightUnique A)
    (settled : Settled known es)
    (related : List.Forall₂ (Event.Related A) es fs)
    (sub : ∀ a b, A a b → known a → known' b) : Settled known' fs := by
  induction related generalizing known known' with
  | nil => exact nil
  | cons head _ ih =>
    cases head with
    | declares hab =>
      refine declares_cons.mpr (ih (declares_cons.mp settled) fun x y hxy hx => ?_)
      rcases hx with hx | rfl
      · exact .inl (sub x y hxy hx)
      · exact .inr (unique hxy hab)
    | refers hab =>
      obtain ⟨here, rest⟩ := refers_cons.mp settled
      exact refers_cons.mpr ⟨sub _ _ hab here, ih rest sub⟩

end Settled

structure Partners.Covers (P : Partners) (A : Alias → Alias → Prop) (known : Alias → Prop) : Prop where
  related : ∀ a b, (a, b) ∈ P → A a b
  known : ∀ a, known a → a ∈ P.map (·.1) ∨ ∀ b, A a b → a = b

namespace Partners.Covers

variable {P : Partners} {A : Alias → Alias → Prop} {known known' : Alias → Prop} {a b : Alias}

theorem agree (h : P.Covers A known) (unique : Relator.RightUnique A) (hk : known a) (hab : A a b) :
    P.agree a b = true := by
  rw [Partners.agree]
  split
  · rename_i partner found
    exact beq_iff_eq.mpr (unique (h.related _ _ (mem_of_lookup found)) hab)
  · rename_i missing
    rcases h.known a hk with mem | kept
    · obtain ⟨x, hx, rfl⟩ := List.mem_map.mp mem
      simpa using List.lookup_eq_none_iff.mp missing x hx
    · exact beq_iff_eq.mpr (kept b hab)

theorem agreeAll (h : P.Covers A known) (unique : Relator.RightUnique A) {as bs : List Alias}
    (hk : ∀ a ∈ as, known a) (hab : List.Forall₂ A as bs) : P.agreeAll as bs = true := by
  refine List.all_eq_true.mpr fun x hx => ?_
  exact h.agree unique (hk _ (List.of_mem_zip hx).1) ((List.forall₂_iff_zip.mp hab).2 hx)

theorem declare (h : P.Covers A known) {as bs : List Alias} (hab : List.Forall₂ A as bs) :
    Partners.Covers (as.zip bs ++ P) A fun a => known a ∨ a ∈ as := by
  obtain ⟨lengths, related⟩ := List.forall₂_iff_zip.mp hab
  refine ⟨fun a b mem => ?_, fun a ha => ?_⟩
  · exact (List.mem_append.mp mem).elim related (h.related a b)
  · rw [List.map_append, List.map_fst_zip (Nat.le_of_eq lengths), List.mem_append]
    rcases ha with ha | ha
    · exact (h.known a ha).imp_left .inr
    · exact .inl (.inl ha)

theorem mono (h : P.Covers A known) (sub : ∀ a, known' a → known a) : P.Covers A known' :=
  ⟨h.related, fun a ha => h.known a (sub a ha)⟩

end Partners.Covers

namespace Part

variable {A : Alias → Alias → Prop}

def Matched (A : Alias → Alias → Prop) (p p' : Part) : Prop :=
  ∀ (P : Partners) (known : Alias → Prop), P.Covers A known → Settled known p.events →
    ∃ P', p.match? P p' = some P' ∧ P'.Covers A fun a => known a ∨ .declares a ∈ p.events

theorem matched_parts {ps ps' : List Part} (lengths : ps.length = ps'.length)
    (step : ∀ q q', (q, q') ∈ ps.zip ps' → Matched A q q') {P : Partners} {known : Alias → Prop}
    (covers : P.Covers A known) (settled : Settled known (ps.flatMap events)) :
    ∃ P', matchParts? P ps ps' = some P'
      ∧ P'.Covers A fun a => known a ∨ .declares a ∈ ps.flatMap events := by
  induction ps generalizing P known ps' with
  | nil =>
    cases ps' with
    | nil => exact ⟨P, rfl, covers.mono fun a ha => by simpa using ha⟩
    | cons _ _ => simp at lengths
  | cons p ps ih =>
    cases ps' with
    | nil => simp at lengths
    | cons p' ps' =>
      rw [List.flatMap_cons] at settled
      obtain ⟨P₁, head, covers₁⟩ := step p p' (by simp) P known covers settled.left
      obtain ⟨P₂, rest, covers₂⟩ := ih (by simpa using lengths)
        (fun q q' hq => step q q' (List.mem_cons_of_mem _ hq)) covers₁ settled.right
      refine ⟨P₂, ?_, covers₂.mono fun a ha => ?_⟩
      · rw [matchParts?, head, Option.bind_some, rest]
      · rwa [List.flatMap_cons, List.mem_append, ← or_assoc] at ha

theorem match?_rigid {D R : Alias → Alias → Prop} {e e' : Expr} (kin : (Part.expr e).Kin D R (.expr e'))
    (relational : Relational (.expr e)) (rigid : e.Rigid) (P : Partners) :
    (Part.expr e).match? P (.expr e') = some P ∧ (Part.expr e).events = [] := by
  cases kin with
  | expr renamed like =>
    cases e with
    | const v =>
      cases renamed
      cases like
      have same : v.same v = true := Value.Exact.same_self relational
      simp [match?, Expr.match?_rigid rigid, keepIf, BEq.beq, Expr.same, same, events_eq, reads, binds, parts]
    | param n =>
      cases renamed
      cases like
      simp [match?, Expr.match?_rigid rigid, keepIf, BEq.beq, Expr.same, events_eq, reads, binds, parts]
    | lambda _ | operator _ | command _ => exact relational.elim
    | _ => exact rigid.elim

/-- Paired trees compare alike when no reference comes too early. -/
theorem Paired.matched (unique : Relator.RightUnique A) {p p' : Part}
    (h : p.Paired A A (fun _ _ => False) p') (relational : p.Every Relational) : Matched A p p' := by
  induction h with
  | given h => exact h.elim
  | @node p p' kin lengths _ ih =>
    intro P known covers settled
    by_cases rigid : ∃ e, p = .expr e ∧ e.Rigid
    · obtain ⟨e, rfl, rigid⟩ := rigid
      obtain ⟨e', rfl⟩ : ∃ e', p' = .expr e' := by
        cases kin
        exact ⟨_, rfl⟩
      obtain ⟨same, none⟩ := match?_rigid kin relational.here rigid P
      exact ⟨P, same, covers.mono fun a ha => by simpa [none] using ha⟩
    have loose : ∀ e, p = .expr e → ¬ e.Rigid := fun e he hr => rigid ⟨e, he, hr⟩
    have step : ∀ q q', (q, q') ∈ p.parts.zip p'.parts → Matched A q q' := fun q q' hq =>
      ih q q' hq (relational.part (List.of_mem_zip hq).1)
    rw [events_eq, List.append_assoc] at settled
    obtain ⟨reads, rest⟩ := Settled.refers_append.mp settled
    obtain ⟨P₁, parts, covers₁⟩ := matched_parts lengths step covers rest.left
    refine ⟨p.binds.zip p'.binds ++ P₁, ?_, (covers₁.declare kin.binds).mono fun a ha => ?_⟩
    · rw [match?_eq kin loose, covers.agreeAll unique reads kin.reads]
      simp [keepIf, parts]
    · rw [events_eq] at ha
      simpa [or_assoc] using ha

theorem Kin.relational {D R : Alias → Alias → Prop} {p p' : Part} (h : p.Kin D R p')
    (relational : p.Relational) : p'.Relational := by
  cases h with
  | expr renamed like =>
    cases renamed <;> cases like <;> exact relational
  | select _ _ | projection _ => trivial

theorem Paired.relational {D R : Alias → Alias → Prop} {p p' : Part}
    (h : p.Paired D R (fun _ _ => False) p') (relational : p.Every Relational) : p'.Every Relational := by
  induction h with
  | given h => exact h.elim
  | @node p p' kin lengths _ ih =>
    refine .node (kin.relational relational.here) fun q' hq' => ?_
    obtain ⟨q, -, hq⟩ := exists_of_forall₂_right
      (List.forall₂_iff_zip.mpr ⟨lengths, fun {a b} (h : (a, b) ∈ _) => h⟩) q' hq'
    exact ih q q' hq (relational.part (List.of_mem_zip hq).1)

/-- Paired trees show their names in the same order. -/
theorem Paired.events {p p' : Part} (h : p.Paired A A (fun _ _ => False) p') :
    List.Forall₂ (Event.Related A) p.events p'.events := by
  induction h with
  | given h => exact h.elim
  | @node p p' kin lengths _ ih =>
    rw [events_eq, events_eq]
    have reads : List.Forall₂ (Event.Related A) (p.reads.map .refers) (p'.reads.map .refers) :=
      List.forall₂_map_left_iff.mpr (List.forall₂_map_right_iff.mpr (kin.reads.imp fun _ _ => .refers))
    have binds : List.Forall₂ (Event.Related A) (p.binds.map .declares) (p'.binds.map .declares) :=
      List.forall₂_map_left_iff.mpr (List.forall₂_map_right_iff.mpr (kin.binds.imp fun _ _ => .declares))
    have parts := List.forall₂_iff_zip.mpr ⟨lengths, fun hq => ih _ _ hq⟩
    exact List.rel_append (List.rel_append reads (List.rel_flatMap parts fun _ _ h => h)) binds

def Orderly (p : Part) : Prop := Settled (· ∉ p.declared) p.events

/-- A tree and its copy compare alike from either side. -/
theorem alike_of_renamed {r : Renaming} {e e' : Expr} {n n' : Nat} (h : Renamed r (.expr e) (.expr e'))
    (relational : (Part.expr e).Every Relational) (fresh : r.Fresh (Part.expr e).declared n n')
    (below : ∀ a ∈ (Part.expr e).declared ++ (Part.expr e).references, a.id < n)
    (orderly : (Part.expr e).Orderly) : e.alike e' = true ∧ e'.alike e = true := by
  let A : Alias → Alias → Prop := fun a b => r.rel a = b ∧ a.id < n
  have paired : (Part.expr e).Paired A A (fun _ _ => False) (.expr e') := h.mono
    (fun a ha _ _ same => ⟨same, below a (List.mem_append_left _ ha)⟩)
    fun a ha _ _ same => ⟨same, below a (List.mem_append_right _ ha)⟩
  have right : Relator.RightUnique A := fun a b c hb hc => hb.1.symm.trans hc.1
  have left : Relator.RightUnique (flip A) := by
    rintro b a c ⟨ha, a_lt⟩ ⟨hc, c_lt⟩
    by_cases ha' : a ∈ (Part.expr e).declared
    · have a_le := (fresh.minted a ha').1
      by_cases hc' : c ∈ (Part.expr e).declared
      · exact fresh.distinct a ha' c hc' (ha.trans hc.symm)
      · rw [ha, ← hc, fresh.kept c hc'] at a_le
        omega
    · by_cases hc' : c ∈ (Part.expr e).declared
      · have c_le := (fresh.minted c hc').1
        rw [hc, ← ha, fresh.kept a ha'] at c_le
        omega
      · rw [← fresh.kept a ha', ha, ← hc, fresh.kept c hc']
  constructor
  · obtain ⟨P, found, -⟩ := paired.matched right relational [] (· ∉ (Part.expr e).declared)
      ⟨by simp, fun a ha => .inr fun b hb => (fresh.kept a ha).symm.trans hb.1⟩ orderly
    exact Option.isSome_iff_exists.mpr ⟨P, found⟩
  · have old : ∀ a b, A a b → a ∉ (Part.expr e).declared → b.id < n := by
      rintro a b ⟨same, lt⟩ ha
      rw [← same, fresh.kept a ha]
      exact lt
    have covers : Partners.Covers [] (flip A) (·.id < n) := by
      refine ⟨by simp, fun b hb => .inr fun a ⟨same, _⟩ => ?_⟩
      by_cases ha : a ∈ (Part.expr e).declared
      · have le := (fresh.minted a ha).1
        rw [same] at le
        omega
      · rw [← same, fresh.kept a ha]
    obtain ⟨P, found, -⟩ := (paired.flip fun _ _ => id).matched left (paired.relational relational) []
      (·.id < n) covers (orderly.of_related right paired.events old)
    exact Option.isSome_iff_exists.mpr ⟨P, found⟩

end Part

/-- What a copy promises that was made between two states of the supply. -/
structure Expr.Copied (e : Expr) (supply supply' : Supply) (copy : Expr) : Prop where
  minted : ∀ a ∈ (Part.expr copy).declared, supply.next ≤ a.id ∧ a.id < supply'.next
    ∧ a ∉ (Part.expr e).declared ∧ a ∉ (Part.expr e).references
  free : ∀ a, a ∈ copy.free ↔ a ∈ e.free
  alike : (∀ before a after, (Part.expr e).events = before ++ .refers a :: after →
    a ∈ (Part.expr e).declared → .declares a ∈ before) → e.alike copy = true ∧ copy.alike e = true

/-- A copy of a relational tree declares new aliases only, has the same free ones, and is alike the
original. -/
theorem Expr.copied {e : Expr} (relational : (Part.expr e).Every Part.Relational) (supply : Supply)
    (below : ∀ a ∈ (Part.expr e).declared ++ (Part.expr e).references, a.id < supply.next) :
    e.Copied supply (e.copy.run supply).2 (e.copy.run supply).1 := by
  obtain ⟨r, fresh, renamed⟩ := copy_renamed relational supply
  refine ⟨fun b hb => ?_, fun a => ?_, fun order => ?_⟩
  · rw [Part.declared_renamed renamed] at hb
    obtain ⟨a, ha, rfl⟩ := List.mem_map.mp hb
    obtain ⟨low, high⟩ := fresh.minted a ha
    refine ⟨low, high, fun hd => ?_, fun hr => ?_⟩
    · exact absurd (below _ (List.mem_append_left _ hd)) (Nat.not_lt.mpr low)
    · exact absurd (below _ (List.mem_append_right _ hr)) (Nat.not_lt.mpr low)
  · exact Part.mem_free_renamed renamed fresh fun a ha => below a (List.mem_append_right _ ha)
  · refine Part.alike_of_renamed renamed relational fresh below fun before a after split => ?_
    exact (Classical.em (a ∈ (Part.expr e).declared)).symm.imp_right (order before a after split)

namespace Sample

def roster : Expr :=
  let staff (rel employee : Alias) : Select Expr :=
    .plain rel
      [⟨"ID", .column ⟨employee, "ID", .int⟩, .int⟩, ⟨"boss_id", .column ⟨employee, "boss_id", .int⟩, .int⟩]
      (some (.table ⟨employee, "Employee", "Staff"⟩)) none
  .select (.plain ⟨0⟩
    [⟨"ID", .column ⟨⟨1⟩, "ID", .int⟩, .int⟩,
      ⟨"Led", .groupAggregate 8 ⟨1⟩ (.aggregate .count none false)
        (.plain ⟨2⟩ [⟨"Count", .aggregate .count none false, .int⟩]
          (some (.table ⟨⟨3⟩, "Employee", "Staff"⟩))
          (some (.equals (.column ⟨⟨3⟩, "boss_id", .int⟩) (.column ⟨⟨1⟩, "ID", .int⟩)))), .int⟩]
    (some (.setOp ⟨1⟩ .union (staff ⟨4⟩ ⟨5⟩) (staff ⟨6⟩ ⟨7⟩)))
    (some (.equals (.column ⟨⟨1⟩, "boss_id", .int⟩) (.column ⟨⟨9⟩, "ID", .int⟩))))

theorem relational_roster : (Part.expr roster).Every Part.Relational := by
  simp [roster, Part.every_iff (p := .expr _), Part.every_iff (p := .select _), Part.parts, Select.exprs,
    Expr.equals, Select.plain, Part.Relational]

theorem orderly_roster : (Part.expr roster).Orderly := by
  have declared : (Part.expr roster).declared = [⟨0⟩, ⟨1⟩, ⟨4⟩, ⟨5⟩, ⟨6⟩, ⟨7⟩, ⟨2⟩, ⟨3⟩] := by
    decide +kernel
  have events : (Part.expr roster).events
      = [.declares ⟨5⟩, .refers ⟨5⟩, .refers ⟨5⟩, .declares ⟨4⟩, .declares ⟨7⟩, .refers ⟨7⟩, .refers ⟨7⟩,
        .declares ⟨6⟩, .declares ⟨1⟩, .refers ⟨1⟩, .refers ⟨9⟩, .refers ⟨1⟩, .refers ⟨1⟩, .declares ⟨3⟩,
        .refers ⟨3⟩, .refers ⟨1⟩, .declares ⟨2⟩, .declares ⟨0⟩] := by
    decide +kernel
  simp [Part.Orderly, declared, events]

/-- The roster and its copy are alike, and both are correlated with the boss in sight. -/
theorem copied_roster : (∀ a ∈ (Part.expr roster).declared ++ (Part.expr roster).references, a.id < 10)
    ∧ roster.Copied ⟨10⟩ (roster.copy.run ⟨10⟩).2 (roster.copy.run ⟨10⟩).1
    ∧ roster.alike (roster.copy.run ⟨10⟩).1 = true ∧ (roster.copy.run ⟨10⟩).1.alike roster = true
    ∧ ⟨9⟩ ∈ (roster.copy.run ⟨10⟩).1.free := by
  have below : ∀ a ∈ (Part.expr roster).declared ++ (Part.expr roster).references, a.id < 10 := by
    decide +kernel
  have copied := Expr.copied relational_roster ⟨10⟩ below
  have alike := copied.alike fun before a after split declared =>
    (orderly_roster before a after split).resolve_left (absurd declared)
  exact ⟨below, copied, alike.1, alike.2, (copied.free ⟨9⟩).mpr (by decide +kernel)⟩

end Sample

end ObjectQuery
