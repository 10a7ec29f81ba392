import ObjectQuery.Proofs.Nodes
import Mathlib.Algebra.Order.Group.Multiset

/-!
Which aliases are in sight where. The parts of a part are listed in the order of a walk that meets
the readers of a row before the source that makes it, so that what a part sees is in sight all around
or declared by a part that comes later.
-/

namespace ObjectQuery

def Select.readers (s : Select Expr) : List Expr :=
  s.columns.map (·.expr) ++ (s.take.toList ++ (s.skip.toList ++ (s.groupBy
    ++ (s.orderBy.map (·.expr) ++ s.filter.toList))))

def Part.views (visible : List Alias) : Part → List (List Alias × Part)
  | .select s => s.readers.map (fun e => (s.sourceAliases ++ visible, .expr e))
      ++ s.source.toList.map fun e => (visible, .expr e)
  | .projection p => [(p.select.rel :: visible, .expr p.projector), (visible, .select p.select)]
  | .expr (.join kind left right on) =>
    on.toList.map (fun e => (left.declares ++ right.declares ++ visible, .expr e))
      ++ [(if kind.isApply then left.declares ++ visible else visible, .expr right),
        (visible, .expr left)]
  | .expr (.clientJoin p outerKey innerKey) =>
    innerKey.map (fun e => (p.select.rel :: visible, .expr e))
      ++ (outerKey.map (fun e => (visible, .expr e)) ++ [(visible, .projection p)])
  | p => p.parts.map fun q => (visible, q)

inductive Part.InScope : List Alias → Part → Prop
  | node {visible : List Alias} {p : Part} : (∀ c, p = .expr (.column c) → c.rel ∈ visible) →
    (∀ v ∈ p.views visible, InScope v.1 v.2) → InScope visible p

variable {visible : List Alias} {p : Part}

theorem Part.inScope_iff : p.InScope visible ↔
    (∀ c, p = .expr (.column c) → c.rel ∈ visible) ∧ ∀ v ∈ p.views visible, InScope v.1 v.2 :=
  ⟨fun h => by
    cases h with
    | node sees parts => exact ⟨sees, parts⟩, fun h => .node h.1 h.2⟩

theorem Select.readers_perm (s : Select Expr) : (s.readers ++ s.source.toList).Perm s.exprs := by
  simp only [readers, exprs, ← Multiset.coe_eq_coe, ← Multiset.coe_add]
  ac_rfl

theorem Part.views_perm (visible : List Alias) (p : Part) :
    ((p.views visible).map (·.2)).Perm p.parts := by
  cases p with
  | select s =>
    simpa [views, parts, Function.comp_def, List.map_append] using s.readers_perm.map Part.expr
  | projection p => exact List.Perm.swap _ _ _
  | expr e =>
    cases e with
    | join kind left right on =>
      simp only [views, parts, List.map_append, List.map_map, Function.comp_def]
      exact List.perm_append_comm.trans (List.Perm.swap _ _ _)
    | clientJoin p outer inner =>
      simp only [views, parts, List.map_append, List.map_map, Function.comp_def, List.map_cons,
        List.map_nil]
      refine List.perm_append_comm.trans ?_
      simp
    | _ => simp [views, Function.comp_def]

def Layered (visible : List Alias) : List (List Alias × Part) → Prop
  | [] => True
  | v :: rest => (∀ a ∈ v.1, a ∈ visible ∨ ∃ w ∈ rest, a ∈ w.2.declared) ∧ Layered visible rest

theorem Layered.append {front rest : List (List Alias × Part)}
    (h : ∀ v ∈ front, ∀ a ∈ v.1, a ∈ visible ∨ ∃ w ∈ rest, a ∈ w.2.declared)
    (hr : Layered visible rest) : Layered visible (front ++ rest) := by
  induction front with
  | nil => exact hr
  | cons v front ih =>
    refine ⟨fun a ha => (h v (by simp) a ha).imp id ?_, ih fun w hw => h w (by simp [hw])⟩
    rintro ⟨w, hw, inside⟩
    exact ⟨w, List.mem_append_right _ hw, inside⟩

theorem Layered.of_visible {vs : List (List Alias × Part)} (h : ∀ v ∈ vs, v.1 = visible) :
    Layered visible vs := by
  induction vs with
  | nil => trivial
  | cons v rest ih =>
    exact ⟨fun a ha => .inl (h v (by simp) ▸ ha), ih fun w hw => h w (by simp [hw])⟩

theorem Part.views_layered (visible : List Alias) (p : Part) : Layered visible (p.views visible) := by
  cases p with
  | select s =>
    refine .append ?_ ?_
    · rintro v hv a ha
      obtain ⟨e, -, rfl⟩ := List.mem_map.mp hv
      refine (List.mem_append.mp ha).symm.imp id fun inside => ?_
      rw [Select.sourceAliases] at inside
      cases hs : s.source with
      | none => simp [hs] at inside
      | some e =>
        rw [hs] at inside
        exact ⟨(visible, .expr e), by simp, declares_subset_declared e inside⟩
    · cases s.source <;> simp [Layered]
  | projection p =>
    have own : p.select.rel ∈ (Part.select p.select).declared := mem_gather.mpr (.inl (by simp))
    refine ⟨fun a ha => (List.mem_cons.mp ha).symm.imp id ?_, fun a => .inl, trivial⟩
    rintro rfl
    exact ⟨(visible, .select p.select), by simp, own⟩
  | expr e =>
    cases e with
    | join kind left right on =>
      have left_ : ∀ a ∈ left.declares, a ∈ (Part.expr left).declared := declares_subset_declared left
      refine .append ?_ ⟨?_, fun a => .inl, trivial⟩
      · rintro v hv a ha
        obtain ⟨e, -, rfl⟩ := List.mem_map.mp hv
        simp only [List.mem_append] at ha
        rcases ha with (ha | ha) | ha
        · exact .inr ⟨(visible, .expr left), by simp, left_ a ha⟩
        · exact .inr ⟨_, List.mem_cons_self, declares_subset_declared right ha⟩
        · exact .inl ha
      · intro a ha
        split at ha
        · exact (List.mem_append.mp ha).symm.imp id fun ha =>
            ⟨(visible, .expr left), by simp, left_ a ha⟩
        · exact .inl ha
    | clientJoin p outer inner =>
      have own : p.select.rel ∈ (Part.projection p).declared :=
        declared_subset Projection.select_mem (mem_gather.mpr (.inl (by simp)))
      refine .append ?_ (.append ?_ ⟨fun a => .inl, trivial⟩)
      · rintro v hv a ha
        obtain ⟨e, -, rfl⟩ := List.mem_map.mp hv
        rcases List.mem_cons.mp ha with rfl | ha
        · exact .inr ⟨(visible, .projection p), by simp, own⟩
        · exact .inl ha
      · rintro v hv a ha
        obtain ⟨e, -, rfl⟩ := List.mem_map.mp hv
        exact .inl ha
    | _ => exact .of_visible (by simp +contextual [views])

structure Part.Fresh (visible : List Alias) (p : Part) : Prop where
  nodup : p.declared.Nodup
  apart : ∀ a ∈ visible, a ∉ p.declared

def Apart (v w : List Alias × Part) : Prop :=
  ∀ a ∈ v.2.declared, a ∉ w.1 ∧ a ∉ w.2.declared

theorem Layered.seen {vs : List (List Alias × Part)} (h : Layered visible vs) :
    ∀ v ∈ vs, ∀ a ∈ v.1, a ∈ visible ∨ ∃ w ∈ vs, a ∈ w.2.declared := by
  induction vs with
  | nil => simp
  | cons v rest ih =>
    have behind : ∀ a, (∃ w ∈ rest, a ∈ w.2.declared) → ∃ w ∈ v :: rest, a ∈ w.2.declared :=
      fun a ⟨w, hw, ha⟩ => ⟨w, List.mem_cons_of_mem _ hw, ha⟩
    rintro w hw a ha
    rcases List.mem_cons.mp hw with rfl | hw
    · exact (h.1 a ha).imp id (behind a)
    · exact (ih h.2 w hw a ha).imp id (behind a)

theorem Layered.apart {vs : List (List Alias × Part)} (h : Layered visible vs)
    (nodup : (vs.flatMap (·.2.declared)).Nodup)
    (outside : ∀ a ∈ visible, a ∉ vs.flatMap (·.2.declared)) :
    vs.Pairwise Apart ∧ ∀ v ∈ vs, v.2.Fresh v.1 := by
  induction vs with
  | nil => simp
  | cons v rest ih =>
    rw [List.flatMap_cons] at nodup outside
    obtain ⟨own, behind, disjoint⟩ := List.nodup_append.mp nodup
    obtain ⟨pairs, fresh⟩ := ih h.2 behind fun a ha inside =>
      outside a ha (List.mem_append_right _ inside)
    -- What is declared by a part behind is not declared by this one.
    have later : ∀ a, (a ∈ visible ∨ ∃ w ∈ rest, a ∈ w.2.declared) → a ∉ v.2.declared := by
      rintro a (ha | ⟨w, hw, ha⟩) inside
      · exact outside a ha (List.mem_append_left _ inside)
      · exact disjoint a inside a (List.mem_flatMap.mpr ⟨w, hw, ha⟩) rfl
    refine ⟨List.pairwise_cons.mpr ⟨fun w hw a ha => ⟨fun seen => ?_, fun inside => ?_⟩, pairs⟩,
      List.forall_mem_cons.mpr ⟨⟨own, fun a ha => later a (h.1 a ha)⟩, fresh⟩⟩
    · exact later a (h.2.seen w hw a seen) ha
    · exact later a (.inr ⟨w, hw, inside⟩) ha

namespace Part

variable {q : Part} {a : Alias}

/-- What a part declares is its own alias or declared by one of its parts. -/
theorem views_declared (visible : List Alias) (p : Part) :
    ((p.views visible).flatMap (·.2.declared)).Perm (p.parts.flatMap declared) := by
  have mapped : (p.views visible).flatMap (·.2.declared)
      = ((p.views visible).map (·.2)).flatMap declared := by rw [List.flatMap_map]
  rw [mapped]
  exact (views_perm visible p).flatMap_right _

theorem Fresh.views (fresh : p.Fresh visible) :
    (p.views visible).Pairwise Apart ∧ ∀ v ∈ p.views visible, v.2.Fresh v.1 := by
  have perm := views_declared visible p
  have sub : (p.parts.flatMap declared).Sublist p.declared := by
    rw [show p.declared = _ from gather_eq _ p]
    exact List.sublist_append_right _ _
  refine (views_layered visible p).apart (perm.nodup_iff.mpr (fresh.nodup.sublist sub)) ?_
  exact fun a ha inside => fresh.apart a ha (sub.subset (perm.mem_iff.mp inside))

/-- The alias of a select is declared by none of its parts. -/
theorem Fresh.own_rel {s : Select Expr} (fresh : (Part.select s).Fresh visible) :
    ∀ q ∈ (Part.select s).parts, s.rel ∉ q.declared := by
  have nodup := fresh.nodup
  rw [declared, gather_eq] at nodup
  intro q hq inside
  exact List.disjoint_of_nodup_append nodup (List.mem_singleton_self _)
    (List.mem_flatMap.mpr ⟨q, hq, inside⟩)

/-- A part sees what is in sight of the whole, and what the other parts declare. -/
theorem mem_of_seen {v : List Alias × Part} (hv : v ∈ p.views visible) (ha : a ∈ v.1) :
    a ∈ visible ∨ ∃ q ∈ p.parts, a ∈ q.declared := by
  refine ((views_layered visible p).seen v hv a ha).imp id fun ⟨w, hw, inside⟩ => ?_
  exact ⟨w.2, (views_perm visible p).mem_iff.mp (List.mem_map_of_mem hw), inside⟩

end Part

end ObjectQuery
