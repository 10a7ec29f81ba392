import ObjectQuery.Bind.Sequences
import ObjectQuery.Proofs.Flattening
import ObjectQuery.Proofs.Memberships
import Mathlib

/-!
Joins and group joins. A join answers with every outer element beside every inner element of equal key, and a
group join with every outer element beside the sequence of them. Taken apart one by one, the sequences are the
join, where elements and keys are plain and keys have no floats.
-/

namespace ObjectQuery

open Eval

variable {tables : Tables} {σ : Scope}

theorem Value.Exact.isEqual_comm {a b : Value} (ha : a.Exact) (hb : b.Exact) : a.isEqual b = b.isEqual a := by
  rw [Bool.eq_iff_iff]
  constructor
  · intro equal
    obtain rfl := ha.eq_of_isEqual hb equal
    exact equal
  · intro equal
    obtain rfl := hb.eq_of_isEqual ha equal
    exact equal

theorem KeyType.admits.exact {t : KeyType} {v : Value} (h : t.admits v) : v.Exact := by
  cases t <;> cases v <;> first | exact h.elim | constructor

section Lists

/-- Conditions that agree where both are known keep the same items. -/
theorem filterM_agree {ε α : Type} {c c' : α → Except ε Bool} {items kept kept' : List α}
    (h : items.filterM c = .ok kept) (h' : items.filterM c' = .ok kept')
    (same : ∀ a ∈ items, ∀ b b', c a = .ok b → c' a = .ok b' → b = b') : kept = kept' := by
  let keep : α → Bool := fun a => (c a).toOption.getD false
  have known : ∀ {a b}, c a = .ok b → keep a = b := by
    intro a b hb
    simp only [keep, hb]
    rfl
  have left : kept = items.filter keep := eq_filter_of_filterM h fun _ _ _ hb => known hb
  have right : kept' = items.filter keep := by
    refine eq_filter_of_filterM h' fun a ha b' hb' => ?_
    obtain ⟨b, hb⟩ := ok_of_filterM h a ha
    rw [known hb, same a ha b b' hb hb']
  rw [left, right]

/-- Items that stand beside lists of others, and what is made of each of them together. -/
theorem exists_beside {ι α β γ δ : Type} {R : ι → α → Prop} {S : ι → List β → Prop} {T : β → γ → Prop}
    {first : δ → α} {all : δ → List γ} {is : List ι} {as : List α} {groups : List (List β)}
    (left : List.Forall₂ R is as) (right : List.Forall₂ S is groups)
    (step : ∀ i ∈ is, ∀ a group, R i a → S i group → ∃ d, a = first d ∧ List.Forall₂ T group (all d)) :
    ∃ ds : List δ, as = ds.map first ∧ List.Forall₂ T groups.flatten (ds.flatMap all) := by
  induction left generalizing groups with
  | nil =>
    cases right
    exact ⟨[], rfl, .nil⟩
  | @cons i a is as head _ ih =>
    obtain _ | ⟨own, rest⟩ := right
    obtain ⟨d, rfl, made⟩ := step i (by simp) _ _ head own
    obtain ⟨ds, rfl, others⟩ := ih rest fun i hi => step i (by simp [hi])
    exact ⟨d :: ds, rfl, List.rel_append made others⟩

variable {α β : Type} {f : α → Client β} {items : List α} {made : List β}

theorem Lifted.forall₂ (lifted : ∀ a ∈ items, Lifted (f a)) {s s' : List (Alias × JoinedRows)}
    (h : (items.mapM f).run s = .ok (made, s')) :
    List.Forall₂ (fun a b => (f a).run [] = .ok (b, [])) items made := by
  induction items generalizing made s s' with
  | nil =>
    obtain ⟨rfl, -⟩ := Prod.mk.inj (Except.ok.inj h)
    exact .nil
  | cons a rest ih =>
    rw [List.mapM_cons, StateT.run_bind] at h
    obtain ⟨⟨b, s₁⟩, hb, h⟩ := bind_eq_ok.mp h
    rw [StateT.run_bind] at h
    obtain ⟨⟨bs, s₂⟩, hbs, h⟩ := bind_eq_ok.mp h
    obtain ⟨rfl, -⟩ := Prod.mk.inj (Except.ok.inj h)
    exact .cons ((lifted a (by simp)).run hb []) (ih (fun c hc => lifted c (by simp [hc])) hbs)

theorem mapM_run_of_forall₂ (h : List.Forall₂ (fun a b => (f a).run [] = .ok (b, [])) items made) :
    (items.mapM f).run [] = .ok (made, []) := by
  induction h with
  | nil => rfl
  | cons head _ ih =>
    rw [List.mapM_cons]
    exact Eval.reading.bind head (Eval.reading.bind ih (Eval.reading.pure _ _))

end Lists

def Expr.pair (first second : String) (a b : Expr) : Expr := .construct none [⟨first, a⟩, ⟨second, b⟩]

def ClientValue.pair (first second : String) (x y : ClientValue) : ClientValue :=
  .object none [(first, x), (second, y)]

theorem Eval.client_pair {first second : String} {a b : Expr} {s : List (Alias × JoinedRows)}
    {r : ClientValue × List (Alias × JoinedRows)} :
    (client tables (.pair first second a b) σ).run s = .ok r ↔ ∃ x y s', (client tables a σ).run s = .ok (x, s')
      ∧ (client tables b σ).run s' = .ok (y, r.2) ∧ r.1 = .pair first second x y := by
  rw [Expr.pair, client_construct]
  simp only [List.mapM_cons, List.mapM_nil, bind_assoc, pure_bind]
  rw [StateT.run_bind, bind_eq_ok]
  constructor
  · rintro ⟨⟨x, s'⟩, hx, h⟩
    rw [StateT.run_bind] at h
    obtain ⟨⟨y, s''⟩, hy, h⟩ := bind_eq_ok.mp h
    obtain rfl := Except.ok.inj h
    exact ⟨x, y, s', hx, hy, rfl⟩
  · obtain ⟨v, s''⟩ := r
    rintro ⟨x, y, s', hx, hy, rfl⟩
    refine ⟨(x, s'), hx, ?_⟩
    rw [StateT.run_bind, bind_eq_ok]
    exact ⟨(y, s''), hy, rfl⟩

theorem Eval.exists_of_meets_equals {a b : Expr} {c : Bool} (h : meets tables (some (.equals a b)) σ = .ok c) :
    ∃ v w, scalar tables a σ = .ok v ∧ scalar tables b σ = .ok w ∧ c = v.isEqual w := by
  obtain ⟨u, hu, -⟩ := bind_eq_ok.mp h
  rw [Expr.equals, scalar] at hu
  obtain ⟨v, hv, hu⟩ := bind_eq_ok.mp hu
  obtain ⟨w, hw, -⟩ := bind_eq_ok.mp hu
  exact ⟨v, w, hv, hw, meets_equals hv hw h⟩

namespace Plain

variable {members : Prop} {P : Column → Prop} {e : Expr}

theorem mem_references (h : Plain members P e) : ∀ a ∈ (Part.expr e).references, ∃ c, P c ∧ c.rel = a := by
  refine Part.Every.of_mem_gather (every (fun e plain a ha => ?_) h)
  cases plain with
  | @column c hc => exact ⟨c, hc, (List.mem_singleton.mp ha).symm⟩
  | _ => cases ha

theorem splits (h : Plain members P e) {R : Alias → Prop} (reads : ∀ c, P c → R c.rel) :
    e.Splits (fun _ => False) R :=
  ⟨h.tame reads, h.hasNoAggregates, h.unjoined⟩

end Plain

def Part.Portable (p : Part) : Prop :=
  (Tame (fun _ => True) (fun _ => True) p ∧ Unjoined p) ∧ Relational p

namespace Projection

def ExactKeys (tables : Tables) (p : Projection Expr) (key : Expr) : Prop :=
  ∀ rows, Eval.select tables p.select .root = .ok rows → ∀ row ∈ rows, ∀ v,
    scalar tables key (Scope.root.bind p.select.rel row) = .ok v → v.Exact

structure Joinable (p q : Projection Expr) (l r : Expr) (n : Nat) : Prop where
  outer : Plain False (·.rel = p.select.rel) p.projector
  inner : Plain False (·.rel = q.select.rel) q.projector
  outerKey : Plain False (·.rel = p.select.rel) l
  innerKey : Plain False (·.rel = q.select.rel) r
  rows : (Part.select q.select).Every Part.Portable
  unread : p.select.rel ∉ (Part.select q.select).references
  undeclared : p.select.rel ∉ (Part.select q.select).declared
  below : ∀ a ∈ p.select.rel :: q.select.rel :: (Part.select q.select).references, a.id < n

def matching (q : Projection Expr) (affinity : Affinity) (n : Nat) (l r : Expr) : Projection Expr :=
  q.filtered affinity ⟨n⟩ (.equals r l)

namespace Joinable

variable {p q : Projection Expr} {l r : Expr} {n : Nat} (h : p.Joinable q l r n)
include h

theorem apart : p.select.rel ≠ q.select.rel := by
  intro same
  refine h.undeclared ?_
  rw [same]
  exact Part.binds_subset (.select q.select) (by simp [Part.binds])

theorem ne_next {a : Alias} (ha : a ∈ p.select.rel :: q.select.rel :: (Part.select q.select).references) :
    a ≠ ⟨n⟩ := by
  rintro rfl
  exact Nat.lt_irrefl n (h.below _ ha)

/-- What is made of an outer row does not read the inner row beside it. -/
theorem unread_inner {e : Expr} (plain : Plain False (·.rel = p.select.rel) e) :
    q.select.rel ∉ (Part.expr e).references := by
  intro read
  obtain ⟨c, hc, same⟩ := plain.mem_references _ read
  exact h.apart (hc.symm.trans same)

/-- An outer element beside an inner one can be split into columns. -/
theorem splits_pair (first second : String) : (Expr.pair first second p.projector q.projector).Splits
    (fun _ => False) fun a => a = p.select.rel ∨ a = q.select.rel := by
  have plain : Plain False (fun c => c.rel = p.select.rel ∨ c.rel = q.select.rel)
      (Expr.pair first second p.projector q.projector) := by
    refine .construct fun f hf => ?_
    rcases List.mem_cons.mp hf with rfl | hf
    · exact h.outer.mono id fun _ => .inl
    · rw [List.mem_singleton.mp hf]
      exact h.inner.mono id fun _ => .inr
  exact plain.splits fun _ hc => hc

/-- The keys are compared by a plain condition. -/
theorem condition : Plain False (fun c => c.rel = p.select.rel ∨ c.rel = q.select.rel) (.equals r l) :=
  .binary (h.innerKey.mono id fun _ => .inr) (h.outerKey.mono id fun _ => .inl)

/-- What holds of the inner rows and of plain expressions holds everywhere in a group. -/
theorem every_matching (affinity : Affinity) {X : Part → Prop}
    (node : ∀ projection, X (.expr (.projection projection)) ∧ X (.projection projection))
    (own : X (.select (q.matching affinity n l r).select)) (source : X (.expr (.select q.select)))
    (rows : (Part.select q.select).Every X)
    (plain : ∀ e, Plain False (fun c => c.rel ∈ [p.select.rel, q.select.rel, ⟨n⟩]) e → X (.expr e)) :
    (Part.expr (.projection (q.matching affinity n l r))).Every X := by
  have left : ∀ {c : Column}, c.rel = p.select.rel → c.rel ∈ [p.select.rel, q.select.rel, ⟨n⟩] := by simp_all
  have right : ∀ {c : Column}, c.rel = q.select.rel → c.rel ∈ [p.select.rel, q.select.rel, ⟨n⟩] := by simp_all
  have every : ∀ {P : Column → Prop} {e : Expr}, Plain False P e →
      (∀ c, P c → c.rel ∈ [p.select.rel, q.select.rel, ⟨n⟩]) → (Part.expr e).Every X :=
    fun h sub => Plain.every plain (h.mono id sub)
  obtain ⟨columns, rest, -⟩ := split_spec h.inner affinity ⟨n⟩ [q.select.rel] (by simp)
  have select : (Part.select (q.matching affinity n l r).select).Every X := by
    refine Part.every_plain own (.node source (by simpa [Part.parts] using rows)) ?_ fun d hd =>
      every (columns.plain d hd) fun c => right
    rintro _ ⟨⟩
    exact every h.condition fun c hc => hc.elim left right
  have projection : (Part.projection (q.matching affinity n l r)).Every X := by
    refine .node (node _).2 fun part hpart => ?_
    rcases List.mem_cons.mp hpart with rfl | hpart
    · exact select
    · rw [List.mem_singleton.mp hpart]
      exact every rest fun c hc => by simp [hc.1]
  exact .node (node _).1 (by simpa [Part.parts] using projection)

theorem portable_matching (affinity : Affinity) :
    (Part.expr (.projection (q.matching affinity n l r))).Every Part.Portable := by
  refine h.every_matching affinity (fun _ => ⟨⟨⟨trivial, trivial⟩, trivial⟩, ⟨trivial, trivial⟩, trivial⟩) ?_
    ⟨⟨trivial, trivial⟩, trivial⟩ h.rows fun e plain => ?_
  · exact ⟨⟨⟨trivial, by simp [matching, filtered, layered, Expr.splitOver, Select.plain]⟩, trivial⟩, trivial⟩
  · cases plain with
    | const exact => exact ⟨⟨exact, trivial⟩, exact⟩
    | _ => exact ⟨⟨trivial, trivial⟩, trivial⟩

theorem references_matching (affinity : Affinity) :
    ∀ a ∈ (Part.expr (.projection (q.matching affinity n l r))).references, a.id < n + 1 := by
  have rows : (Part.select q.select).Every fun part => ∀ a ∈ part.reads, a.id < n + 1 :=
    Part.every_of_gather _ fun a ha => Nat.lt_succ_of_lt (h.below a (by simp [show a ∈ Part.references _ from ha]))
  refine Part.Every.of_mem_gather (h.every_matching affinity (by simp [Part.reads]) (by simp [Part.reads])
    (by simp [Part.reads]) rows fun e plain a ha => ?_)
  cases plain with
  | @column c hc =>
    rw [List.mem_singleton.mp ha]
    rcases List.mem_cons.mp hc with same | hc
    · rw [same]
      exact Nat.lt_succ_of_lt (h.below _ (by simp))
    · rcases List.mem_cons.mp hc with same | hc
      · rw [same]
        exact Nat.lt_succ_of_lt (h.below _ (by simp))
      · rw [List.mem_singleton.mp hc]
        exact Nat.lt_succ_self n
  | _ => cases ha

theorem undeclared_matching (affinity : Affinity) :
    p.select.rel ∉ (Part.expr (.projection (q.matching affinity n l r))).declared := by
  have apart : p.select.rel ≠ ⟨n⟩ := h.ne_next (by simp)
  have rows : (Part.select q.select).Every fun part => ∀ a ∈ part.binds, a ≠ p.select.rel :=
    Part.every_of_gather _ fun a ha same => h.undeclared (same ▸ ha)
  intro inside
  refine Part.Every.of_mem_gather (D := (· ≠ p.select.rel)) (h.every_matching affinity (by simp [Part.binds]) ?_
    (by simp [Part.binds]) rows fun e plain a ha => ?_) p.select.rel inside rfl
  · intro a ha
    rw [List.mem_singleton.mp ha]
    exact apart.symm
  · cases plain <;> cases ha

/-- A group has the inner elements whose keys meet the condition, in their order. -/
theorem elements_matching {affinity : Affinity} {row : Row} {items : List ClientValue}
    {s : List (Alias × JoinedRows)}
    (run : (elements tables (q.matching affinity n l r) (Scope.root.bind p.select.rel row)).run []
      = .ok (items, s)) :
    ∃ rows kept, Eval.select tables q.select .root = .ok rows
      ∧ rows.filterM (fun row' => meets tables (some (.equals r l))
        ((Scope.root.bind p.select.rel row).bind q.select.rel row')) = .ok kept
      ∧ List.Forall₂ (fun row' item => (client tables q.projector
        ((Scope.root.bind p.select.rel row).bind q.select.rel row')).run [] = .ok (item, [])) kept items := by
  have reads : ∀ a, a = q.select.rel → a ≠ ⟨n⟩ := by
    rintro _ rfl
    exact h.ne_next (by simp)
  obtain ⟨rows, kept, hrows, hkept, made⟩ := filtered_elements _
    (h.inner.splits fun _ hc => hc) (by simp) reads h.condition.hasNoAggregates run
  refine ⟨rows, kept, ?_, hkept, Lifted.forall₂ (fun _ _ => client_lifted h.inner.unjoined tables _) made⟩
  exact (select_agree (Scope.agree_bind h.unread rfl rfl row)).mpr hrows

/-- Keys without floats are compared alike in either order. -/
theorem meets_symm {row row' : Row} {b b' : Bool}
    (left : ∀ v, scalar tables l (Scope.root.bind p.select.rel row) = .ok v → v.Exact)
    (right : ∀ v, scalar tables r (Scope.root.bind q.select.rel row') = .ok v → v.Exact)
    (hb : meets tables (some (.equals r l)) ((Scope.root.bind p.select.rel row).bind q.select.rel row') = .ok b)
    (hb' : meets tables (some (.equals l r)) ((Scope.root.bind p.select.rel row).bind q.select.rel row')
      = .ok b') :
    b = b' := by
  obtain ⟨w, v, hw, hv, rfl⟩ := exists_of_meets_equals hb
  obtain ⟨v', w', hv', hw', rfl⟩ := exists_of_meets_equals hb'
  obtain rfl := Except.ok.inj (hv.symm.trans hv')
  obtain rfl := Except.ok.inj (hw.symm.trans hw')
  have only : ∀ a ∈ (Part.expr r).references, a = q.select.rel := by
    intro a read
    obtain ⟨c, hc, same⟩ := h.innerKey.mem_references _ read
    exact same.symm.trans hc
  have unread := h.unread_inner h.outerKey
  have exact : v.Exact := left v ((scalar_agree (Scope.agree_bind unread rfl rfl row')).mpr hv)
  have exact' : w.Exact := right w ((scalar_agree (Scope.agree_bound only row' _ _)).mp hw)
  exact exact'.isEqual_comm exact

section Groups

variable {affinity : Affinity} {names : Renaming} {group : Expr} {m : Nat}
  (fresh : names.Fresh (Part.expr (.projection (q.matching affinity n l r))).declared (n + 1) m)
  (renamed : Part.Renamed names (.expr (.projection (q.matching affinity n l r))) (.expr group))
include fresh renamed

/-- A copy of a group has the elements of the group. -/
theorem elements_copy {row : Row} {v : ClientValue} {s : List (Alias × JoinedRows)}
    (run : (client tables group (Scope.root.bind p.select.rel row)).run [] = .ok (v, s)) :
    ∃ items s', v = .list items
      ∧ (elements tables (q.matching affinity n l r) (Scope.root.bind p.select.rel row)).run []
        = .ok (items, s') := by
  have below := fun a ha => Or.inr (b := a.id < n + 1)
    (a := a ∈ (Part.expr (.projection (q.matching affinity n l r))).declared) (h.references_matching affinity a ha)
  have apart : ∀ a, (Scope.root.bind p.select.rel row).Binds a →
      a ∉ (Part.expr (.projection (q.matching affinity n l r))).declared ∧ a.id < n + 1 := by
    rintro a (bound | ⟨frames, grouped, -⟩)
    · obtain rfl : a = p.select.rel := by simpa [Scope.bind, Scope.extend, Scope.root] using bound
      exact ⟨h.undeclared_matching affinity, Nat.lt_succ_of_lt (h.below _ (by simp))⟩
    · cases grouped
  obtain ⟨s', original⟩ := client_copy fresh renamed below apart run
  obtain ⟨items, made, rfl⟩ := (client_elements_run rfl).mp original
  exact ⟨items, s', rfl, made⟩

/-- An outer element beside its group can be split into columns. -/
theorem splits_group (first second : String) (later : n < m) :
    (Expr.pair first second p.projector group).Splits (fun a => n < a.id ∧ a.id < m) (·.id < m) := by
  have outer := h.outer.tame (D := fun _ => False) (R := (· = p.select.rel)) fun _ hc => hc
  have copied := Part.every_renamed renamed ((h.portable_matching affinity).mono fun _ => And.left)
  have parts : ∀ part ∈ (Part.expr (Expr.pair first second p.projector group)).parts,
      part = .expr p.projector ∨ part = .expr group :=
    fun part hpart => by simpa [Expr.pair, Part.parts] using hpart
  have every : (Part.expr (Expr.pair first second p.projector group)).Every fun part =>
      Part.Tame (fun _ => True) (fun _ => True) part ∧ Part.Unjoined part := by
    refine .node ⟨trivial, trivial⟩ fun part hpart => ?_
    rcases parts part hpart with rfl | rfl
    · exact (h.outer.tame fun _ _ => trivial).and h.outer.unjoined
    · exact copied
  refine ⟨(every.mono fun _ => And.left).names ?_ ?_, ?_, every.mono fun _ => And.right⟩
  · intro a ha
    obtain hbinds | ⟨part, hpart, under⟩ := Part.mem_gather.mp ha
    · cases hbinds
    · rcases parts part hpart with rfl | rfl
      · exact (outer.declared a under).elim
      · have mem : a ∈ (Part.expr group).declared := under
        rw [Part.declared_renamed renamed] at mem
        obtain ⟨b, hb, rfl⟩ := List.mem_map.mp mem
        exact fresh.minted b hb
  · intro c hc
    obtain hcolumn | ⟨part, hpart, under⟩ := Part.mem_gather.mp hc
    · cases hcolumn
    · rcases parts part hpart with rfl | rfl
      · rw [outer.reads c under]
        exact Nat.lt_trans (h.below _ (by simp)) later
      · have mem : c.rel ∈ (Part.expr group).columnRefs.map (·.rel) := List.mem_map_of_mem under
        rw [Part.columnRefs_renamed renamed, List.map_map] at mem
        obtain ⟨d, hd, same⟩ := List.mem_map.mp mem
        rw [← same]
        by_cases inside : d.rel ∈ (Part.expr (.projection (q.matching affinity n l r))).declared
        · exact (fresh.minted d.rel inside).2
        · have low := h.references_matching affinity d.rel (Part.rel_mem_references hd)
          show (names.rel d.rel).id < m
          rw [fresh.kept d.rel inside]
          omega
  · have original : (Part.expr (.projection (q.matching affinity n l r))).aggregates = false := by
      simp [Part.aggregates_eq, Part.isAggregate, Part.aggregatesApart]
    have copy := (Part.aggregates_renamed renamed).symm.trans original
    simp [Expr.pair, Part.aggregates_eq (.expr (.construct _ _)), Part.isAggregate, Part.parts, copy,
      h.outer.hasNoAggregates]

/-- For an outer element and the inner elements of equal key, the group join has an object with their sequence
and the join an object for each of them. -/
theorem beside {first second third : String} (left : p.ExactKeys tables l) (right : q.ExactKeys tables r)
    {rows : List Row} (hrows : Eval.select tables p.select .root = .ok rows) {row : Row} (hrow : row ∈ rows)
    {v : ClientValue} {inner matched : List Row} (hinner : Eval.select tables q.select .root = .ok inner)
    (hmatched : inner.filterM (fun row' => meets tables (some (.equals l r))
      ((Scope.root.bind p.select.rel row).bind q.select.rel row')) = .ok matched)
    (run : (client tables (Expr.pair first second p.projector group) (Scope.root.bind p.select.rel row)).run []
      = .ok (v, [])) :
    ∃ x : ClientValue × List ClientValue, v = .pair first second x.1 (.list x.2)
      ∧ List.Forall₂ (fun row' v' => (client tables (Expr.pair first third p.projector q.projector)
        ((Scope.root.bind p.select.rel row).bind q.select.rel row')).run [] = .ok (v', []))
        matched (x.2.map (.pair first third x.1)) := by
  obtain ⟨o, g, s, first, hg, rfl⟩ := client_pair.mp run
  have ho := (client_lifted h.outer.unjoined tables _).run first []
  obtain rfl : s = [] := (Prod.mk.inj (Except.ok.inj (first.symm.trans ho))).2
  obtain ⟨items, s', rfl, made⟩ := h.elements_copy fresh renamed hg
  obtain ⟨inner', kept, hinner', hkept, elements⟩ := h.elements_matching made
  obtain rfl := Except.ok.inj (hinner.symm.trans hinner')
  obtain rfl : kept = matched := by
    refine filterM_agree hkept hmatched fun row' hrow' b b' hb hb' => ?_
    exact h.meets_symm (left rows hrows row hrow) (right inner hinner row' hrow') hb hb'
  refine ⟨(o, items), rfl, List.forall₂_map_right_iff.mpr (elements.imp fun row' i hi => ?_)⟩
  have unread := h.unread_inner h.outer
  exact client_pair.mpr ⟨o, i, [], (client_agree (Scope.agree_bind unread rfl rfl row')).mp ho, hi, rfl⟩

/-- Taken apart one by one, the groups of a group join are the join. -/
theorem flattens {first second third : String} (left : p.ExactKeys tables l) (right : q.ExactKeys tables r)
    (later : n < m) {grouped joined : ClientValue}
    (hgrouped : (Expr.projection ((Expr.pair first second p.projector group).elementsOver affinity ⟨m⟩
      (.select p.select))).execute tables = .ok grouped)
    (hjoined : (Expr.projection ((Expr.pair first third p.projector q.projector).elementsOver affinity ⟨n⟩
      (.join .inner (.select p.select) (.select q.select) (some (.equals l r))))).execute tables = .ok joined) :
    ∃ groups : List (ClientValue × List ClientValue),
      grouped = .list (groups.map fun x => .pair first second x.1 (.list x.2))
      ∧ joined = .list (groups.flatMap fun x => x.2.map (.pair first third x.1)) := by
  have group := h.splits_group fresh renamed first second later
  have declared : ∀ a, n < a.id ∧ a.id < m → a ∉ (Expr.select p.select).declares ∧ a ≠ ⟨m⟩ := by
    have low := h.below p.select.rel (by simp)
    refine fun a ha => ⟨fun inside => ?_, fun same => ?_⟩
    · rw [List.mem_singleton.mp inside] at ha
      omega
    · rw [same] at ha
      exact Nat.lt_irrefl m ha.2
  have reads : ∀ a : Alias, a.id < m → a ≠ ⟨m⟩ := by
    rintro a ha rfl
    exact Nat.lt_irrefl m ha
  obtain ⟨frames, vs, hframes, rfl, made⟩ := group.execute affinity (.select p.select) declared reads hgrouped
  obtain ⟨frames', vs', hframes', rfl, made'⟩ := (h.splits_pair first third).execute affinity
    (.join .inner (.select p.select) (.select q.select) (some (.equals l r))) (by simp)
    (fun a ha => h.ne_next (by rcases ha with rfl | rfl <;> simp)) hjoined
  rw [source_select] at hframes
  obtain ⟨rows, hrows, hframes⟩ := bind_eq_ok.mp hframes
  obtain rfl := Except.ok.inj hframes
  obtain ⟨rows', groups, hrows', rfl, groups_made⟩ := frames_joined (by simp) hframes'
  obtain rfl := Except.ok.inj (hrows.symm.trans hrows')
  have objects := List.forall₂_map_left_iff.mp
    (Lifted.forall₂ (fun _ _ => client_lifted group.unjoined tables _) made)
  obtain ⟨xs, rfl, pairs⟩ : ∃ xs : List (ClientValue × List ClientValue),
      vs = xs.map (fun x => .pair first second x.1 (.list x.2))
      ∧ List.Forall₂ (fun frame v => (client tables (Expr.pair first third p.projector q.projector)
        (Scope.root.extend frame)).run [] = .ok (v, []))
        groups.flatten (xs.flatMap fun x => x.2.map (.pair first third x.1)) := by
    refine exists_beside objects groups_made fun row hrow v group run own => ?_
    obtain ⟨inner, matched, hinner, hmatched, same⟩ := own
    obtain ⟨x, rfl, pairs⟩ := h.beside fresh renamed left right hrows hrow hinner hmatched run
    refine ⟨x, rfl, ?_⟩
    have frames : group = matched.map fun row' => [(p.select.rel, some row), (q.select.rel, some row')] :=
      same.trans List.map_map
    rw [frames, List.forall₂_map_left_iff]
    exact pairs
  have answer := (mapM_run_of_forall₂ pairs).symm.trans made'
  exact ⟨xs, rfl, congrArg _ (Prod.mk.inj (Except.ok.inj answer)).1.symm⟩

end Groups

end Joinable

end Projection

structure Body.Steady (body : Body) (x : Param) (element bound : Expr) : Prop where
  takes : body.params[0]? = some x
  binds : ∀ s : BindState, s.params.lookup x = some element → body.bind.run s = .ok (bound, s)

namespace Binding

variable {ctx : Context} {fuel : Nat} {x y a b : Param} {l r : Expr} {s s₁ s₂ s₂' : BindState}
  {p q : Projection Expr} {outer inner : Binding Expr} {outerKey innerKey : Body}

def pairing (ctx : Context) (fuel : Nat) (first second : String) (a b : Param) : Body :=
  ⟨[a, b], (Expr.pair first second (.param a) (.param b)).bindAt ctx fuel false⟩

theorem pairing_run (operator first second : String) (apart : a ≠ b) {P : Column → Prop} {e e' v : Expr}
    (plain : Plain False P e) {t : BindState}
    (right : (param b).run { s with params := (b, e') :: (a, e) :: s.params } = .ok (v, t)) :
    (apply₂ operator (pairing ctx fuel first second a b) e e').run s = .ok (.pair first second e v, t) := by
  let own : BindState := { s with params := (b, e') :: (a, e) :: s.params }
  have found : own.params.lookup a = some e := by simp [own, List.lookup_cons, beq_false_of_ne apart]
  have bound : ∀ p : Param, (Expr.param p).bindAt ctx fuel false = param p := fun p => by rw [Expr.bindAt]
  have members : yields.gives own ((Expr.pair first second (.param a) (.param b)).bindAt ctx fuel false)
      (.pair first second e v) t := by
    rw [Expr.pair, Expr.bindAt] <;> try simp
    simp only [Expr.traverse, List.mapM_subtype, List.unattach_attach, List.mapM_cons, List.mapM_nil, bound]
    refine yields.bind ?_ (yields.pure _ _)
    refine yields.bind (yields.bind (param_run plain found) (yields.pure _ _)) (yields.bind ?_ (yields.pure _ _))
    exact yields.bind (yields.bind right (yields.pure _ _)) (yields.bind (yields.pure _ _) (yields.pure _ _))
  exact yields.bind (assign_run rfl) (yields.bind (assign_run rfl) members)

/-- A parameter is a copy of what it stands for, under new names. -/
theorem param_renamed {x : Param} {e : Expr} (relational : (Part.expr e).Every Part.Relational) {n : Nat}
    (found : s.params.lookup x = some e) (supply : s.supply = ⟨n⟩) :
    ∃ (names : Renaming) (copy : Expr) (m : Nat) (s' : BindState), (param x).run s = .ok (copy, s')
      ∧ s'.supply = ⟨m⟩ ∧ n ≤ m ∧ names.Fresh (Part.expr e).declared n m
      ∧ Part.Renamed names (.expr e) (.expr copy) := by
  obtain ⟨names, copy, renamed, ⟨m⟩, run, fresh, same, later⟩ := e.copyWithAliases_renamed relational s.supply
  rw [supply] at fresh later
  have copied : (liftM e.copyWithAliases : Binding (Expr × List (Alias × Alias))).run s
      = .ok ((copy, renamed), { s with supply := ⟨m⟩ }) := by
    rw [mint_run, run]
  have bound : ∃ groups, (param x).run s = .ok (copy, { s with supply := ⟨m⟩, groups }) := by
    simp only [param, StateT.run_bind, StateT.run_get, pure_bind, found]
    rw [copied]
    exact ⟨_, rfl⟩
  obtain ⟨groups, bound⟩ := bound
  exact ⟨names, copy, m, _, bound, rfl, later, fresh, same⟩

/-- A lambda applied to the element its parameter stands for. -/
theorem apply_steady {body : Body} {e : Expr} (steady : body.Steady x e l) (operator : String) (s : BindState) :
    (apply operator body e).run s = .ok (l, { s with params := (x, e) :: s.params }) :=
  yields.bind (assign_run steady.takes) (steady.binds _ List.lookup_cons_self)

section Runs

variable (first second : String) (apart : a ≠ b) (left : outerKey.Steady x p.projector l)
  (right : innerKey.Steady y q.projector r) (hp : (sequence ctx outer).run s = .ok (p, s₁))
  (outerPlain : Plain False (·.rel = p.select.rel) p.projector) {n : Nat}
include apart left right hp outerPlain

/-- What a join is bound to. -/
theorem join_run (innerPlain : Plain False (·.rel = q.select.rel) q.projector)
    (hq : (sequence ctx inner).run s₁ = .ok (q, s₂)) (supply : s₂.supply = ⟨n⟩) :
    ∃ s', (join ctx outer inner outerKey innerKey (pairing ctx fuel first second a b)).run s
      = .ok ((Expr.pair first second p.projector q.projector).elementsOver ctx.affinity ⟨n⟩
          (.join .inner (.select p.select) (.select q.select) (some (.equals l r))), s') := by
  let s₃ : BindState := { s₂ with params := (x, p.projector) :: s₂.params }
  let s₄ : BindState := { s₃ with params := (y, q.projector) :: s₃.params }
  have shape : (apply₂ "Join" (pairing ctx fuel first second a b) p.projector q.projector).run s₄
      = .ok (.pair first second p.projector q.projector, _) :=
    pairing_run "Join" first second apart outerPlain (param_run innerPlain List.lookup_cons_self)
  exact ⟨_, yields.bind hp (yields.bind hq (yields.bind (apply_steady left "Join" s₂)
    (yields.bind (apply_steady right "Join" s₃) (yields.bind shape (selectOver_fresh _ _ _ supply)))))⟩

/-- What a group join is bound to: each element is beside a copy of the inner elements of equal key. -/
theorem groupJoin_run (hq : (sequence ctx inner).run { s₁ with params := (x, p.projector) :: s₁.params }
      = .ok (q, s₂))
    (distinct : x ≠ y) (kept : s₂.params.lookup x = some p.projector) (supply : s₂.supply = ⟨n⟩)
    (relational : (Part.expr (.projection (q.matching ctx.affinity n l r))).Every Part.Relational) :
    ∃ (names : Renaming) (group : Expr) (m : Nat) (s' : BindState), n < m
      ∧ names.Fresh (Part.expr (.projection (q.matching ctx.affinity n l r))).declared (n + 1) m
      ∧ Part.Renamed names (.expr (.projection (q.matching ctx.affinity n l r))) (.expr group)
      ∧ (groupJoin ctx outer inner outerKey innerKey (pairing ctx fuel first second a b)).run s
        = .ok ((Expr.pair first second p.projector group).elementsOver ctx.affinity ⟨m⟩ (.select p.select),
          s') := by
  let s₃ : BindState := { s₂ with params := (y, q.projector) :: s₂.params }
  let group := q.matching ctx.affinity n l r
  have condition : yields.gives s₂ (apply "Where" ⟨innerKey.params, do
      return .equals (← innerKey.bind) (← outerKey.bind)⟩ q.projector) (.equals r l) s₃ := by
    refine yields.bind (assign_run right.takes) (yields.bind (right.binds s₃ List.lookup_cons_self)
      (yields.bind (left.binds s₃ ?_) (yields.pure _ _)))
    simpa [s₃, List.lookup_cons, beq_false_of_ne distinct] using kept
  let s₄ : BindState := { s₃ with supply := ⟨n + 1⟩ }
  have filtered : yields.gives { s₁ with params := (x, p.projector) :: s₁.params }
      (filter ctx inner ⟨innerKey.params, do return .equals (← innerKey.bind) (← outerKey.bind)⟩) group s₄ :=
    yields.bind hq (yields.bind condition (yields.bind (selectOver_fresh _ _ _ supply) (yields.pure _ _)))
  let s₅ : BindState := { s₄ with params := (b, .projection group) :: (a, p.projector) :: s₄.params }
  obtain ⟨names, copy, m, s₆, run, supply', later, fresh, renamed⟩ :=
    param_renamed (s := s₅) relational List.lookup_cons_self rfl
  refine ⟨names, copy, m, { s₆ with supply := ⟨m + 1⟩ }, later, fresh, renamed, ?_⟩
  exact yields.bind hp (yields.bind (assign_run left.takes) (yields.bind filtered
    (yields.bind (pairing_run "GroupJoin" first second apart outerPlain run) (selectOver_fresh _ _ _ supply'))))

end Runs

/-- A group join and a join of the same sequences answer with the same pairs: taken apart one by one, in order,
the groups beside the outer elements are the join. -/
theorem execute_groupJoin {n : Nat} {first second third : String} {s₂' s' s'' : BindState}
    {g j : Projection Expr}
    (hp : (sequence ctx outer).run s = .ok (p, s₁)) (hq : (sequence ctx inner).run s₁ = .ok (q, s₂))
    (hq' : (sequence ctx inner).run { s₁ with params := (x, p.projector) :: s₁.params } = .ok (q, s₂'))
    (kept : s₂'.params.lookup x = some p.projector) (supply : s₂.supply = ⟨n⟩) (supply' : s₂'.supply = ⟨n⟩)
    (left : outerKey.Steady x p.projector l) (right : innerKey.Steady y q.projector r) (distinct : x ≠ y)
    (apart : a ≠ b) (joinable : p.Joinable q l r n)
    (hg : (groupJoin ctx outer inner outerKey innerKey (pairing ctx fuel first second a b)).run s = .ok (g, s'))
    (hj : (join ctx outer inner outerKey innerKey (pairing ctx fuel first third a b)).run s = .ok (j, s''))
    {tables : Tables} (exact : p.ExactKeys tables l) (exact' : q.ExactKeys tables r) {grouped joined : ClientValue}
    (hgrouped : (Expr.projection g).execute tables = .ok grouped)
    (hjoined : (Expr.projection j).execute tables = .ok joined) :
    ∃ groups : List (ClientValue × List ClientValue),
      grouped = .list (groups.map fun x => .pair first second x.1 (.list x.2))
      ∧ joined = .list (groups.flatMap fun x => x.2.map (.pair first third x.1)) := by
  obtain ⟨names, group, m, _, later, fresh, renamed, run⟩ := groupJoin_run first second apart left right hp
    joinable.outer hq' distinct kept supply' ((joinable.portable_matching ctx.affinity).mono fun _ => And.right)
  obtain rfl := (Prod.mk.inj (Except.ok.inj (hg.symm.trans run))).1
  obtain ⟨_, run'⟩ := join_run first third apart left right hp joinable.outer joinable.inner hq supply
  obtain rfl := (Prod.mk.inj (Except.ok.inj (hj.symm.trans run'))).1
  exact joinable.flattens fresh renamed exact exact' later hgrouped hjoined

end Binding

namespace Mapping.Entity

variable (e e' : Mapping.Entity) {rel rel' table table' : Alias}

theorem references_rows : ∀ a ∈ (Part.select (e.rows rel table).select).references, a = table := by
  refine Part.Every.of_mem_gather (Part.every_forwarding (by simp [Part.reads]) (fun c hc a ha => ?_)
    (.node (by simp [Part.reads]) (by simp [Part.parts])) (by simp))
  exact (List.mem_singleton.mp ha).trans hc

theorem declared_select_rows : (Part.select (e.rows rel table).select).declared = [rel, table] := by
  have stored : (Part.expr (.table ⟨table, e.name, e.table⟩)).declared = [table] := by
    rw [Part.declared_eq]
    rfl
  simp [rows, Part.declared_forwarding, stored]

theorem portable_rows : (Part.select (e.rows rel table).select).Every Part.Portable := by
  have plain : ∀ p : Part, p.Tame (fun _ => True) (fun _ => True) → p.Unjoined → p.Relational → p.Portable :=
    fun _ tame unjoined relational => ⟨⟨tame, unjoined⟩, relational⟩
  exact Part.every_forwarding (plain _ ⟨trivial, by simp [Select.forwarding, Select.plain]⟩ trivial trivial)
    (fun _ _ => plain _ trivial trivial trivial)
    (.node (plain _ trivial trivial trivial) (by simp [Part.parts])) (by simp)

/-- The rows of two tables, each with a column of its own as its key. -/
theorem joinable_rows (apart : rel ≠ rel') (apart' : rel ≠ table') (k k' : Slot) {n : Nat}
    (below : ∀ a ∈ [rel, rel', table'], a.id < n) :
    (e.rows rel table).Joinable (e'.rows rel' table') (.column (k.ref rel)) (.column (k'.ref rel')) n where
  outer := plain_record _ _ _
  inner := plain_record _ _ _
  outerKey := .column rfl
  innerKey := .column rfl
  rows := e'.portable_rows
  unread := fun read => apart' (e'.references_rows _ read)
  undeclared := by
    rw [declared_select_rows]
    simp [rows, Select.plain, Select.forwarding, apart, apart']
  below := by
    intro a ha
    rcases List.mem_cons.mp ha with same | ha
    · rw [same]
      exact below rel (by simp)
    · rcases List.mem_cons.mp ha with same | ha
      · rw [same]
        exact below rel' (by simp)
      · exact below _ (by simp [e'.references_rows a ha])

variable {e} {name : String} {m : Mapping.Member}

theorem exactKeys_rows (mapped : e.member? name = some m) {tables : Tables}
    (exact : ∀ row ∈ tables.stored e, (m.value row).Exact) :
    (e.rows rel table).ExactKeys tables (.column ((e.slot m).ref rel)) := by
  intro rows hrows row hrow v hv
  obtain ⟨base, stored, -, rfl⟩ := select_rows.mp hrows
  obtain ⟨r, hr, rfl⟩ := List.mem_map.mp hrow
  have value := (get?_slot mapped r).symm.trans (Select.found_of_scalar hv)
  rw [← Option.some.inj value]
  refine exact r ?_
  rw [Tables.stored, stored]
  exact hr

end Mapping.Entity

namespace Expr

variable {ctx : Context} {fuel : Nat} {e e' : Mapping.Entity} {m m' : Mapping.Member} {table table' : String}
  {x y a b : Param} {member member' : String}

def groupJoinOf (table table' : String) (x y a b : Param) (member member' first second : String) : Expr :=
  .operator (.groupJoin (.operator (.table table)) (.operator (.table table')) ⟨[x], .member (.param x) member⟩
    ⟨[y], .member (.param y) member'⟩ ⟨[a, b], .pair first second (.param a) (.param b)⟩)

def joinOf (table table' : String) (x y a b : Param) (member member' first second : String) : Expr :=
  .operator (.join (.operator (.table table)) (.operator (.table table')) ⟨[x], .member (.param x) member⟩
    ⟨[y], .member (.param y) member'⟩ ⟨[a, b], .pair first second (.param a) (.param b)⟩)

theorem groupJoinOf_bindAt (first second : String) (root : Bool) :
    (groupJoinOf table table' x y a b member member' first second).bindAt ctx fuel root = do
      return .projection (← Binding.groupJoin ctx ((Expr.operator (.table table)).bindAt ctx fuel false)
        ((Expr.operator (.table table')).bindAt ctx fuel false)
        ⟨[x], (Expr.member (.param x) member).bindAt ctx fuel false⟩
        ⟨[y], (Expr.member (.param y) member').bindAt ctx fuel false⟩
        (Binding.pairing ctx fuel first second a b)) := by
  obtain ⟨_, operator⟩ := Expr.bindAt_operator ctx fuel root (.groupJoin (.operator (.table table))
    (.operator (.table table')) ⟨[x], .member (.param x) member⟩ ⟨[y], .member (.param y) member'⟩
    ⟨[a, b], .pair first second (.param a) (.param b)⟩)
  rw [groupJoinOf, operator]
  rfl

theorem joinOf_bindAt (first second : String) (root : Bool) :
    (joinOf table table' x y a b member member' first second).bindAt ctx fuel root = do
      return .projection (← Binding.join ctx ((Expr.operator (.table table)).bindAt ctx fuel false)
        ((Expr.operator (.table table')).bindAt ctx fuel false)
        ⟨[x], (Expr.member (.param x) member).bindAt ctx fuel false⟩
        ⟨[y], (Expr.member (.param y) member').bindAt ctx fuel false⟩
        (Binding.pairing ctx fuel first second a b)) := by
  obtain ⟨_, operator⟩ := Expr.bindAt_operator ctx fuel root (.join (.operator (.table table))
    (.operator (.table table')) ⟨[x], .member (.param x) member⟩ ⟨[y], .member (.param y) member'⟩
    ⟨[a, b], .pair first second (.param a) (.param b)⟩)
  rw [joinOf, operator]
  rfl

theorem steady_member (mapped : e.member? member = some m) (rel : Alias) :
    (Body.mk [x] ((Expr.member (.param x) member).bindAt ctx fuel false)).Steady x (.record e.name rel e.seen)
      (.column ((e.slot m).ref rel)) where
  takes := rfl
  binds := by
    intro s found
    rw [← bindMember_record ((e.find?_seen member).trans (congrArg _ mapped))]
    exact Binding.record_run found member false

theorem extent_joinOf (first second third : String) :
    (Part.expr (joinOf table table' x y a b member member' first third)).extent
      = (Part.expr (groupJoinOf table table' x y a b member member' first second)).extent := by
  have result : ∀ name, (Part.expr (.pair first name (.param a) (.param b))).extent
      = 1 + ((Part.expr (.param a)).extent + (Part.expr (.param b)).extent) := by
    intro name
    rw [Part.extent_eq]
    simp [pair, Part.operands, Part.parts]
  rw [Part.extent_eq, Part.extent_eq (.expr (groupJoinOf ..))]
  simp [joinOf, groupJoinOf, Part.operands, Operator.exprs, result]

/-- A group join of two tables, taken apart one by one, is their join. -/
theorem groupJoin_flattens (resolved : ctx.mapping.resolve table = .ok e)
    (resolved' : ctx.mapping.resolve table' = .ok e') (mapped : e.member? member = some m)
    (mapped' : e'.member? member' = some m') (distinct : x ≠ y) (apart : a ≠ b) (first second third : String)
    (supply : Supply) :
    ∃ g j after after', ((groupJoinOf table table' x y a b member member' first second).bind ctx).run supply
        = .ok (g, after)
      ∧ ((joinOf table table' x y a b member member' first third).bind ctx).run supply = .ok (j, after')
      ∧ ∀ tables : Tables, (∀ row ∈ tables.stored e, (m.value row).Exact) →
        (∀ row ∈ tables.stored e', (m'.value row).Exact) → ∀ grouped joined, g.execute tables = .ok grouped →
        j.execute tables = .ok joined → ∃ groups : List (ClientValue × List ClientValue),
          grouped = .list (groups.map fun x => .pair first second x.1 (.list x.2))
          ∧ joined = .list (groups.flatMap fun x => x.2.map (.pair first third x.1)) := by
  obtain ⟨n⟩ := supply
  let outer := e.rows ⟨n + 1⟩ ⟨n⟩
  let inner := e'.rows ⟨n + 3⟩ ⟨n + 2⟩
  let fuel := (Part.expr (groupJoinOf table table' x y a b member member' first second)).extent
  let s₁ : BindState := { Binding.start ⟨n⟩ with supply := ⟨n + 2⟩ }
  let s₂ : BindState := { s₁ with params := (x, outer.projector) :: s₁.params }
  have hp : (Binding.sequence ctx ((Expr.operator (.table table)).bindAt ctx fuel false)).run (Binding.start ⟨n⟩)
      = .ok (outer, s₁) := sequence_run (Binding.table_run resolved false rfl)
  have hq : ∀ s : BindState, s.supply = ⟨n + 2⟩ →
      (Binding.sequence ctx ((Expr.operator (.table table')).bindAt ctx fuel false)).run s
        = .ok (inner, { s with supply := ⟨n + 4⟩ }) :=
    fun s supply => sequence_run (Binding.table_run resolved' false supply)
  have left : Body.Steady ⟨[x], (Expr.member (.param x) member).bindAt ctx fuel false⟩ x outer.projector _ :=
    steady_member mapped ⟨n + 1⟩
  have right : Body.Steady ⟨[y], (Expr.member (.param y) member').bindAt ctx fuel false⟩ y inner.projector _ :=
    steady_member mapped' ⟨n + 3⟩
  have joinable : outer.Joinable inner (.column ((e.slot m).ref ⟨n + 1⟩)) (.column ((e'.slot m').ref ⟨n + 3⟩))
      (n + 4) := e.joinable_rows e' (by simp) (by simp) _ _ (by simp)
  obtain ⟨_, group, k, _, -, -, -, grouping⟩ := Binding.groupJoin_run first second apart left right hp
    joinable.outer (hq s₂ rfl) distinct List.lookup_cons_self rfl
    ((joinable.portable_matching ctx.affinity).mono fun _ => And.right)
  obtain ⟨_, joining⟩ := Binding.join_run first third apart left right hp joinable.outer joinable.inner
    (hq s₁ rfl) rfl
  have grouped : ((groupJoinOf table table' x y a b member member' first second).bind ctx).run ⟨n⟩ = .ok _ :=
    bind_of_run (by rw [groupJoinOf_bindAt]; exact Binding.yields.bind grouping (Binding.yields.pure _ _))
  have joined : ((joinOf table table' x y a b member member' first third).bind ctx).run ⟨n⟩ = .ok _ :=
    bind_of_run (by
      rw [extent_joinOf first second, joinOf_bindAt]
      exact Binding.yields.bind joining (Binding.yields.pure _ _))
  refine ⟨_, _, _, _, grouped, joined, fun tables exact exact' _ _ hgrouped hjoined => ?_⟩
  exact Binding.execute_groupJoin hp (hq s₁ rfl) (hq s₂ rfl) List.lookup_cons_self rfl rfl left right distinct
    apart joinable grouping joining (Mapping.Entity.exactKeys_rows mapped exact)
    (Mapping.Entity.exactKeys_rows mapped' exact') hgrouped hjoined

end Expr

namespace Sample

def customerOrders : Expr :=
  .groupJoinOf "Customers" "Orders" ⟨0⟩ ⟨1⟩ ⟨2⟩ ⟨3⟩ "CustomerID" "CustomerID" "Customer" "Orders"

def customerOrder : Expr :=
  .joinOf "Customers" "Orders" ⟨0⟩ ⟨1⟩ ⟨2⟩ ⟨3⟩ "CustomerID" "CustomerID" "Customer" "Order"

/-- Both queries answer, with the same orders beside the same customers. -/
theorem execute_customerOrders : ∃ g j s s', ∃ groups : List (ClientValue × List ClientValue),
    (customerOrders.bind (context .ansi .server)).run ⟨0⟩ = .ok (g, s)
      ∧ (customerOrder.bind (context .ansi .server)).run ⟨0⟩ = .ok (j, s')
      ∧ g.execute Sample.tables = .ok (.list (groups.map fun x => .pair "Customer" "Orders" x.1 (.list x.2)))
      ∧ j.execute Sample.tables
        = .ok (.list (groups.flatMap fun x => x.2.map (.pair "Customer" "Order" x.1))) := by
  have grouped : ((customerOrders.bind (context .ansi .server)).run ⟨0⟩).toOption.any (fun r =>
      (r.1.execute Sample.tables).toOption.any fun _ => true) = true := by
    conv =>
      arg 1
      arg 2
      cbv
    decide +kernel
  have joined : ((customerOrder.bind (context .ansi .server)).run ⟨0⟩).toOption.any (fun r =>
      (r.1.execute Sample.tables).toOption.any fun _ => true) = true := by
    conv =>
      arg 1
      arg 2
      cbv
    decide +kernel
  have resolved : (context .ansi .server).mapping.resolve "Customers" = .ok customer := rfl
  have resolved' : (context .ansi .server).mapping.resolve "Orders" = .ok order := rfl
  have mapped : customer.member? "CustomerID" = some (key "CustomerID" .text) := rfl
  have mapped' : order.member? "CustomerID" = some (member "CustomerID" .text) := rfl
  have texts : ∀ row ∈ customers, KeyType.text.admits ((key "CustomerID" .text).value row) := by decide
  have texts' : ∀ row ∈ orders, KeyType.text.admits ((member "CustomerID" .text).value row) := by decide
  obtain ⟨g, j, s, s', hg, hj, same⟩ := Expr.groupJoin_flattens (x := ⟨0⟩) (y := ⟨1⟩) (a := ⟨2⟩) (b := ⟨3⟩)
    resolved resolved' mapped mapped' (by decide) (by decide) "Customer" "Orders" "Order" ⟨0⟩
  obtain ⟨r, hr, grouped⟩ := exists_ok_of_any grouped
  obtain ⟨v, hgrouped, -⟩ := exists_ok_of_any grouped
  obtain ⟨r', hr', joined⟩ := exists_ok_of_any joined
  obtain ⟨w, hjoined, -⟩ := exists_ok_of_any joined
  obtain rfl := Except.ok.inj (hr.symm.trans hg)
  obtain rfl := Except.ok.inj (hr'.symm.trans hj)
  obtain ⟨groups, rfl, rfl⟩ := same Sample.tables (fun row hrow => (texts row hrow).exact)
    (fun row hrow => (texts' row hrow).exact) _ _ hgrouped hjoined
  exact ⟨g, j, s, s', groups, hg, hj, hgrouped, hjoined⟩

end Sample

end ObjectQuery
