import ObjectQuery.Proofs.Mirroring
import ObjectQuery.Proofs.RepeatedSides

/-!
Evaluating a tree in which some joins are missing. Another alias stands in for the alias of a missing join:
under this alias the one tree sees the row that the other tree sees under the alias of its join. Along the
way it is told what is left of the tree: its aliases, what it refers to, and what it sees.
-/

namespace ObjectQuery

open Eval

variable {tables : Tables} {θ : Alias → Alias} {U V W : List Alias}

structure Wider (θ : Alias → Alias) (V U : List Alias) : Prop where
  sub : V ⊆ U
  apart : ∀ x ∈ U, x ∉ V → θ x ∉ V

theorem Wider.refl (V : List Alias) : Wider θ V V := ⟨List.Subset.refl V, fun _ h h' => absurd h h'⟩

structure Frame.Trims (θ : Alias → Alias) (V : List Alias) (f f₀ : Frame) : Prop where
  rows : ∀ x ∈ V, f.reverse.lookup (θ x) = f₀.reverse.lookup x
  binds : ∀ x ∈ f.map (·.1), x ∈ V
  binds₀ : ∀ x ∈ f₀.map (·.1), x ∈ V

namespace Frame

theorem lookup_none {f : Frame} {x : Alias} (h : x ∉ f.map (·.1)) : f.lookup x = none := by
  refine List.lookup_eq_none_iff.mpr fun entry hentry => bne_iff_ne.mpr ?_
  rintro rfl
  exact h (List.mem_map_of_mem hentry)

theorem lookup_reverse_none {f : Frame} {x : Alias} (h : x ∉ f.map (·.1)) : f.reverse.lookup x = none :=
  lookup_none (by simpa using h)

/-- What is found under a name that a frame has once. -/
theorem lookup_of_mem {f : Frame} (nodup : (f.map (·.1)).Nodup) {x : Alias} {row : Option Row}
    (h : (x, row) ∈ f) : f.lookup x = some row := by
  induction f with
  | nil => cases h
  | cons entry rest ih =>
    obtain ⟨first, rest'⟩ := List.nodup_cons.mp nodup
    rw [List.lookup_cons]
    rcases List.mem_cons.mp h with rfl | h
    · rw [beq_self_eq_true]
    · have other : x ≠ entry.1 := by
        rintro rfl
        exact first (List.mem_map_of_mem (f := (·.1)) h)
      rw [beq_false_of_ne other]
      exact ih rest' h

namespace Trims

variable {f f₀ g g₀ : Frame}

theorem widen (h : Frame.Trims θ V f f₀) (wider : Wider θ V U) : Frame.Trims θ U f f₀ where
  rows x hx := by
    by_cases inside : x ∈ V
    · exact h.rows x inside
    · rw [lookup_reverse_none fun bound => wider.apart x hx inside (h.binds _ bound),
        lookup_reverse_none fun bound => inside (h.binds₀ _ bound)]
  binds x hx := wider.sub (h.binds x hx)
  binds₀ x hx := wider.sub (h.binds₀ x hx)

theorem append (hf : Frame.Trims θ V f f₀) (hg : Frame.Trims θ V g g₀) :
    Frame.Trims θ V (f ++ g) (f₀ ++ g₀) where
  rows x hx := by
    rw [List.reverse_append, List.reverse_append, List.lookup_append, List.lookup_append, hf.rows x hx,
      hg.rows x hx]
  binds x hx := by
    rw [List.map_append] at hx
    exact (List.mem_append.mp hx).elim (hf.binds x) (hg.binds x)
  binds₀ x hx := by
    rw [List.map_append] at hx
    exact (List.mem_append.mp hx).elim (hf.binds₀ x) (hg.binds₀ x)

/-- A row under an alias that stands for itself alone. -/
theorem single {a : Alias} (own : θ a = a) (away : ∀ x ∈ V, x ≠ a ∧ θ x ≠ a) (row : Option Row) :
    Frame.Trims θ (a :: V) [(a, row)] [(a, row)] where
  rows x hx := by
    rcases List.mem_cons.mp hx with rfl | around
    · rw [own]
    · obtain ⟨other, other'⟩ := away x around
      simp [List.lookup_cons, beq_false_of_ne other, beq_false_of_ne other']
  binds x hx := by simp_all
  binds₀ x hx := by simp_all

theorem empty : Frame.Trims θ V [] [] := ⟨fun _ _ => rfl, by simp, by simp⟩

/-- Frames without rows. -/
theorem nulls {l l₀ : List Alias} (shows : l ⊆ l₀) (finds : ∀ x ∈ l₀, θ x ∈ l) (away : ∀ x ∈ V, θ x ∉ l₀) :
    Frame.Trims θ (l₀ ++ V) (l.map fun a => (a, none)) (l₀.map fun a => (a, none)) := by
  have found : ∀ (l : List Alias) (x : Alias), ((l.map fun a => (a, none)).reverse : Frame).lookup x
      = if x ∈ l then some none else none := by
    intro l x
    split
    · rename_i inside
      rw [← List.map_reverse]
      have inside : x ∈ l.reverse := List.mem_reverse.mpr inside
      generalize l.reverse = l at inside
      induction l with
      | nil => cases inside
      | cons a l ih =>
        rw [List.map_cons, List.lookup_cons]
        by_cases here : x = a
        · simp [here]
        · rw [beq_false_of_ne here]
          exact ih ((List.mem_cons.mp inside).resolve_left here)
    · rename_i outside
      exact lookup_reverse_none (by simpa using outside)
  refine ⟨fun x hx => ?_, fun x hx => ?_, fun x hx => ?_⟩
  · rw [found, found]
    by_cases inside : x ∈ l₀
    · rw [if_pos inside, if_pos (finds x inside)]
    · have around : x ∈ V := (List.mem_append.mp hx).resolve_left inside
      rw [if_neg inside, if_neg fun h => away x around (shows h)]
  · exact List.mem_append_left _ (shows (by simpa using hx))
  · exact List.mem_append_left _ (by simpa using hx)

end Trims

end Frame

structure Scope.Trims (θ : Alias → Alias) (V : List Alias) (σ σ₀ : Scope) : Prop where
  rows : ∀ x ∈ V, σ.rows.lookup (θ x) = σ₀.rows.lookup x
  binds : ∀ x ∈ σ.rows.map (·.1), x ∈ V
  binds₀ : ∀ x ∈ σ₀.rows.map (·.1), x ∈ V
  group : Option.Rel (List.Forall₂ (Frame.Trims θ V)) σ.group σ₀.group
  number : σ.rowNumber = σ₀.rowNumber

namespace Scope.Trims

variable {σ σ₀ τ τ₀ : Scope} {f f₀ : Frame}

theorem root : Scope.Trims θ V .root .root :=
  ⟨fun _ _ => rfl, by simp [Scope.root], by simp [Scope.root], .none, rfl⟩

theorem widen (h : Scope.Trims θ V σ σ₀) (wider : Wider θ V U) : Scope.Trims θ U σ σ₀ where
  rows x hx := by
    by_cases inside : x ∈ V
    · exact h.rows x inside
    · rw [Frame.lookup_none fun bound => wider.apart x hx inside (h.binds _ bound),
        Frame.lookup_none fun bound => inside (h.binds₀ _ bound)]
  binds x hx := wider.sub (h.binds x hx)
  binds₀ x hx := wider.sub (h.binds₀ x hx)
  group := optionRel_imp_mem h.group fun _ _ _ hg => hg.imp fun _ _ hf => hf.widen wider
  number := h.number

theorem extend (h : Scope.Trims θ V σ σ₀) (hf : Frame.Trims θ V f f₀) :
    Scope.Trims θ V (σ.extend f) (σ₀.extend f₀) where
  rows x hx := by
    simp only [Scope.extend]
    rw [List.lookup_append, List.lookup_append, hf.rows x hx, h.rows x hx]
  binds x hx := by
    simp only [Scope.extend, List.map_append, List.map_reverse, List.mem_append, List.mem_reverse] at hx
    exact hx.elim (hf.binds x) (h.binds x)
  binds₀ x hx := by
    simp only [Scope.extend, List.map_append, List.map_reverse, List.mem_append, List.mem_reverse] at hx
    exact hx.elim (hf.binds₀ x) (h.binds₀ x)
  group := .none
  number := rfl

theorem inner (h : Scope.Trims θ V σ σ₀) (inner : Inner (Frame.Trims θ V) σ σ₀ τ τ₀) :
    Scope.Trims θ V τ τ₀ := by
  cases inner with
  | frame hf => exact h.extend hf
  | group hf hg => exact { h.extend hf with group := .some hg, number := rfl }

theorem numbered (h : Scope.Trims θ V σ σ₀) (n : Option Nat) :
    Scope.Trims θ V { σ with rowNumber := n } { σ₀ with rowNumber := n } :=
  { h with number := rfl }

/-- Only what stands in for the listed aliases matters. -/
theorem congr {θ' : Alias → Alias} (h : Scope.Trims θ V σ σ₀) (agree : ∀ x ∈ V, θ x = θ' x) :
    Scope.Trims θ' V σ σ₀ where
  rows x hx := agree x hx ▸ h.rows x hx
  binds := h.binds
  binds₀ := h.binds₀
  group := optionRel_imp_mem h.group fun _ _ _ hg => hg.imp fun _ _ hf =>
    ⟨fun x hx => agree x hx ▸ hf.rows x hx, hf.binds, hf.binds₀⟩
  number := h.number

/-- Nothing else is in sight of the first scope. -/
theorem bound (h : Scope.Trims θ V σ σ₀) : ∀ x, σ.Binds x → x ∈ V := by
  rintro x (hx | ⟨frames, hg, f, hf, hx⟩)
  · exact h.binds x hx
  · have group := h.group
    rw [Option.mem_def.mp hg] at group
    generalize σ₀.group = group₀ at group
    cases group with
    | some related =>
      obtain ⟨f₀, -, trims⟩ := exists_of_forall₂_right related.flip f hf
      exact trims.binds x hx

end Scope.Trims

def Part.Lucid (p : Part) : Prop := p.Floatless ∧ p.Groupless ∧ p.LeftDeep

structure Part.Remains (θ : Alias → Alias) (p p₀ : Part) : Prop where
  nodes : p.Every Part.Lucid
  declared : p.declared.Sublist p₀.declared
  refs : ∀ y ∈ p.references, ∃ x ∈ p₀.references, θ x = y

theorem sublist_flatMap {α β γ : Type} {R : α → β → Prop} {as : List α} {bs : List β}
    (h : List.Forall₂ R as bs) {f : α → List γ} {g : β → List γ} (sub : ∀ a b, R a b → (f a).Sublist (g b)) :
    (as.flatMap f).Sublist (bs.flatMap g) := by
  induction h with
  | nil => exact .refl _
  | cons hab _ ih =>
    rw [List.flatMap_cons, List.flatMap_cons]
    exact (sub _ _ hab).append ih

/-- Nodes over what is left of the parts. -/
theorem Part.Remains.of_parts {p p₀ : Part} (here : p.Lucid) (noColumn : ∀ c, p ≠ .expr (.column c))
    (binds : p.binds = p₀.binds) (parts : List.Forall₂ (Part.Remains θ) p.parts p₀.parts) :
    Part.Remains θ p p₀ where
  nodes := .node here fun q hq => by
    obtain ⟨q₀, -, h⟩ := exists_of_forall₂_right parts.flip q hq
    exact h.nodes
  declared := by
    rw [Part.declared_eq, Part.declared_eq, binds]
    exact (List.Sublist.refl _).append (sublist_flatMap parts fun _ _ h => h.declared)
  refs y hy := by
    rw [Part.references_eq, List.mem_append] at hy
    rcases hy with own | hy
    · have groupless := here.2.1
      unfold Part.reads at own
      split at own
      · exact absurd rfl (noColumn _)
      · exact groupless.elim
      · cases own
    · obtain ⟨q, hq, inside⟩ := List.mem_flatMap.mp hy
      obtain ⟨q₀, hq₀, h⟩ := exists_of_forall₂_right parts.flip q hq
      obtain ⟨x, hx, rfl⟩ := h.refs y inside
      exact ⟨x, Part.references_subset hq₀ hx, rfl⟩

def Expr.TrimsValue (tables : Tables) (θ : Alias → Alias) (V : List Alias) (e e₀ : Expr) : Prop :=
  ∀ σ σ₀ : Scope, Scope.Trims θ V σ σ₀ → Follows Eq (Eval.scalar tables e σ) (Eval.scalar tables e₀ σ₀)

def Part.Away (θ : Alias → Alias) (V : List Alias) (p : Part) : Prop :=
  ∀ x ∈ V, x ∉ p.declared ∧ θ x ∉ p.declared

/-- Wherever the listed aliases are in sight, the first expression goes along with the second, and it sees
what stands in for these. -/
structure Expr.Trims (tables : Tables) (θ : Alias → Alias) (V : List Alias) (e e₀ : Expr) : Prop where
  value : e.TrimsValue tables θ V e₀
  frames : ∀ σ σ₀ : Scope, Scope.Trims θ V σ σ₀ →
    Follows (List.Forall₂ (Frame.Trims θ (e₀.declares ++ V))) (source tables e σ) (source tables e₀ σ₀)
  objects : ∀ σ σ₀ : Scope, Scope.Trims θ V σ σ₀ → FollowsRun (client tables e σ) (client tables e₀ σ₀)
  orders : Option.Rel (List.Forall₂ fun o o₀ => o.direction = o₀.direction
    ∧ o.expr.TrimsValue tables θ V o₀.expr) e.rowOrders? e₀.rowOrders?
  shows : e.declares ⊆ e₀.declares
  finds : ∀ x ∈ e₀.declares, θ x ∈ e.declares
  away : (Part.expr e₀).Away θ V
  aggregates : (Part.expr e).aggregates = (Part.expr e₀).aggregates
  sees : ∀ U : List Alias, (∀ x ∈ V, θ x ∈ U) → (Part.expr e).InScope U
  remains : Part.Remains θ (.expr e) (.expr e₀)
  alone : (∀ k l r c, e₀ ≠ .join k l r c) → RepeatedJoins.sourceAlias? e = RepeatedJoins.sourceAlias? e₀
    ∧ ∀ k l r c, e ≠ .join k l r c

structure Select.Trims (tables : Tables) (θ : Alias → Alias) (V : List Alias) (s s₀ : Select Expr) :
    Prop where
  rel : s.rel = s₀.rel
  own : θ s₀.rel = s₀.rel
  away : (Part.select s₀).Away θ V
  names : s.columnNames = s₀.columnNames
  rows : ∀ σ σ₀ : Scope, Scope.Trims θ V σ σ₀ → Follows Eq (Eval.select tables s σ) (Eval.select tables s₀ σ₀)
  aggregates : (Part.select s).aggregates = (Part.select s₀).aggregates
  sees : ∀ U : List Alias, (∀ x ∈ V, θ x ∈ U) → (Part.select s).InScope U
  remains : Part.Remains θ (.select s) (.select s₀)

structure Projection.Trims (tables : Tables) (θ : Alias → Alias) (V : List Alias)
    (p p₀ : Projection Expr) : Prop where
  select : p.select.Trims tables θ V p₀.select
  projector : p.projector.Trims tables θ (p₀.select.rel :: V) p₀.projector
  pick : p.pick = p₀.pick

section Trees

variable {e e₀ : Expr} {s s₀ : Select Expr} {p p₀ : Projection Expr} {σ σ₀ : Scope}

/-- What a source shows is new. -/
theorem Expr.Trims.wider (h : e.Trims tables θ V e₀) : Wider θ V (e₀.declares ++ V) where
  sub := List.subset_append_right _ _
  apart x hx outside around := by
    have shown : x ∈ e₀.declares := (List.mem_append.mp hx).resolve_right outside
    exact (h.away _ around).1 (Part.declares_subset_declared e₀ (h.shows (h.finds x shown)))

theorem Expr.Trims.nulls (h : e.Trims tables θ V e₀) :
    Frame.Trims θ (e₀.declares ++ V) (nullFrame (some e)) (nullFrame (some e₀)) :=
  .nulls h.shows h.finds fun x hx shown => (h.away x hx).2 (Part.declares_subset_declared e₀ shown)

theorem Select.Trims.single (h : s.Trims tables θ V s₀) (row : Option Row) :
    Frame.Trims θ (s₀.rel :: V) [(s₀.rel, row)] [(s₀.rel, row)] := by
  have declared : s₀.rel ∈ (Part.select s₀).declared := Part.binds_subset _ (List.mem_singleton_self _)
  refine .single h.own (fun x hx => ⟨?_, fun same => ?_⟩) row
  · rintro rfl
    exact (h.away _ hx).1 declared
  · exact (h.away x hx).2 (same ▸ declared)

theorem Select.Trims.wider (h : s.Trims tables θ V s₀) : Wider θ V (s₀.rel :: V) where
  sub := List.subset_cons_self _ _
  apart x hx outside around := by
    obtain rfl := (List.mem_cons.mp hx).resolve_right outside
    exact outside (h.own ▸ around)

/-- A row of the select is in sight. -/
theorem Scope.Trims.bind (hσ : Scope.Trims θ V σ σ₀) (h : s.Trims tables θ V s₀) (row : Row) :
    Scope.Trims θ (s₀.rel :: V) (σ.bind s.rel row) (σ₀.bind s.rel row) := by
  rw [h.rel]
  exact (hσ.widen h.wider).extend (h.single _)

theorem Projection.Trims.objects (h : p.Trims tables θ V p₀) (hσ : Scope.Trims θ V σ σ₀) :
    FollowsRun (project tables p σ) (project tables p₀ σ₀) := by
  refine project_follows h.select.rel h.pick (h.select.rows σ σ₀ hσ).forall₂_eq ?_
  rintro row _ rfl
  exact h.projector.objects _ _ (hσ.bind h.select row)

theorem Projection.Trims.joined (h : p.Trims tables θ V p₀) {inner inner₀ : List Expr}
    (keys : List.Forall₂ (Expr.Trims tables θ (p₀.select.rel :: V)) inner inner₀) :
    FollowsRun (joinedRows tables p inner) (joinedRows tables p₀ inner₀) := by
  have inRow : ∀ row : Row, Scope.Trims θ (p₀.select.rel :: V) (Scope.root.bind p.select.rel row)
      (Scope.root.bind p.select.rel row) := Scope.Trims.root.bind h.select
  refine joinedRows_follows h.select.rel (h.select.rows _ _ .root).forall₂_eq ?_ ?_
  · rintro row _ rfl
    exact keys.imp fun _ _ h => h.value _ _ (inRow row)
  · rintro row _ rfl
    exact h.projector.objects _ _ (inRow row)

theorem Select.Trims.sees_row (h : s.Trims tables θ V s₀) (sub : ∀ x ∈ V, θ x ∈ U) :
    ∀ x ∈ s₀.rel :: V, θ x ∈ s.rel :: U := by
  intro x hx
  rcases List.mem_cons.mp hx with rfl | around
  · rw [h.own, h.rel]
    exact List.mem_cons_self
  · exact List.mem_cons_of_mem _ (sub x around)

theorem Projection.Trims.sees (h : p.Trims tables θ V p₀) (sub : ∀ x ∈ V, θ x ∈ U) :
    (Part.projection p).InScope U := by
  refine .node (by simp) ?_
  simp only [Part.views, List.mem_cons, List.not_mem_nil, or_false, forall_eq_or_imp, forall_eq]
  exact ⟨h.projector.sees _ (h.select.sees_row sub), h.select.sees _ sub⟩

theorem Projection.Trims.remains (h : p.Trims tables θ V p₀) :
    Part.Remains θ (.projection p) (.projection p₀) :=
  .of_parts ⟨trivial, trivial, trivial⟩ (by simp) rfl
    (.cons h.select.remains (.cons h.projector.remains .nil))

theorem Projection.Trims.aggregates (h : p.Trims tables θ V p₀) :
    (Part.projection p).aggregates = (Part.projection p₀).aggregates :=
  Part.aggregates_congr rfl rfl (.cons h.select.aggregates (.cons h.projector.aggregates .nil))

end Trees

theorem Expr.Level.views {e : Expr} (level : e.Level) (U : List Alias) :
    (Part.expr e).views U = (Part.expr e).parts.map fun q => (U, q) := by
  cases e with
  | join _ _ _ _ | clientJoin _ _ _ => exact level.elim
  | _ => rfl

namespace Expr.Trims

variable {e e₀ : Expr} {σ σ₀ : Scope}

/-- A column is read under what stands in for its alias. -/
theorem column {c : Column} (visible : c.rel ∈ V) :
    Expr.Trims tables θ V (.column { c with rel := θ c.rel }) (.column c) := by
  have value : Expr.TrimsValue tables θ V (.column { c with rel := θ c.rel }) (.column c) := by
    intro σ σ₀ hσ
    rw [Eval.scalar, Eval.scalar, Scope.column, Scope.column, hσ.rows c.rel visible]
    cases σ₀.rows.lookup c.rel with
    | none => exact .error _ _
    | some row =>
      cases row with
      | none => exact .refl _
      | some row =>
        simp only
        split
        · exact .refl _
        · exact .error _ _
  have bare : ∀ c : Column, (Part.expr (.column c)).declared = [] := fun c => by
    rw [Part.declared_eq]
    rfl
  refine ⟨value, fun σ σ₀ _ => ?_, fun σ σ₀ hσ => ?_, .none, List.Subset.refl _, by simp [Expr.declares],
    fun x _ => by simp [bare], ?_, fun U sub => ?_, ⟨?_, by simp [bare], ?_⟩, fun _ => ⟨rfl, by simp⟩⟩
  · simp only [source]
    exact .error _ _
  · simp only [client]
    exact (FollowsRun.lift (value σ σ₀ hσ)).bind fun _ => .refl _
  · rw [Part.aggregates_eq, Part.aggregates_eq]
    rfl
  · refine .node ?_ (by simp [Part.views, Part.parts])
    rintro _ ⟨⟩
    exact sub c.rel visible
  · exact .node ⟨trivial, trivial, trivial⟩ (by simp [Part.parts])
  · intro y hy
    refine ⟨c.rel, ?_, ?_⟩ <;> simp_all [Part.references_eq, Part.reads, Part.parts]

/-- Tables and set operations, under an alias that stands for itself. -/
theorem of_rows {a : Alias} (shown : e.declares = [a]) (shown₀ : e₀.declares = [a]) (own : θ a = a)
    (away : (Part.expr e₀).Away θ V)
    (noValue : ∀ σ, Eval.scalar tables e₀ σ = .error (.unsupported e₀.summary))
    (object : ∀ σ, client tables e₀ σ = (do return .ofValue (← Eval.scalar tables e₀ σ)))
    (frames : (∀ row, Frame.Trims θ (a :: V) [(a, some row)] [(a, some row)]) → ∀ σ σ₀ : Scope,
      Scope.Trims θ V σ σ₀ → Follows (List.Forall₂ (Frame.Trims θ (a :: V))) (source tables e σ)
        (source tables e₀ σ₀))
    (orders : e.rowOrders? = none) (orders₀ : e₀.rowOrders? = none)
    (aggregates : (Part.expr e).aggregates = (Part.expr e₀).aggregates)
    (sees : ∀ U : List Alias, (∀ x ∈ V, θ x ∈ U) → (Part.expr e).InScope U)
    (remains : Part.Remains θ (.expr e) (.expr e₀))
    (alone : RepeatedJoins.sourceAlias? e = RepeatedJoins.sourceAlias? e₀ ∧ ∀ k l r c, e ≠ .join k l r c) :
    e.Trims tables θ V e₀ where
  value σ σ₀ _ := by
    rw [noValue]
    exact .error _ _
  frames := by
    rw [shown₀]
    have declared : a ∈ (Part.expr e₀).declared := Part.declares_subset_declared e₀ (by simp [shown₀])
    refine frames fun row => .single own (fun x hx => ⟨?_, fun same => ?_⟩) _
    · rintro rfl
      exact (away _ hx).1 declared
    · exact (away x hx).2 (same ▸ declared)
  objects σ σ₀ _ s := by
    rw [object, noValue]
    exact .error _ _
  orders := by
    rw [orders, orders₀]
    exact .none
  shows := by simp [shown, shown₀]
  finds := by simp [shown, shown₀, own]
  away := away
  aggregates := aggregates
  sees := sees
  remains := remains
  alone _ := alone

theorem table {t : Table} (own : θ t.rel = t.rel) (away : (Part.expr (.table t)).Away θ V) :
    Expr.Trims tables θ V (.table t) (.table t) :=
  of_rows rfl rfl own away (fun _ => by simp only [Eval.scalar]) (fun _ => by simp only [client])
    (fun same _ _ _ => table_follows rfl same) rfl rfl rfl
    (fun _ _ => .node (by simp) (by simp [Part.views, Part.parts]))
    (.of_parts ⟨trivial, trivial, trivial⟩ (by simp) rfl .nil) ⟨rfl, by simp⟩

/-- Set operations of selects with the same rows. -/
theorem setOp {rel : Alias} {kind : SetKind} {s s₀ t t₀ : Select Expr} (own : θ rel = rel)
    (away : (Part.expr (.setOp rel kind s₀ t₀)).Away θ V) (hs : s.Trims tables θ V s₀)
    (ht : t.Trims tables θ V t₀) :
    Expr.Trims tables θ V (.setOp rel kind s t) (.setOp rel kind s₀ t₀) :=
  of_rows rfl rfl own away (fun _ => by simp only [Eval.scalar]) (fun _ => by simp only [client])
    (fun same σ σ₀ hσ => setOp_follows hs.names (hs.rows σ σ₀ hσ) (ht.rows σ σ₀ hσ) same) rfl rfl
    (Part.aggregates_congr rfl rfl (.cons hs.aggregates (.cons ht.aggregates .nil)))
    (fun U sub => .node (by simp) (by simpa [Part.views, Part.parts] using ⟨hs.sees U sub, ht.sees U sub⟩))
    (.of_parts ⟨trivial, trivial, trivial⟩ (by simp) rfl (.cons hs.remains (.cons ht.remains .nil)))
    ⟨rfl, by simp⟩

section Level

variable (shaped : e.Shaped (Expr.Trims tables θ V) (Select.Trims tables θ V)
    (Projection.Trims tables θ V) e₀)
include shaped

theorem value_of_shaped (noColumn : ∀ c, e ≠ .column c) : e.TrimsValue tables θ V e₀ := by
  intro σ σ₀ hσ
  refine scalar_follows shaped noColumn (fun c c' h => h.value σ σ₀ hσ) (fun s s' h => ?_)
    (fun s s' _ h => ?_) ?_ fun _ _ => hσ.number
  · exact (h.rows σ σ₀ hσ).mono fun _ _ same => by rw [same]
  · exact (h.rows σ σ₀ hσ).mono fun _ _ same => by rw [same]
  · rintro kind argument distinct -
    exact optionRel_imp_mem hσ.group fun g _ g' hg => hg.imp fun f f' hf c c' h => h.value _ _ (hσ.extend hf)

theorem sees_of_shaped (level : e.Level) (noColumn : ∀ c, e ≠ .column c) (sub : ∀ x ∈ V, θ x ∈ U) :
    (Part.expr e).InScope U := by
  refine .node (fun c hc => absurd (Part.expr.inj hc) (noColumn c)) ?_
  rw [level.views]
  rintro _ hv
  obtain ⟨q, hq, rfl⟩ := List.mem_map.mp hv
  obtain ⟨q₀, -, related⟩ := exists_of_forall₂_right shaped.parts.flip q hq
  cases related with
  | expr h => exact h.sees U sub
  | select h => exact h.sees U sub
  | projection h => exact h.sees sub

theorem remains_of_shaped (noColumn : ∀ c, e ≠ .column c) (lucid : (Part.expr e).Lucid)
    (binds : (Part.expr e).binds = (Part.expr e₀).binds) : Part.Remains θ (.expr e) (.expr e₀) := by
  refine .of_parts lucid (fun c hc => noColumn c (Part.expr.inj hc)) binds
    (shaped.parts.imp fun q q₀ related => ?_)
  cases related with
  | expr h => exact h.remains
  | select h => exact h.remains
  | projection h => exact h.remains

theorem aggregates_of_shaped : (Part.expr e).aggregates = (Part.expr e₀).aggregates := by
  refine shaped.aggregates fun q q₀ related => ?_
  cases related with
  | expr h => exact h.aggregates
  | select h => exact h.aggregates
  | projection h => exact h.aggregates

/-- Nodes whose parts see the same and go along with one another do so themselves. -/
theorem of_shaped (level : e₀.Level) (lucid : (Part.expr e₀).Lucid) (away : (Part.expr e₀).Away θ V) :
    e.Trims tables θ V e₀ := by
  have level' : e.Level := by
    cases shaped <;> exact level
  have noColumn : ∀ c, e ≠ .column c := by
    rintro c rfl
    exact level'
  have lucid' : (Part.expr e).Lucid := by
    cases shaped with
    | join _ _ _ _ => exact level.elim
    | _ => exact lucid
  have binds : (Part.expr e).binds = (Part.expr e₀).binds := by
    cases shaped <;> rfl
  have value := value_of_shaped shaped noColumn
  have objects : ∀ σ σ₀ : Scope, Scope.Trims θ V σ σ₀ →
      FollowsRun (client tables e σ) (client tables e₀ σ₀) := by
    intro σ σ₀ hσ
    refine client_follows shaped (value σ σ₀ hσ) (fun c c' h => h.value σ σ₀ hσ)
      (fun c c' h => h.objects σ σ₀ hσ) (fun p p' h => h.objects hσ) ?_
    rintro p outer inner rfl
    exact level'.elim
  have remains := remains_of_shaped shaped noColumn lucid' binds
  have aggregates := aggregates_of_shaped shaped
  have sees := fun (U : List Alias) sub => sees_of_shaped (U := U) shaped level' noColumn sub
  cases shaped with
  | column _ | table _ | setOp _ _ _ _ | join _ _ _ _ | clientJoin _ _ _ => exact level.elim
  | select hs =>
    refine ⟨value, fun σ σ₀ hσ => ?_, objects, .none, by simp [Expr.declares, hs.rel],
      by simp [Expr.declares, hs.rel, hs.own], away, aggregates, sees, remains,
      fun _ => ⟨by simp [RepeatedJoins.sourceAlias?, hs.rel], by simp⟩⟩
    refine rows_follows (hs.rows σ σ₀ hσ).forall₂_eq ?_
    rintro row _ rfl
    rw [hs.rel]
    exact hs.single _
  | rowNumber horders =>
    refine ⟨value, fun σ σ₀ _ => ?_, objects, .some (horders.imp fun _ _ h => ⟨h.1, h.2.value⟩),
      List.Subset.refl _, by simp [Expr.declares], away, aggregates, sees, remains, fun _ => ⟨rfl, by simp⟩⟩
    simp only [source]
    exact .error _ _
  | _ =>
    refine ⟨value, fun σ σ₀ _ => ?_, objects, .none, List.Subset.refl _, by simp [Expr.declares], away,
      aggregates,
      sees, remains, fun _ => ⟨rfl, by simp⟩⟩
    simp only [source]
    exact .error _ _

end Level

/-- Client joins whose inner keys see the rows of the projection. -/
theorem clientJoin {p p₀ : Projection Expr} {outer outer₀ inner inner₀ : List Expr}
    (hp : p.Trims tables θ V p₀) (houter : List.Forall₂ (Expr.Trims tables θ V) outer outer₀)
    (hinner : List.Forall₂ (Expr.Trims tables θ (p₀.select.rel :: V)) inner inner₀)
    (away : (Part.expr (.clientJoin p₀ outer₀ inner₀)).Away θ V) :
    Expr.Trims tables θ V (.clientJoin p outer inner) (.clientJoin p₀ outer₀ inner₀) := by
  have remains :
      Part.Remains θ (.expr (.clientJoin p outer inner)) (.expr (.clientJoin p₀ outer₀ inner₀)) := by
    refine .of_parts ⟨trivial, trivial, trivial⟩ (by simp) rfl ?_
    refine List.rel_append ?_ (.cons hp.remains ?_) <;>
      refine List.forall₂_map_left_iff.mpr (List.forall₂_map_right_iff.mpr ?_)
    · exact houter.imp fun _ _ h => h.remains
    · exact hinner.imp fun _ _ h => h.remains
  have aggregates : (Part.expr (.clientJoin p outer inner)).aggregates
      = (Part.expr (.clientJoin p₀ outer₀ inner₀)).aggregates := by
    refine Part.aggregates_congr rfl rfl (List.rel_append ?_ (.cons hp.aggregates ?_)) <;>
      refine List.forall₂_map_left_iff.mpr (List.forall₂_map_right_iff.mpr ?_)
    · exact houter.imp fun _ _ h => h.aggregates
    · exact hinner.imp fun _ _ h => h.aggregates
  refine ⟨fun σ σ₀ _ => ?_, fun σ σ₀ _ => ?_, fun σ σ₀ hσ => ?_, .none, List.Subset.refl _,
    by simp [Expr.declares],
    away, aggregates, fun U sub => .node (by simp) fun v hv => ?_, remains, fun _ => ⟨rfl, by simp⟩⟩
  · simp only [Eval.scalar]
    exact .error _ _
  · simp only [source]
    exact .error _ _
  · have alike : JoinsAlike Eq p.select.rel p₀.select.rel := by
      refine ⟨fun c c' same => ?_, fun c c' rows same => ?_⟩ <;> rw [same, hp.select.rel]
    exact FollowsUnder.eq_iff.mp (clientJoin_follows_under alike hp.pick
      (FollowsUnder.eq_iff.mpr (hp.joined hinner)) (houter.imp fun _ _ h => h.value σ σ₀ hσ))
  · simp only [Part.views, List.mem_append, List.mem_map, List.mem_singleton] at hv
    rcases hv with ⟨k, hk, rfl⟩ | ⟨k, hk, rfl⟩ | rfl
    · obtain ⟨k₀, -, h⟩ := exists_of_forall₂_right hinner.flip k hk
      exact h.sees _ (hp.select.sees_row sub)
    · obtain ⟨k₀, -, h⟩ := exists_of_forall₂_right houter.flip k hk
      exact h.sees _ sub
    · exact hp.sees sub

end Expr.Trims

section Joins

variable {kind : JoinKind} {l l₀ r r₀ : Expr} {on on₀ : Option Expr} {σ σ₀ : Scope} {f f₀ : Frame}
  (hl : l.Trims tables θ V l₀) (hr : r.Trims tables θ (if kind.isApply then l₀.declares ++ V else V) r₀)
  (hon : Option.Rel (Expr.Trims tables θ (l₀.declares ++ r₀.declares ++ V)) on on₀)
  (disjoint : ∀ x ∈ r₀.declares, x ∉ l₀.declares)

include hr in
theorem Expr.Trims.right_away : (Part.expr r₀).Away θ V := fun x hx => hr.away x (by
  split
  · exact List.mem_append_right _ hx
  · exact hx)

include hr disjoint

/-- What the right side shows is new to the left side. -/
theorem Expr.Trims.wider_left : Wider θ (l₀.declares ++ V) (l₀.declares ++ r₀.declares ++ V) where
  sub x hx := by
    simp only [List.mem_append] at hx ⊢
    exact hx.elim (fun h => .inl (.inl h)) .inr
  apart x hx outside inside := by
    have right : x ∈ r₀.declares := by
      simp only [List.mem_append] at hx outside
      tauto
    have shown := hr.shows (hr.finds x right)
    rcases List.mem_append.mp inside with left | around
    · exact disjoint _ shown left
    · exact (Expr.Trims.right_away hr _ around).1 (Part.declares_subset_declared r₀ shown)

include hl

omit hr in
theorem Expr.Trims.wider_right : Wider θ (r₀.declares ++ if kind.isApply then l₀.declares ++ V else V)
    (l₀.declares ++ r₀.declares ++ V) where
  sub x hx := by
    have seen : x ∈ r₀.declares ∨ x ∈ l₀.declares ++ V := by
      refine (List.mem_append.mp hx).imp id fun seen => ?_
      split at seen
      · exact seen
      · exact List.mem_append_right _ seen
    simp only [List.mem_append] at seen ⊢
    tauto
  apart x hx outside inside := by
    rw [List.mem_append, not_or] at outside
    split at inside <;> rename_i apply <;> simp only [apply, if_true, Bool.false_eq_true, if_false] at outside
    · simp only [List.mem_append] at hx outside
      tauto
    · have left : x ∈ l₀.declares := by
        simp only [List.mem_append] at hx
        tauto
      have shown := hl.shows (hl.finds x left)
      rcases List.mem_append.mp inside with right | around
      · exact disjoint _ right shown
      · exact (hl.away _ around).1 (Part.declares_subset_declared l₀ shown)

/-- The right sides, in scopes that they see. -/
theorem Eval.right_trims {τ τ₀ : Scope}
    (hτ : Scope.Trims θ (if kind.isApply then l₀.declares ++ V else V) τ τ₀) :
    Follows (List.Forall₂ (Frame.Trims θ (l₀.declares ++ r₀.declares ++ V))) (source tables r τ)
      (source tables r₀ τ₀) :=
  (hr.frames τ τ₀ hτ).mono fun _ _ h => h.imp fun _ _ hg => hg.widen (hl.wider_right disjoint)

theorem Eval.nulls_trim :
    Frame.Trims θ (l₀.declares ++ r₀.declares ++ V) (nullFrame (some r)) (nullFrame (some r₀)) :=
  hr.nulls.widen (hl.wider_right disjoint)

/-- Frames of the left side beside those that they meet. -/
theorem Eval.beside_trims (hf : Frame.Trims θ (l₀.declares ++ V) f f₀) {gs gs₀ : List Frame}
    (hgs : List.Forall₂ (Frame.Trims θ (l₀.declares ++ r₀.declares ++ V)) gs gs₀) :
    List.Forall₂ (Frame.Trims θ (l₀.declares ++ r₀.declares ++ V)) (beside kind r f gs)
      (beside kind r₀ f₀ gs₀) := by
  have hf := hf.widen (Expr.Trims.wider_left hr disjoint)
  rw [beside, beside, forall₂_isEmpty hgs]
  split
  · exact .cons (hf.append (nulls_trim hl hr disjoint)) .nil
  · exact List.forall₂_map_left_iff.mpr (List.forall₂_map_right_iff.mpr (hgs.imp fun _ _ hg => hf.append hg))

include hon

theorem Eval.condition_trims (hσ : Scope.Trims θ V σ σ₀) : Option.Rel (fun c c₀ => ∀ f f₀ g g₀,
    Frame.Trims θ (l₀.declares ++ V) f f₀ → Frame.Trims θ (l₀.declares ++ r₀.declares ++ V) g g₀ →
    Follows Eq (Eval.scalar tables c ((σ.extend f).extend g))
      (Eval.scalar tables c₀ ((σ₀.extend f₀).extend g₀))) on on₀ :=
  optionRel_imp_mem hon fun _ _ _ h _ _ _ _ hf hg =>
    h.value _ _ ((((hσ.widen hl.wider).extend hf).widen (Expr.Trims.wider_left hr disjoint)).extend hg)

/-- The frames that a frame of the left side meets. -/
theorem Eval.met_trims (hσ : Scope.Trims θ V σ σ₀) (hf : Frame.Trims θ (l₀.declares ++ V) f f₀) :
    Follows (List.Forall₂ (Frame.Trims θ (l₀.declares ++ r₀.declares ++ V))) (met tables kind r on σ f)
      (met tables kind r₀ on₀ σ₀ f₀) := by
  have scopes : Scope.Trims θ (if kind.isApply then l₀.declares ++ V else V)
      (if kind.isApply then σ.extend f else σ) (if kind.isApply then σ₀.extend f₀ else σ₀) := by
    split
    · exact (hσ.widen hl.wider).extend hf
    · exact hσ
  refine (right_trims hl hr disjoint scopes).bind fun gs gs₀ hgs => Follows.filterM hgs fun g g₀ hg => ?_
  have conditions := condition_trims hl hr hon disjoint hσ
  cases conditions with
  | none => exact Follows.refl _
  | some h => exact Follows.bind_same (h f f₀ g g₀ hf hg) fun _ => Follows.refl _

theorem Expr.Trims.remains_join (deep : Part.LeftDeep (.expr (.join kind l₀ r₀ on₀))) :
    Part.Remains θ (.expr (.join kind l r on)) (.expr (.join kind l₀ r₀ on₀)) := by
  have deep' : Part.LeftDeep (.expr (.join kind l r on)) := by
    have alone : ∀ k l r c, r₀ ≠ .join k l r c := by
      rintro _ _ _ _ rfl
      exact deep
    cases r with
    | join _ _ _ _ => exact absurd rfl ((hr.alone alone).2 _ _ _ _)
    | _ => trivial
  refine .of_parts ⟨trivial, trivial, deep'⟩ (by simp) rfl (.cons hl.remains (.cons hr.remains ?_))
  exact List.forall₂_map_left_iff.mpr (List.forall₂_map_right_iff.mpr
    ((forall₂_toList hon).imp fun _ _ h => h.remains))

omit disjoint in
theorem Expr.Trims.sees_join (sub : ∀ x ∈ V, θ x ∈ U) : (Part.expr (.join kind l r on)).InScope U := by
  have around : ∀ x ∈ l₀.declares ++ V, θ x ∈ l.declares ++ U := fun x hx =>
    List.mem_append.mpr ((List.mem_append.mp hx).imp (hl.finds x) (sub x))
  refine .node (by simp) fun v hv => ?_
  simp only [Part.views, List.mem_append, List.mem_map, List.mem_cons, List.not_mem_nil, or_false] at hv
  rcases hv with ⟨c, hc, rfl⟩ | rfl | rfl
  · obtain ⟨c₀, -, h⟩ := exists_of_forall₂_right (forall₂_toList hon).flip c hc
    refine h.sees _ fun x hx => ?_
    simp only [List.mem_append] at hx ⊢
    exact hx.imp (Or.imp (hl.finds x) (hr.finds x)) (sub x)
  · refine hr.sees _ fun x hx => ?_
    cases apply : kind.isApply with
    | true => exact around x (by rwa [if_pos apply] at hx)
    | false => exact sub x (by rwa [if_neg (by simp [apply])] at hx)
  · exact hl.sees _ sub

/-- Joins whose right sides see the left ones, and whose conditions see both. -/
theorem Expr.Trims.join (deep : Part.LeftDeep (.expr (.join kind l₀ r₀ on₀)))
    (away : (Part.expr (.join kind l₀ r₀ on₀)).Away θ V) :
    Expr.Trims tables θ V (.join kind l r on) (.join kind l₀ r₀ on₀) where
  value σ σ₀ _ := by
    simp only [Eval.scalar]
    exact .error _ _
  frames σ σ₀ hσ := by
    refine join_follows (F := Frame.Trims θ (l₀.declares ++ V))
      (G := Frame.Trims θ (l₀.declares ++ r₀.declares ++ V)) (condition_trims hl hr hon disjoint hσ)
      (nulls_trim hl hr disjoint) (fun f f₀ g g₀ hf hg => ?_) (hl.frames σ σ₀ hσ) (fun shared => ?_)
      fun apply f f₀ hf => ?_
    · exact (hf.widen (wider_left hr disjoint)).append hg
    · exact right_trims hl hr disjoint (by rwa [if_neg (by simp [shared])])
    · exact right_trims hl hr disjoint (by
        rw [if_pos apply]
        exact (hσ.widen hl.wider).extend hf)
  objects σ σ₀ _ s := by
    simp only [client, Eval.scalar]
    exact .error _ _
  orders := .none
  shows := by
    rw [Expr.declares, Expr.declares]
    exact List.append_subset.mpr ⟨List.Subset.trans hl.shows (List.subset_append_left _ _),
      List.Subset.trans hr.shows (List.subset_append_right _ _)⟩
  finds x hx := by
    rw [Expr.declares, List.mem_append] at hx ⊢
    exact hx.imp (hl.finds x) (hr.finds x)
  away := away
  aggregates := Part.aggregates_congr rfl rfl (.cons hl.aggregates (.cons hr.aggregates
    (List.forall₂_map_left_iff.mpr (List.forall₂_map_right_iff.mpr
      ((forall₂_toList hon).imp fun _ _ h => h.aggregates)))))
  sees U sub := hl.sees_join hr hon sub
  remains := hl.remains_join hr hon disjoint deep
  alone h := absurd rfl (h _ _ _ _)

end Joins

section Missing

variable {kind : JoinKind} {l l₀ r r₀ l' r' : Expr} {on on₀ c : Option Expr} {θ' : Alias → Alias}
  {a b : Alias}

/-- Lists of one element each, put together. -/
theorem forall₂_flatten_singles {α β : Type} {R : α → β → Prop} {as : List α} {bss : List (List β)}
    (h : List.Forall₂ (fun a bs => ∃ b, bs = [b] ∧ R a b) as bss) : List.Forall₂ R as bss.flatten := by
  induction h with
  | nil => exact .nil
  | cons hab _ ih =>
    obtain ⟨b, rfl, hR⟩ := hab
    exact .cons hR ih

/-- A frame that holds the row of a right side already stands for itself beside that row. -/
theorem Frame.Trims.stand_in {f g₀ : Frame} {row : Option Row} (h : Frame.Trims θ' V (f ++ [(a, row)]) g₀)
    (agree : ∀ x ∈ V, x ≠ a → θ x = θ' x ∧ θ' x ≠ a) (stands : θ a = b) (stays : θ' a = a)
    (nodup : (f.map (·.1)).Nodup) (there : (b, row) ∈ f) : Frame.Trims θ V f g₀ where
  rows x hx := by
    rw [← h.rows x hx, List.reverse_append, List.lookup_append]
    by_cases dropped : x = a
    · subst dropped
      rw [stands, stays, Frame.lookup_of_mem (by simpa using nodup) (List.mem_reverse.mpr there)]
      simp
    · obtain ⟨same, other⟩ := agree x hx dropped
      rw [same]
      simp [List.lookup_cons, beq_false_of_ne other]
  binds x hx := h.binds x (by simp_all)
  binds₀ := h.binds₀

/-- A join whose two sides and condition go along, and which is left out: it meets one row at most, and it
repeats a join further left, whose alias stands in for its own. -/
structure Expr.Missing (tables : Tables) (θ θ' : Alias → Alias) (V : List Alias) (kind : JoinKind)
    (l l₀ r r₀ : Expr) (on on₀ : Option Expr) (a b : Alias) : Prop where
  left : l.Trims tables θ' V l₀
  right : r.Trims tables θ' (if kind.isApply then l₀.declares ++ V else V) r₀
  condition : Option.Rel (Expr.Trims tables θ' (l₀.declares ++ r₀.declares ++ V)) on on₀
  disjoint : ∀ x ∈ r₀.declares, x ∉ l₀.declares
  shown : r₀.declares = [a]
  agree : ∀ x ∈ l₀.declares ++ V, θ x = θ' x
  stands : θ a = b
  stays : θ' a = a
  repeats : ∃ l' r' c, RepeatedJoins.Repeats kind l r on l' r' c (V.map θ' ++ V) a b
  one : ∀ env f others, met tables kind r₀ on₀ env f = .ok others → others.length ≤ 1

namespace Expr.Missing

variable {σ σ₀ : Scope} {f f₀ : Frame} (missing : Expr.Missing tables θ θ' V kind l l₀ r r₀ on on₀ a b)
include missing

/-- Nothing but the right side is read under its alias. -/
theorem others : ∀ x ∈ l₀.declares ++ r₀.declares ++ V, x ≠ a → θ x = θ' x ∧ θ' x ≠ a := by
  intro x hx other
  have right : a ∈ r₀.declares := by simp [missing.shown]
  simp only [List.mem_append, missing.shown, List.mem_singleton] at hx
  rcases hx with (left | rfl) | around
  · refine ⟨missing.agree x (List.mem_append_left _ left), fun same => ?_⟩
    exact missing.disjoint a right (same ▸ missing.left.shows (missing.left.finds x left))
  · exact absurd rfl other
  · refine ⟨missing.agree x (List.mem_append_right _ around), fun same => ?_⟩
    exact (Expr.Trims.right_away missing.right x around).2 (same ▸ Part.declares_subset_declared r₀ right)

/-- The missing join makes one frame of each, which shows nothing new. -/
theorem beside_eq (hσ : Scope.Trims θ' V σ σ₀) {fs : List Frame} (run : source tables l σ = .ok fs)
    (hf : f ∈ fs) (trims : Frame.Trims θ' (l₀.declares ++ V) f f₀) {others : List Frame}
    (hmet : met tables kind r₀ on₀ σ₀ f₀ = .ok others) :
    ∃ g₀, beside kind r₀ f₀ others = [g₀] ∧ Frame.Trims θ (l₀.declares ++ r₀.declares ++ V) f g₀ := by
  obtain ⟨l', r', c, repeats⟩ := missing.repeats
  obtain ⟨others', hmet', related⟩ :=
    met_trims missing.left missing.right missing.condition missing.disjoint hσ trims others hmet
  have one : others'.length ≤ 1 := related.length_eq ▸ missing.one _ _ _ hmet
  obtain ⟨row, only, there⟩ :=
    repeats.beside_eq (fun x hx => List.mem_append_right _ (hσ.bound x hx)) run hf hmet' one
  have both := beside_trims missing.left missing.right missing.disjoint trims related
  rw [only] at both
  generalize beside kind r₀ f₀ others = made at both
  cases both with
  | cons first rest =>
    cases rest
    obtain ⟨-, -, nodup, -⟩ := repeats.shows
    rw [← aliases_of_source l run f hf] at nodup
    exact ⟨_, rfl, first.stand_in missing.others missing.stands missing.stays nodup there⟩

theorem frames (hσ : Scope.Trims θ V σ σ₀) :
    Follows (List.Forall₂ (Frame.Trims θ (l₀.declares ++ r₀.declares ++ V))) (source tables l σ)
      (source tables (.join kind l₀ r₀ on₀) σ₀) := by
  have hσ' : Scope.Trims θ' V σ σ₀ := hσ.congr fun x hx => missing.agree x (List.mem_append_right _ hx)
  intro fs₀ run₀
  obtain ⟨lefts₀, outs, hlefts₀, rfl, made⟩ := met_of_source run₀
  obtain ⟨lefts, hlefts, related⟩ := missing.left.frames σ σ₀ hσ' lefts₀ hlefts₀
  have inside : List.Forall₂ (fun f f₀ => f ∈ lefts ∧ Frame.Trims θ' (l₀.declares ++ V) f f₀) lefts lefts₀ :=
    forall₂_imp_mem related fun f hf f₀ h => ⟨hf, h⟩
  refine ⟨lefts, hlefts, forall₂_flatten_singles (forall₂_trans ?_ inside made)⟩
  rintro f f₀ _ ⟨hf, trims⟩ ⟨others, hmet, rfl⟩
  exact missing.beside_eq hσ' hlefts hf trims hmet

/-- What the right side of a missing join shows is read from the join that it repeats. -/
theorem trims (whole : l.Trims tables θ V l₀) (away : (Part.expr (.join kind l₀ r₀ on₀)).Away θ V)
    (noAggregates : ∀ q ∈ Part.expr r₀ :: on₀.toList.map .expr, q.aggregates = false) :
    l.Trims tables θ V (.join kind l₀ r₀ on₀) := by
  obtain ⟨l', r', c, repeats⟩ := missing.repeats
  obtain ⟨rest, declares, -, -⟩ := repeats.shows
  have isJoin : ∃ k m n d, l = .join k m n d := by
    cases repeats.spine <;> exact ⟨_, _, _, _, rfl⟩
  have part : Part.expr l₀ ∈ (Part.expr (.join kind l₀ r₀ on₀)).parts := by simp [Part.parts]
  refine ⟨fun σ σ₀ _ => ?_, fun σ σ₀ hσ => missing.frames hσ, fun σ σ₀ _ s => ?_, ?_, ?_,
    fun x hx => ?_, away, ?_, whole.sees,
    ⟨whole.remains.nodes, whole.remains.declared.trans (Part.declared_sublist part), fun y hy => ?_⟩,
    fun h => absurd rfl (h _ _ _ _)⟩
  · simp only [Eval.scalar]
    exact .error _ _
  · simp only [client, Eval.scalar]
    exact .error _ _
  · obtain ⟨_, _, _, _, rfl⟩ := isJoin
    exact .none
  · rw [Expr.declares]
    exact List.Subset.trans whole.shows (List.subset_append_left _ _)
  · rw [Expr.declares, missing.shown, List.mem_append, List.mem_singleton] at hx
    rcases hx with left | rfl
    · exact whole.finds x left
    · rw [missing.stands, declares]
      exact List.mem_append_right _ List.mem_cons_self
  · have others : (Part.expr (.join kind l₀ r₀ on₀)).aggregates = (Part.expr l₀).aggregates := by
      have parts : (Part.expr (.join kind l₀ r₀ on₀)).parts
          = .expr l₀ :: (.expr r₀ :: on₀.toList.map .expr) := by simp [Part.parts]
      have none : (Part.expr r₀ :: on₀.toList.map .expr).any Part.aggregates = false :=
        List.any_eq_false.mpr fun q hq => by simp [noAggregates q hq]
      rw [Part.aggregates_eq, parts, List.any_cons, none]
      simp [Part.isAggregate, Part.aggregatesApart]
    rw [whole.aggregates, others]
  · obtain ⟨x, hx, rfl⟩ := whole.remains.refs y hy
    exact ⟨x, Part.references_subset part hx, rfl⟩

end Expr.Missing

end Missing

section Selects

variable {s s₀ : Select Expr} {σ σ₀ : Scope} (origin : Option.Rel (Expr.Trims tables θ V) s.source s₀.source)
  (clauses : s.AkinClauses (Expr.Trims tables θ (s₀.sourceAliases ++ V)) s₀)

section Sources

include origin

theorem Select.wider_source : Wider θ V (s₀.sourceAliases ++ V) := by
  rw [Select.sourceAliases]
  generalize s.source = source, s₀.source = source₀ at origin
  cases origin with
  | none => exact .refl V
  | some h => exact h.wider

theorem Select.finds_source : ∀ x ∈ s₀.sourceAliases, θ x ∈ s.sourceAliases := by
  rw [Select.sourceAliases, Select.sourceAliases]
  generalize s.source = source, s₀.source = source₀ at origin
  cases origin with
  | none => simp
  | some h => exact h.finds

theorem Eval.frames_trim (hσ : Scope.Trims θ V σ σ₀) :
    Follows (List.Forall₂ (Frame.Trims θ (s₀.sourceAliases ++ V))) (frames tables s σ)
      (frames tables s₀ σ₀) := by
  rw [Eval.frames, Eval.frames, Select.sourceAliases]
  generalize s.source = source, s₀.source = source₀ at origin
  cases origin with
  | none => exact .pure (.cons .empty .nil)
  | some h => exact h.frames σ σ₀ hσ

theorem Eval.unmatched_trim :
    Frame.Trims θ (s₀.sourceAliases ++ V) (nullFrame s.source) (nullFrame s₀.source) := by
  rw [Select.sourceAliases]
  generalize s.source = source, s₀.source = source₀ at origin
  cases origin with
  | none => exact .empty
  | some h => exact h.nulls

end Sources

include origin clauses

theorem Select.rows_trim (hσ : Scope.Trims θ V σ σ₀) :
    Follows Eq (Eval.select tables s σ) (Eval.select tables s₀ σ₀) := by
  have wider := wider_source origin
  refine akin_follows (F := Frame.Trims θ (s₀.sourceAliases ++ V))
    (T := Scope.Trims θ (s₀.sourceAliases ++ V)) clauses (frames_trim origin hσ) (unmatched_trim origin)
    (fun _ => clauses.hasAggregates fun _ _ _ h => h.aggregates) (fun τ τ' h => (hσ.widen wider).inner h)
    (fun τs τs' h => ?_) (fun c _ c' h => h.value) fun c _ c' h => h.value σ σ₀ (hσ.widen wider)
  exact numbered_follows (fun _ _ n h => h.numbered n) 
    (Lockstep.findSome?_rel clauses.columns fun _ _ h => h.2.orders) h

theorem Select.sees_trim (sub : ∀ x ∈ V, θ x ∈ U) : (Part.select s).InScope U := by
  have readers : List.Forall₂ (Expr.Trims tables θ (s₀.sourceAliases ++ V)) s.readers s₀.readers := by
    refine List.rel_append ?_ (List.rel_append (forall₂_toList clauses.take) (List.rel_append
      (forall₂_toList clauses.skip) (List.rel_append clauses.groupBy (List.rel_append ?_
      (forall₂_toList clauses.filter))))) <;>
      refine List.forall₂_map_left_iff.mpr (List.forall₂_map_right_iff.mpr ?_)
    · exact clauses.columns.imp fun _ _ h => h.2
    · exact clauses.orderBy.imp fun _ _ h => h.2
  refine .node (by simp) fun v hv => ?_
  simp only [Part.views, List.mem_append, List.mem_map] at hv
  rcases hv with ⟨e, he, rfl⟩ | ⟨e, he, rfl⟩
  · obtain ⟨e₀, -, h⟩ := exists_of_forall₂_right readers.flip e he
    exact h.sees _ fun x hx =>
      List.mem_append.mpr ((List.mem_append.mp hx).imp (finds_source origin x) (sub x))
  · obtain ⟨e₀, -, h⟩ := exists_of_forall₂_right (forall₂_toList origin).flip e he
    exact h.sees _ sub

/-- Selects over sources, and with clauses that see these, that go along with one another. -/
theorem Select.Trims.of_clauses (rel : s.rel = s₀.rel) (own : θ s₀.rel = s₀.rel)
    (away : (Part.select s₀).Away θ V) : s.Trims tables θ V s₀ := by
  have remains : s.Akin (fun c c₀ => Part.Remains θ (.expr c) (.expr c₀)) s₀ :=
    { clauses.imp fun _ _ h => h.remains with source := optionRel_imp_mem origin fun _ _ _ h => h.remains }
  have aggregates : s.Akin (fun c c₀ => (Part.expr c).aggregates = (Part.expr c₀).aggregates) s₀ :=
    { clauses.imp fun _ _ h => h.aggregates with
      source := optionRel_imp_mem origin fun _ _ _ h => h.aggregates }
  refine ⟨rel, own, away, ?_, fun σ σ₀ => rows_trim origin clauses, ?_, fun U => sees_trim origin clauses, ?_⟩
  · rw [columnNames, columnNames, ← List.forall₂_eq_eq_eq, List.forall₂_map_left_iff,
      List.forall₂_map_right_iff]
    exact clauses.columns.imp fun _ _ h => h.1
  · exact Part.aggregates_congr rfl rfl (List.forall₂_map_left_iff.mpr
      (List.forall₂_map_right_iff.mpr aggregates.exprs))
  · refine .of_parts ⟨trivial, trivial, trivial⟩ (by simp) (by simp [Part.binds, rel]) ?_
    exact List.forall₂_map_left_iff.mpr (List.forall₂_map_right_iff.mpr remains.exprs)

end Selects

end ObjectQuery
