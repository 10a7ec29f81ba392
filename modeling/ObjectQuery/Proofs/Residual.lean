import ObjectQuery.Proofs.Correspondence
import ObjectQuery.Proofs.Splitting

/-!
What is left of an expression when parts of it become columns of a select. Where a row of the select
is in sight in place of the rows of its source, the rest has the value that the expression has over the
source, and the client makes the same object from it.
-/

namespace ObjectQuery

open Eval

variable {affinity : Affinity} {sources : List Alias} {nested : Bool} {D R : Alias → Prop} {e : Expr}

/-- A part that becomes a column is no source. -/
theorem declares_of_chosen (tame : Part.Tame D R (.expr e))
    (h : (e.nominate affinity sources nested).chosen = true) : e.declares = [] := by
  rcases nominate_cases (allowsParent_of_chosen h) with
    ⟨v, rfl⟩ | ⟨c, rfl, -⟩ | ⟨_, _, _, _, rfl, -⟩ | ⟨-, must, -⟩ | ⟨can, -⟩
  · rfl
  · rfl
  · rfl
  · cases e <;> first | rfl | cases must
  · cases e <;> first | rfl | cases can

/-- A part that becomes a column reads the sources, and what it declares itself; under a nested
relation it declares nothing. -/
theorem tame_of_nominated {p : Part} (tame : p.Every (Part.Tame D R)) :
    ∀ e, p = .expr e → (e.nominate affinity sources nested).allowsParent = true →
      (nested = false → p.aggregates = false) →
      p.Every (Part.Tame (fun a => nested = false ∧ D a)
        fun a => a ∈ sources ∨ (nested = false ∧ D a)) ∧ p.aggregates = false := by
  induction tame with
  | @node p here parts ih =>
    rintro e rfl h apart
    rcases nominate_cases h with
      ⟨v, rfl⟩ | ⟨c, rfl, inside⟩ | ⟨_, _, _, _, rfl, -⟩ | ⟨-, -, rfl, free⟩ | ⟨can, allowed⟩
    · exact ⟨.node here (by simp [Part.parts]), by simp [Part.aggregates_eq, Part.isAggregate, Part.parts]⟩
    · exact ⟨.node (.inl inside) (by simp [Part.parts]),
        by simp [Part.aggregates_eq, Part.isAggregate, Part.parts]⟩
    · exact here.elim
    · have tame : (Part.expr e).Every (Part.Tame D R) := .node here parts
      refine ⟨tame.names (fun a ha => ⟨rfl, tame.declared a ha⟩) fun c hc => ?_, apart rfl⟩
      by_cases own : c.rel ∈ (Part.expr e).declared
      · exact .inr ⟨rfl, tame.declared _ own⟩
      · refine .inl (free c.rel ?_)
        simp only [Expr.free, Part.free, Part.referenced, List.mem_filter, List.mem_eraseDups]
        exact ⟨List.mem_map_of_mem hc, by simpa using own⟩
    · have under : ∀ q ∈ (Part.expr e).parts, q.Every (Part.Tame (fun a => nested = false ∧ D a)
          fun a => a ∈ sources ∨ (nested = false ∧ D a)) ∧ q.aggregates = false := by
        intro q hq
        obtain ⟨c, rfl⟩ := exists_expr_of_canBeColumn can hq
        refine ih _ hq c rfl (allowed c hq) fun outside => ?_
        have := mt (here.aggregates_of_part hq)
        simp_all
      refine ⟨.node ?_ fun q hq => (under q hq).1, ?_⟩
      · cases e <;> first | exact here | cases can
      · have none : (Part.expr e).parts.any Part.aggregates = false := by
          rw [List.any_eq_false]
          exact fun q hq => by simp [(under q hq).2]
        rw [Part.aggregates_eq, none]
        cases e <;> first | rfl | cases can

/-- What may be a column is no object: the client takes its value as it is. -/
theorem client_of_nominated (tables : Tables) (e : Expr)
    (h : (e.nominate affinity sources nested).allowsParent = true) (σ : Scope) :
    client tables e σ = (do return .ofValue (← scalar tables e σ)) := by
  rcases nominate_cases h with
    ⟨v, rfl⟩ | ⟨c, rfl, -⟩ | ⟨_, _, _, _, rfl, -⟩ | ⟨-, must, -⟩ | ⟨can, allowed⟩
  · exact client_value rfl
  · exact client_value rfl
  · exact client_value rfl
  · cases e <;> first | exact client_value rfl | cases must
  · cases e with
    | cond test onTrue onFalse =>
      rw [client, scalar, client_of_nominated tables onTrue (allowed _ (by simp [Part.parts])),
        client_of_nominated tables onFalse (allowed _ (by simp [Part.parts]))]
      simp only [liftM_bind, bind_assoc]
      refine bind_congr fun v => bind_congr fun b => ?_
      cases b <;> rfl
    | _ => first | exact client_value rfl | cases can
termination_by (Part.expr e).weight
decreasing_by
  all_goals
    subst_vars
    exact Part.weight_lt (by simp [Part.parts])

namespace Split

variable (split : Split)

def Outside (a : Alias) : Prop := a ∉ split.sources ∧ a ≠ split.rel

theorem lookup_append_of_forall {β : Type} {f r : List (Alias × β)} {a : Alias}
    (h : ∀ x ∈ f, x.1 ≠ a) : (f ++ r).lookup a = r.lookup a := by
  have missing : f.lookup a = none := by
    rw [List.lookup_eq_none_iff]
    intro x hx
    simpa using (h x hx).symm
  rw [List.lookup_append, missing, Option.none_or]

def viewing (τ : Scope) (row : Row) : Correspondence where
  shared := split.Outside
  frame f f' := f = f' ∧ ∀ x ∈ f, split.Outside x.1
  rows r r' := (∀ a ∈ split.sources, r.lookup a = τ.rows.lookup a)
    ∧ r'.lookup split.rel = some (some row) ∧ ∀ a, split.Outside a → r.lookup a = r'.lookup a
  nil := ⟨rfl, by simp⟩
  single h _ := ⟨rfl, by simpa using h⟩
  append := by
    rintro f _ g _ ⟨rfl, hf⟩ ⟨rfl, hg⟩
    exact ⟨rfl, fun x hx => (List.mem_append.mp hx).elim (hf x) (hg x)⟩
  extend := by
    rintro f _ r r' ⟨rfl, hf⟩ ⟨sources, row, outside⟩
    have fresh : ∀ a, ¬ split.Outside a → ∀ x ∈ f.reverse, x.1 ≠ a := by
      rintro _ ha x hx rfl
      exact ha (hf x (List.mem_reverse.mp hx))
    refine ⟨fun a ha => ?_, ?_, fun a ha => ?_⟩
    · rw [lookup_append_of_forall (fresh a fun h => h.1 ha), sources a ha]
    · rw [lookup_append_of_forall (fresh split.rel fun h => h.2 rfl), row]
    · rw [List.lookup_append, List.lookup_append, outside a ha]

def Holds (tables : Tables) (columns : List (ColumnDecl Expr)) (τ : Scope) (row : Row) : Prop :=
  ∀ d ∈ columns, ∃ v, row.get? d.name = some v ∧ scalar tables d.expr τ = .ok v

structure Rebuilt (D R : Alias → Prop) (tables : Tables) (columns : List (ColumnDecl Expr))
    (nested : Bool) (e e' : Expr) : Prop where
  tame : (Part.expr e').Every (Part.Tame D fun a => R a ∨ a = split.rel)
  aggregates : (Part.expr e).aggregates = (Part.expr e').aggregates
  value : ∀ τ row σ', Holds tables columns τ row → (split.viewing τ row).rows τ.rows σ'.rows →
    τ.group = none → σ'.group = none → Follows Eq (scalar tables e τ) (scalar tables e' σ')
  follows : nested = true → ∀ τ row, Holds tables columns τ row →
    (split.viewing τ row).ExprFollows tables e e'

structure RebuiltSelect (D R : Alias → Prop) (tables : Tables) (columns : List (ColumnDecl Expr))
    (s s' : Select Expr) : Prop where
  tame : (Part.select s').Every (Part.Tame D fun a => R a ∨ a = split.rel)
  follows : ∀ τ row, Holds tables columns τ row → (split.viewing τ row).SelectFollows tables s s'
  aggregates : (Part.select s).aggregates = (Part.select s').aggregates

structure RebuiltProjection (D R : Alias → Prop) (p p' : Projection Expr) : Prop where
  tame : (Part.projection p').Every (Part.Tame D fun a => R a ∨ a = split.rel)
  aggregates : (Part.projection p).aggregates = (Part.projection p').aggregates

def Fits (D : Alias → Prop) (sources : List Alias) (d : ColumnDecl Expr) : Prop :=
  (Part.expr d.expr).Every (Part.Tame D fun a => a ∈ sources ∨ D a)
    ∧ (Part.expr d.expr).aggregates = false

variable {split : Split} {tables : Tables} {columns : List (ColumnDecl Expr)}

theorem scalar_viewed {τ σ' : Scope} {row : Row} {r : Frame}
    (h : (split.viewing τ row).rows r σ'.rows) {name : String} {v : Value}
    (hv : row.get? name = some v) (type : ColumnType) :
    scalar tables (.column ⟨split.rel, name, type⟩) σ' = .ok v := by
  rw [scalar, Scope.column, h.2.1]
  simp only [hv]

/-- A reference to the column that computes the expression. -/
theorem Rebuilt.of_column (tame : (Part.expr e).Every (Part.Tame D R))
    (chosen : (e.nominate split.affinity split.sources nested).chosen = true)
    (apart : nested = false → (Part.expr e).aggregates = false) {d : ColumnDecl Expr}
    (hd : d ∈ columns) (hde : d.expr = e) (type : ColumnType) :
    split.Rebuilt D R tables columns nested e (.column ⟨split.rel, d.name, type⟩) := by
  obtain ⟨local', plain⟩ := tame_of_nominated tame e rfl (allowsParent_of_chosen chosen) apart
  have same : (Part.expr e).aggregates
      = (Part.expr (.column ⟨split.rel, d.name, type⟩)).aggregates := by
    simp [plain, Part.aggregates_eq, Part.isAggregate, Part.parts]
  refine ⟨.node (.inr rfl) (by simp [Part.parts]), same, ?_, ?_⟩
  · intro τ row σ' holds hr _ _ b hb
    obtain ⟨v, hv, he⟩ := holds d hd
    rw [scalar_viewed hr hv] at hb
    exact ⟨b, Except.ok.inj hb ▸ hde ▸ he, rfl⟩
  · rintro rfl τ row holds
    obtain ⟨v, hv, he⟩ := holds d hd
    refine ⟨fun σ σ' hr _ => ?_, fun _ _ _ b hb => ?_, ?_, same, by simp⟩
    · -- Under a nested relation a column reads nothing but the sources.
      have agrees : (Part.expr e).Every (Part.Tame (fun _ => True) (· ∈ split.sources)) :=
        local'.names (fun _ _ => trivial) fun c hc => by simpa using local'.reads c hc
      have := (Correspondence.ExprFollows.of_agreeing tables agrees).value σ τ
        (fun a ha => hr.1 a ha) (by simp [plain])
      rw [← hde] at this ⊢
      rw [he] at this
      rw [scalar_viewed hr hv]
      exact this
    · simp [source] at hb
    · refine ⟨?_, ?_⟩
      · simp [nullFrame, declares_of_chosen tame.here chosen, Expr.declares]
      · simp [nullFrame, declares_of_chosen tame.here chosen]

section Nodes

variable (declared : ∀ a, D a → split.Outside a) (reads : ∀ a, R a → a ≠ split.rel)
include reads

/-- A column that stays where it is belongs to neither side. -/
theorem scalar_kept {c : Column} (tame : R c.rel)
    (kept : ((Expr.column c).nominate split.affinity split.sources nested).chosen = false)
    {τ σ σ' : Scope} {row : Row} (hr : (split.viewing τ row).rows σ.rows σ'.rows) :
    scalar tables (.column c) σ = scalar tables (.column c) σ' := by
  have outside : split.Outside c.rel := by
    refine ⟨fun inside => ?_, reads _ tame⟩
    rw [nominate_column inside] at kept
    cases kept
  rw [scalar, scalar, Scope.column, Scope.column, hr.2.2 _ outside]

include declared

/-- A node over parts that were rebuilt. -/
theorem Rebuilt.of_shaped {below : Bool} {e' : Expr} (tame : (Part.expr e).Every (Part.Tame D R))
    (kept : (e.nominate split.affinity split.sources nested).chosen = false)
    (deeper : nested = true → below = true)
    (shaped : e.Shaped (split.Rebuilt D R tables columns below)
      (split.RebuiltSelect D R tables columns) (split.RebuiltProjection D R) e') :
    split.Rebuilt D R tables columns nested e e' where
  tame := by
    have here : Part.Tame D (fun a => R a ∨ a = split.rel) _ :=
      (tame.names tame.declared fun c hc => .inl (tame.reads c hc)).here
    exact .of_matches (shaped.tame here fun _ _ h => h.aggregates) shaped.parts
      (fun _ _ h => h.tame) (fun _ _ h => h.tame) fun _ _ h => h.tame
  aggregates := by
    refine shaped.aggregates fun p p' h => ?_
    cases h with
    | expr h => exact h.aggregates
    | select h => exact h.aggregates
    | projection h => exact h.aggregates
  value := by
    intro τ row σ' holds hr hτ hσ'
    by_cases column : ∃ c, e = .column c
    · obtain ⟨c, rfl⟩ := column
      cases shaped
      rw [scalar_kept reads tame.here kept hr]
      exact .refl _
    · refine scalar_follows shaped (fun c hc => column ⟨c, hc⟩)
        (fun c c' h => h.value τ row σ' holds hr hτ hσ')
        (fun s s' h => ((h.follows τ row holds).rows τ σ' hr).mono fun _ _ h => h ▸ rfl)
        (fun s s' _ h => ((h.follows τ row holds).rows τ σ' hr).mono fun _ _ h => h ▸ rfl) ?_ ?_
      · intro _ _ _ _
        rw [hτ, hσ']
        exact .none
      · rintro orders rfl
        exact tame.here.elim
  follows := by
    intro hn τ row holds
    have here := (tame.names (fun a ha => declared a (tame.declared a ha)) tame.reads).here
    refine .of_shaped here (shaped.imp (fun c c' _ h => h.follows (deeper hn) τ row holds)
      (fun s s' _ h => h.follows τ row holds) fun p p' _ h => h) (fun p p' h => h.aggregates) ?_
    rintro c rfl σ σ' hr
    cases shaped
    rw [scalar_kept reads tame.here kept hr]
    exact .refl _

omit reads in
theorem RebuiltSelect.of_shaped {s s' : Select Expr} (tame : (Part.select s).Every (Part.Tame D R))
    (shaped : s.Shaped (split.Rebuilt D R tables columns true) s') :
    split.RebuiltSelect D R tables columns s s' where
  tame := by
    have here : Part.Tame D (fun a => R a ∨ a = split.rel) _ :=
      (tame.names tame.declared fun c hc => .inl (tame.reads c hc)).here
    exact .of_matches
      (shaped.tame here fun _ _ h => h.aggregates) shaped.parts (fun _ _ h => h.tame)
      (fun _ _ h => h.elim) fun _ _ h => h.elim
  follows := by
    intro τ row holds
    exact .of_shaped (tame.names (fun a ha => declared a (tame.declared a ha)) tame.reads)
      (shaped.imp fun c c' _ h => h.follows rfl τ row holds)
  aggregates := shaped.aggregates fun _ _ h => h.aggregates

end Nodes

structure Faces (split : Split) (nested : Bool) (τ : Scope) (row : Row) (σ σ' : Scope) : Prop where
  rows : (split.viewing τ row).rows σ.rows σ'.rows
  here : nested = false → σ = τ
  group : σ.group = none
  group' : σ'.group = none

theorem Faces.below {below : Bool} {τ σ σ' : Scope} {row : Row}
    (h : split.Faces nested τ row σ σ') (deeper : nested = true → below = true) :
    split.Faces below τ row σ σ' :=
  ⟨h.rows, fun hb => h.here (by cases nested <;> simp_all), h.group, h.group'⟩

theorem Faces.bind {τ σ σ' : Scope} {row : Row} (h : split.Faces true τ row σ σ')
    {rel : Alias} (outside : split.Outside rel) (inner : Row) :
    split.Faces true τ row (σ.bind rel inner) (σ'.bind rel inner) :=
  ⟨(split.viewing τ row).extend ((split.viewing τ row).single outside (some inner)) h.rows,
    by simp, rfl, rfl⟩

theorem Rebuilt.faced {e' : Expr} (h : split.Rebuilt D R tables columns nested e e')
    {τ σ σ' : Scope} {row : Row} (holds : Holds tables columns τ row)
    (faces : split.Faces nested τ row σ σ') : Follows Eq (scalar tables e σ) (scalar tables e' σ') := by
  cases nested with
  | false =>
    obtain rfl := faces.here rfl
    exact h.value σ row σ' holds faces.rows faces.group faces.group'
  | true =>
    refine (h.follows rfl τ row holds).value σ σ' faces.rows fun _ => ?_
    rw [faces.group, faces.group']
    exact .none

structure Shown (split : Split) (D R : Alias → Prop) (tables : Tables)
    (columns : List (ColumnDecl Expr)) (nested : Bool) (e e' : Expr) : Prop
    extends split.Rebuilt D R tables columns nested e e' where
  unjoined : (Part.expr e).Every Part.Unjoined → (Part.expr e').Every Part.Unjoined
  objects : (Part.expr e).Every Part.Unjoined → ∀ τ row σ σ', Holds tables columns τ row →
    split.Faces nested τ row σ σ' → FollowsRun (client tables e σ) (client tables e' σ')

structure ShownSelect (split : Split) (D R : Alias → Prop) (tables : Tables)
    (columns : List (ColumnDecl Expr)) (s s' : Select Expr) : Prop
    extends split.RebuiltSelect D R tables columns s s' where
  unjoined : (Part.select s).Every Part.Unjoined → (Part.select s').Every Part.Unjoined

structure ShownProjection (split : Split) (D R : Alias → Prop) (tables : Tables)
    (columns : List (ColumnDecl Expr)) (p p' : Projection Expr) : Prop
    extends split.RebuiltProjection D R p p' where
  unjoined : (Part.projection p).Every Part.Unjoined → (Part.projection p').Every Part.Unjoined
  objects : (Part.projection p).Every Part.Unjoined → ∀ τ row σ σ', Holds tables columns τ row →
    split.Faces true τ row σ σ' → FollowsRun (project tables p σ) (project tables p' σ')

theorem Shown.of_column (tame : (Part.expr e).Every (Part.Tame D R))
    (chosen : (e.nominate split.affinity split.sources nested).chosen = true)
    (apart : nested = false → (Part.expr e).aggregates = false) {d : ColumnDecl Expr}
    (hd : d ∈ columns) (hde : d.expr = e) (type : ColumnType) :
    split.Shown D R tables columns nested e (.column ⟨split.rel, d.name, type⟩) := by
  have rebuilt : split.Rebuilt D R tables columns nested e (.column ⟨split.rel, d.name, type⟩) :=
    .of_column tame chosen apart hd hde type
  refine ⟨rebuilt, fun _ => .node trivial (by simp [Part.parts]), fun _ τ row σ σ' holds faces => ?_⟩
  rw [client_of_nominated tables e (allowsParent_of_chosen chosen), client_value rfl]
  exact (FollowsRun.lift (rebuilt.faced holds faces)).bind fun _ => .refl _

theorem column_makes (tame : (Part.expr e).Every (Part.Tame D R))
    (chosen : (e.nominate split.affinity split.sources nested).chosen = true)
    (apart : nested = false → (Part.expr e).aggregates = false) :
    (Yields.ofState State).Makes (growth (Fits D split.sources)) (fun s e' =>
      split.Shown D R tables s.columns nested e e') (split.column e) := by
  refine Yields.Makes.mono (declared_makes split (tame.mono fun _ => Part.Tame.exact) fun _ => ?_) ?_
  · obtain ⟨local', plain⟩ := tame_of_nominated tame e rfl (allowsParent_of_chosen chosen) apart
    exact ⟨local'.names (fun a ha => (local'.declared a ha).2) fun c hc =>
      (local'.reads c hc).imp id And.right, plain⟩
  · rintro s e' ⟨d, hd, hde, type, rfl⟩
    exact .of_column tame chosen apart hd hde type

section Nodes

variable (declared : ∀ a, D a → split.Outside a) (reads : ∀ a, R a → a ≠ split.rel)
include declared

include reads in
theorem Shown.of_shaped {below : Bool} {e' : Expr} (tame : (Part.expr e).Every (Part.Tame D R))
    (kept : (e.nominate split.affinity split.sources nested).chosen = false)
    (deeper : nested = true → below = true)
    (shaped : e.Shaped (split.Shown D R tables columns below) (split.ShownSelect D R tables columns)
      (split.ShownProjection D R tables columns) e') :
    split.Shown D R tables columns nested e e' := by
  have rebuilt : split.Rebuilt D R tables columns nested e e' := .of_shaped declared reads tame kept
    deeper (shaped.imp (fun _ _ _ h => h.toRebuilt) (fun _ _ _ h => h.toRebuiltSelect)
      fun _ _ _ h => h.toRebuiltProjection)
  refine ⟨rebuilt, fun unjoined => ?_, fun unjoined τ row σ σ' holds faces => ?_⟩
  · have parts := shaped.imp (fun _ _ hc h => h.unjoined (unjoined.part hc))
      (fun _ _ hs h => h.unjoined (unjoined.part hs)) fun _ _ hp h => h.unjoined (unjoined.part hp)
    exact .of_matches (shaped.unjoined unjoined.here) parts.parts (fun _ _ h => h) (fun _ _ h => h)
      fun _ _ h => h
  · have parts := shaped.imp (fun _ _ hc h => And.intro h (unjoined.part hc)) (fun _ _ _ h => h)
      fun _ _ hp h => And.intro h (unjoined.part hp)
    refine client_follows parts (rebuilt.faced holds faces)
      (fun c c' h => h.1.faced holds (faces.below deeper))
      (fun c c' h => h.1.objects h.2 τ row σ σ' holds (faces.below deeper))
      (fun p p' h => h.1.objects h.2 τ row σ σ' holds (faces.below fun _ => rfl)) ?_
    rintro p outer inner rfl
    exact unjoined.here.elim

theorem ShownSelect.of_shaped {s s' : Select Expr} (tame : (Part.select s).Every (Part.Tame D R))
    (shaped : s.Shaped (split.Shown D R tables columns true) s') :
    split.ShownSelect D R tables columns s s' := by
  refine ⟨.of_shaped declared tame (shaped.imp fun _ _ _ h => h.toRebuilt), fun unjoined => ?_⟩
  have parts := shaped.imp fun _ _ hc h => h.unjoined (unjoined.part hc)
  exact .of_matches trivial parts.parts (fun _ _ h => h) (fun _ _ h => h.elim) fun _ _ h => h.elim

omit declared in
theorem ShownProjection.of_shaped {p p' : Projection Expr}
    (shaped : p.Shaped (split.Shown D R tables columns true) (split.ShownSelect D R tables columns) p') :
    split.ShownProjection D R tables columns p p' := by
  refine ⟨⟨?_, ?_⟩, fun unjoined => ?_, fun unjoined τ row σ σ' holds faces => ?_⟩
  · exact .of_matches trivial shaped.parts (fun _ _ h => h.tame) (fun _ _ h => h.tame)
      fun _ _ h => h.elim
  · refine shaped.aggregates fun p p' h => ?_
    cases h with
    | expr h => exact h.aggregates
    | select h => exact h.aggregates
    | projection h => exact h.elim
  · refine .node trivial fun q hq => ?_
    simp only [Part.parts, List.mem_cons, List.not_mem_nil, or_false] at hq
    rcases hq with rfl | rfl
    · exact shaped.select.unjoined (unjoined.part Projection.select_mem)
    · exact shaped.projector.unjoined (unjoined.part Projection.projector_mem)
  · have select := shaped.select.follows τ row holds
    refine project_follows select.rel shaped.pick (select.rows σ σ' faces.rows).forall₂_eq ?_
    rintro inner _ rfl
    exact shaped.projector.objects (unjoined.part Projection.projector_mem) τ row _ _ holds
      (faces.bind select.shared inner)

end Nodes

theorem nests_of_projection {e : Expr} {p : Projection Expr} (h : .projection p ∈ (Part.expr e).parts) :
    nests e = true := by
  cases e <;> simp_all [Part.parts, nests]

/-- What the walk makes of a tree. -/
theorem walk_makes (split : Split) (tables : Tables) (declared : ∀ a, D a → split.Outside a)
    (reads : ∀ a, R a → a ≠ split.rel) {p : Part} (tame : p.Every (Part.Tame D R)) :
    (∀ e nested, p = .expr e → (nested = false → (Part.expr e).aggregates = false) →
      (Yields.ofState State).Makes (growth (Fits D split.sources)) (fun s e' =>
        split.Shown D R tables s.columns nested e e') (split.expr nested e))
    ∧ (∀ q, p = .select q → (Yields.ofState State).Makes (growth (Fits D split.sources)) (fun s q' =>
        split.ShownSelect D R tables s.columns q q') (split.select q))
    ∧ (∀ q, p = .projection q → (Yields.ofState State).Makes (growth (Fits D split.sources)) (fun s q' =>
        split.ShownProjection D R tables s.columns q q') (split.projection true q)) := by
  induction tame with
  | @node p here parts ih =>
    have tame : p.Every (Part.Tame D R) := .node here parts
    refine ⟨?_, ?_, ?_⟩
    · rintro e nested rfl apart
      rw [expr_eq]
      split
      · rename_i chosen
        exact column_makes tame chosen apart
      · rename_i kept
        rw [Bool.not_eq_true] at kept
        have projections : ∀ q, Part.projection q ∈ (Part.expr e).parts →
            (Yields.ofState State).Makes (growth (Fits D split.sources))
              (fun s q' => split.ShownProjection D R tables s.columns q q')
              (split.projection (nested || nests e) q) := by
          intro q hq
          rw [nests_of_projection hq, Bool.or_true]
          exact (ih _ hq).2.2 q rfl
        refine Yields.Makes.mono (Expr.traverse_makes e (fun c hc => (ih _ hc).1 c _ rfl ?_)
          (fun q hq => (ih _ hq).2.1 q rfl) projections) fun s e' shaped => ?_
        · intro outside
          have := mt (here.aggregates_of_part hc)
          simp_all
        · exact .of_shaped declared reads tame kept (by simp +contextual) shaped
    · rintro q rfl
      rw [Split.select]
      refine Yields.Makes.mono (Select.traverse_makes q fun e he =>
        (ih _ he).1 e true rfl (by simp)) fun s q' shaped => ?_
      exact .of_shaped declared tame shaped
    · rintro q rfl
      rw [Split.projection]
      exact Yields.Makes.mono (Projection.traverse_makes q (fun e he =>
        (ih _ he).1 e true rfl (by simp)) fun q hq => (ih _ hq).2.1 q rfl) fun s q' shaped =>
          .of_shaped shaped

end Split

/-- Splitting a condition without aggregates over the columns of a select. -/
theorem Expr.split_rebuilds (affinity : Affinity) (tables : Tables) {condition : Expr}
    (existing : List (ColumnDecl Expr)) {rel : Alias} (tame : (Part.expr condition).Every (Part.Tame D R))
    (apart : (Part.expr condition).aggregates = false)
    (declared : ∀ a, D a → a ∉ sources ∧ a ≠ rel) (reads : ∀ a, R a → a ≠ rel) :
    (∃ added, (condition.split affinity existing rel sources).columns = existing ++ added
      ∧ ((existing.map (·.name)).Nodup →
        ((condition.split affinity existing rel sources).columns.map (·.name)).Nodup)
      ∧ ∀ d ∈ added, Split.Fits D sources d)
    ∧ (Split.mk affinity rel sources).Shown D R tables
      (condition.split affinity existing rel sources).columns false condition
      (condition.split affinity existing rel sources).projector := by
  obtain ⟨_, grown, rebuilt⟩ := split_of_makes ((Split.walk_makes ⟨affinity, rel, sources⟩ tables
    declared reads tame).1 condition false rfl fun _ => apart) existing
  exact ⟨grown, rebuilt⟩

end ObjectQuery
