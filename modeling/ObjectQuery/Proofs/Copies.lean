import ObjectQuery.Proofs.Renaming
import ObjectQuery.Tree.Copy

/-!
Copies under new names. The names that a copy gets are new and differ from each other, and the copy is
the tree itself where every alias that it declares has its new name. It leaves the same aliases free.
-/

namespace ObjectQuery

structure Renaming.Fresh (r : Renaming) (ds : List Alias) (n n' : Nat) : Prop where
  kept : ∀ a, a ∉ ds → r.rel a = a
  minted : ∀ a ∈ ds, n ≤ (r.rel a).id ∧ (r.rel a).id < n'
  distinct : ∀ a ∈ ds, ∀ b ∈ ds, r.rel a = r.rel b → a = b

/-- Names that are not new are kept apart from those that are. -/
theorem Renaming.Fresh.injective {r : Renaming} {ds : List Alias} {n n' : Nat} (h : r.Fresh ds n n') {a b : Alias}
    (ha : a ∈ ds ∨ a.id < n) (hb : b ∈ ds ∨ b.id < n) (same : r.rel a = r.rel b) : a = b := by
  have apart : ∀ {a b : Alias}, a ∈ ds → b ∉ ds → b.id < n → r.rel a ≠ r.rel b := by
    intro a b ha hb low same
    have high := (h.minted a ha).1
    rw [same, h.kept b hb] at high
    omega
  by_cases inside : a ∈ ds <;> by_cases inside' : b ∈ ds
  · exact h.distinct a inside b inside' same
  · exact absurd same (apart inside inside' (hb.resolve_left inside'))
  · exact absurd same.symm (apart inside' inside (ha.resolve_left inside))
  · rwa [h.kept a inside, h.kept b inside'] at same

def numberedFrom (n : Nat) (ds : List Alias) : List (Alias × Alias) :=
  (ds.zipIdx n).map fun x => (x.1, ⟨x.2⟩)

theorem run_freshAliases (ds : List Alias) (n : Nat) :
    (ds.mapM fun a => return (a, ← Supply.freshAlias) : Mint (List (Alias × Alias))).run ⟨n⟩
      = (numberedFrom n ds, ⟨n + ds.length⟩) := by
  induction ds generalizing n with
  | nil => rfl
  | cons a ds ih =>
    have rest : n + 1 + ds.length = n + (a :: ds).length := by
      rw [List.length_cons]
      omega
    rw [List.mapM_cons, StateT.run_bind]
    show ((fun x => ((a, Alias.mk n) :: x.1, x.2))
      ((ds.mapM fun a => return (a, ← Supply.freshAlias) : Mint (List (Alias × Alias))).run ⟨n + 1⟩)) = _
    rw [ih, rest]
    rfl

theorem mem_numberedFrom {n : Nat} {ds : List Alias} {a b : Alias} :
    (a, b) ∈ numberedFrom n ds ↔ n ≤ b.id ∧ ds[b.id - n]? = some a := by
  obtain ⟨i⟩ := b
  rw [← List.mk_mem_zipIdx_iff_le_and_getElem?_sub, numberedFrom, List.mem_map]
  constructor
  · rintro ⟨⟨_, _⟩, mem, same⟩
    cases same
    exact mem
  · intro mem
    exact ⟨(a, i), mem, rfl⟩

theorem Renaming.fresh_numberedFrom {n : Nat} {ds : List Alias} {r : Renaming}
    (h : r.aliases = numberedFrom n ds) : r.Fresh ds n (n + ds.length) := by
  have partner : ∀ a ∈ ds, (a, r.rel a) ∈ numberedFrom n ds := by
    intro a ha
    cases found : r.aliases.lookup a with
    | none =>
      obtain ⟨i, hi, at_i⟩ := List.mem_iff_getElem.mp ha
      have mem : (a, ⟨n + i⟩) ∈ r.aliases := by
        rw [h, mem_numberedFrom]
        simp [hi, at_i]
      simpa using List.lookup_eq_none_iff.mp found _ mem
    | some b =>
      obtain ⟨_, _, split, -⟩ := List.lookup_eq_some_iff.mp found
      rw [rel, found, ← h, split]
      simp
  refine ⟨fun a ha => ?_, fun a ha => ?_, fun a ha b hb same => ?_⟩
  · have none : r.aliases.lookup a = none := by
      refine List.lookup_eq_none_iff.mpr fun x hx => ?_
      rw [h] at hx
      have mem := List.mem_of_getElem? (mem_numberedFrom.mp hx).2
      exact bne_iff_ne.mpr fun same => ha (same ▸ mem)
    rw [rel, none, Option.getD_none]
  · obtain ⟨le, at_a⟩ := mem_numberedFrom.mp (partner a ha)
    have lt := (List.getElem?_eq_some_iff.mp at_a).1
    omega
  · have at_a := (mem_numberedFrom.mp (partner a ha)).2
    have at_b := (mem_numberedFrom.mp (partner b hb)).2
    rw [same] at at_a
    exact Option.some.inj (at_a.symm.trans at_b)

/-- A node of a relational tree: no lambda, no query operator and no command, and no float. -/
def Part.Relational : Part → Prop
  | .expr (.const v) => v.Exact
  | .expr (.lambda _) | .expr (.operator _) | .expr (.command _) => False
  | _ => True

namespace Part

abbrev Renamed (r : Renaming) : Part → Part → Prop :=
  Paired (r.rel · = ·) (r.rel · = ·) fun _ _ => False

theorem paired_of_matches {D R : Alias → Alias → Prop} {V : Expr → Expr → Prop} {p p' : Part}
    {QP : Projection Expr → Projection Expr → Prop} {QS : Select Expr → Select Expr → Prop}
    (kin : p.Kin D R p') (parts : List.Forall₂ (Part.Matches
      (fun c c' => Paired D R V (.expr c) (.expr c')) QS QP) p.parts p'.parts)
    (selects : ∀ s s', QS s s' → Paired D R V (.select s) (.select s'))
    (projections : ∀ q q', QP q q' → Paired D R V (.projection q) (.projection q')) :
    p.Paired D R V p' := by
  obtain ⟨lengths, related⟩ := List.forall₂_iff_zip.mp parts
  refine .node kin lengths fun q q' hq => ?_
  cases related hq with
  | expr h => exact h
  | select h => exact selects _ _ h
  | projection h => exact projections _ _ h

variable {r : Renaming}

/-- A node whose parts were renamed, and then the node itself. -/
theorem renamed_of_shaped {e e₁ e' : Expr}
    (shaped : e.Shaped (fun c c' => Renamed r (.expr c) (.expr c'))
      (fun s s' => Renamed r (.select s) (.select s'))
      (fun q q' => Renamed r (.projection q) (.projection q')) e₁)
    (node : e₁.Renamed (r.rel · = ·) (r.rel · = ·) e') : Renamed r (.expr e) (.expr e') := by
  obtain ⟨e₂, flipped, renamed⟩ := node.flip.comm shaped.flip
  have shaped : e₂.Shaped _ _ _ e' := flipped.flip
  have kin : (Part.expr e).Kin (r.rel · = ·) (r.rel · = ·) (.expr e') :=
    .expr renamed.flip (shaped.imp (fun _ _ _ _ => trivial) (fun _ _ _ _ => trivial) fun _ _ _ _ => trivial)
  refine paired_of_matches kin ?_ (fun _ _ h => h) fun _ _ h => h
  rw [← renamed.parts]
  exact shaped.parts

theorem renamed_of_shaped_select {s s' : Select Expr}
    (shaped : s.Shaped (fun c c' => Renamed r (.expr c) (.expr c')) s') :
    Renamed r (.select s) (.select { s' with rel := r.rel s.rel }) := by
  have like : s.Like { s' with rel := r.rel s.rel } :=
    { (shaped.imp fun _ _ _ _ => trivial).akin with }
  exact paired_of_matches (.select rfl like) shaped.parts (fun _ _ h => h.elim) fun _ _ h => h.elim

theorem renamed_of_shaped_projection {q q' : Projection Expr}
    (shaped : q.Shaped (fun c c' => Renamed r (.expr c) (.expr c'))
      (fun s s' => Renamed r (.select s) (.select s')) q') :
    Renamed r (.projection q) (.projection q') :=
  paired_of_matches (.projection shaped.pick) shaped.parts (fun _ _ h => h) fun _ _ h => h.elim

/-- After its parts, a node other than a leaf is renamed. -/
theorem mints_rename {e : Expr} (relational : Relational (.expr e)) (table : ∀ t, e ≠ .table t)
    (column : ∀ c, e ≠ .column c) (param : ∀ p, e ≠ .param p)
    (walked : Mints (e.Shaped (fun c c' => Renamed r (.expr c) (.expr c'))
      (fun s s' => Renamed r (.select s) (.select s'))
      fun q q' => Renamed r (.projection q) (.projection q'))
      (e.traverse (fun c _ => c.rename r) (fun s _ => s.rename r) fun q _ => q.rename r)) :
    Mints (fun e' => Renamed r (.expr e) (.expr e')) (e.rename r) := by
  rw [Expr.rename.eq_4 r e table column param]
  refine mints_bind walked fun copy shaped => ?_
  split
  · cases shaped
    exact relational.elim
  · exact mints_pure (renamed_of_shaped shaped (.setOp _ _ _ rfl))
  · exact mints_bind mints_fresh fun n _ =>
      mints_pure (renamed_of_shaped shaped (.groupAggregate _ n _ _ rfl))
  · cases shaped
    exact relational.elim
  · rename_i setOp groupAggregate _
    refine mints_pure (renamed_of_shaped shaped (.nameless ?_))
    cases copy with
    | table t =>
      cases shaped
      exact table t rfl
    | column c =>
      cases shaped
      exact column c rfl
    | setOp rel kind s t => exact setOp rel kind s t rfl
    | groupAggregate n owner c s => exact groupAggregate n owner c s rfl
    | _ => trivial

/-- What renaming makes of the parts of a relational tree. -/
theorem rename_makes (params : ∀ p, r.param p = p) {p : Part} (relational : p.Every Relational) :
    (∀ e, p = .expr e → Mints (fun e' => Renamed r (.expr e) (.expr e')) (e.rename r))
    ∧ (∀ s, p = .select s → Mints (fun s' => Renamed r (.select s) (.select s')) (s.rename r))
    ∧ ∀ q, p = .projection q →
      Mints (fun q' => Renamed r (.projection q) (.projection q')) (q.rename r) := by
  induction relational with
  | @node p here _ ih =>
    refine ⟨?_, ?_, ?_⟩
    · rintro e rfl
      have walked := Expr.traverse_makes (Y := Yields.ofState Supply) (G := supplies) e
        (fun c hc => (ih _ hc).1 c rfl) (fun s hs => (ih _ hs).2.1 s rfl) fun q hq => (ih _ hq).2.2 q rfl
      cases e with
      | table t =>
        rw [Expr.rename]
        exact mints_pure (renamed_of_shaped (.table t) (.table rfl rfl))
      | column c =>
        rw [Expr.rename]
        exact mints_pure (renamed_of_shaped (.column c) (.column rfl rfl))
      | param n =>
        rw [Expr.rename, params]
        exact mints_pure (renamed_of_shaped (.param n) (.nameless trivial))
      | _ => exact mints_rename here (by simp) (by simp) (by simp) walked
    · rintro s rfl
      rw [Select.rename]
      exact mints_bind (Select.traverse_makes s fun e he => (ih _ he).1 e rfl) fun _ shaped =>
        mints_pure (renamed_of_shaped_select shaped)
    · rintro q rfl
      rw [Projection.rename]
      exact Yields.Makes.mono (Projection.traverse_makes q (fun e he => (ih _ he).1 e rfl)
        fun s hs => (ih _ hs).2.1 s rfl) fun _ _ shaped => renamed_of_shaped_projection shaped

/-- A relational tree binds no parameter, and only tables, selects and set operations declare in it. -/
theorem ownParams_eq_nil {p : Part} (relational : p.Every Relational) : p.ownParams = [] := by
  refine List.eq_nil_iff_forall_not_mem.mpr fun a ha => ?_
  refine Every.of_mem_gather (D := fun _ => False) (relational.mono fun q here a ha => ?_) a ha
  split at ha
  · exact here
  · exact here
  · cases ha

theorem ownAliases_eq_declared {p : Part} (relational : p.Every Relational) : p.ownAliases = p.declared := by
  induction relational with
  | @node p here _ ih =>
    rw [ownAliases, declared, gather_eq, gather_eq]
    congr 1
    · cases p with
      | expr e => cases e <;> first | rfl | exact here.elim
      | select _ | projection _ => rfl
    · exact List.flatMap_congr ih

end Part

theorem Renaming.run_fresh {p : Part} (relational : p.Every Part.Relational) (n : Nat) :
    (fresh p).run ⟨n⟩ = (⟨numberedFrom n p.declared.eraseDups, []⟩, ⟨n + p.declared.eraseDups.length⟩) := by
  simp only [fresh, Part.ownParams_eq_nil relational, Part.ownAliases_eq_declared relational, StateT.run_bind,
    run_freshAliases]
  rfl

/-- Under new names for all that it declares, a relational tree is renamed. -/
theorem Expr.rename_fresh {e : Expr} (relational : (Part.expr e).Every Part.Relational) (n : Nat) :
    ∃ copy s, (e.rename ⟨numberedFrom n (Part.expr e).declared.eraseDups, []⟩).run
        ⟨n + (Part.expr e).declared.eraseDups.length⟩ = (copy, s)
      ∧ Renaming.Fresh ⟨numberedFrom n (Part.expr e).declared.eraseDups, []⟩ (Part.expr e).declared n s.next
      ∧ Part.Renamed ⟨numberedFrom n (Part.expr e).declared.eraseDups, []⟩ (.expr e) (.expr copy)
      ∧ n ≤ s.next := by
  let r : Renaming := ⟨numberedFrom n (Part.expr e).declared.eraseDups, []⟩
  obtain ⟨copy, s, run, le, holds⟩ :=
    (Part.rename_makes (r := r) (fun _ => rfl) relational).1 e rfl ⟨n + (Part.expr e).declared.eraseDups.length⟩
  have fresh := Renaming.fresh_numberedFrom (r := r) rfl
  refine ⟨copy, s, run, ⟨fun a ha => fresh.kept a (by simpa using ha), fun a ha => ?_, fun a ha b hb => ?_⟩,
    holds s (Nat.le_refl _), Nat.le_trans (Nat.le_add_right _ _) le⟩
  · obtain ⟨low, high⟩ := fresh.minted a (by simpa using ha)
    exact ⟨low, Nat.lt_of_lt_of_le high le⟩
  · exact fresh.distinct a (by simpa using ha) b (by simpa using hb)

/-- A copy of a relational tree is the tree under new names. -/
theorem Expr.copy_renamed {e : Expr} (relational : (Part.expr e).Every Part.Relational) (supply : Supply) :
    ∃ r : Renaming, r.Fresh (Part.expr e).declared supply.next (e.copy.run supply).2.next
      ∧ Part.Renamed r (.expr e) (.expr (e.copy.run supply).1) := by
  obtain ⟨n⟩ := supply
  obtain ⟨copy, s, run, fresh, renamed, -⟩ := rename_fresh relational n
  have whole : e.copy.run ⟨n⟩ = (copy, s) := by
    rw [Expr.copy, StateT.run_bind, Renaming.run_fresh relational]
    exact run
  rw [whole]
  exact ⟨_, fresh, renamed⟩

/-- So is a copy that tells its new names, even where there is nothing to rename. -/
theorem Expr.copyWithAliases_renamed {e : Expr} (relational : (Part.expr e).Every Part.Relational)
    (supply : Supply) : ∃ (r : Renaming) (copy : Expr) (names : List (Alias × Alias)) (after : Supply),
      e.copyWithAliases.run supply = ((copy, names), after)
      ∧ r.Fresh (Part.expr e).declared supply.next after.next
      ∧ Part.Renamed r (.expr e) (.expr copy) ∧ supply.next ≤ after.next := by
  obtain ⟨n⟩ := supply
  cases declared : (Part.expr e).declared.eraseDups with
  | nil =>
    have none : (Part.expr e).declared = [] := by
      refine List.eq_nil_iff_forall_not_mem.mpr fun a ha => ?_
      have erased := List.mem_eraseDups.mpr ha
      rw [declared] at erased
      cases erased
    have run : e.copyWithAliases.run ⟨n⟩ = ((e, []), ⟨n⟩) := by
      rw [Expr.copyWithAliases, StateT.run_bind, Renaming.run_fresh relational, declared]
      rfl
    refine ⟨⟨[], []⟩, e, [], ⟨n⟩, run, ?_, .refl (fun _ => rfl) (fun _ => rfl) _, Nat.le_refl n⟩
    rw [none]
    exact ⟨fun _ _ => rfl, by simp, by simp⟩
  | cons a ds =>
    obtain ⟨copy, s, run, fresh, renamed, le⟩ := rename_fresh relational n
    rw [declared] at run fresh renamed
    have whole : e.copyWithAliases.run ⟨n⟩ = ((copy, numberedFrom n (a :: ds)), s) := by
      rw [Expr.copyWithAliases, StateT.run_bind, Renaming.run_fresh relational, declared]
      show ((fun x => ((x.1, numberedFrom n (a :: ds)), x.2))
        ((e.rename ⟨numberedFrom n (a :: ds), []⟩).run ⟨n + (a :: ds).length⟩)) = _
      rw [run]
    exact ⟨_, copy, _, s, whole, fresh, renamed, le⟩

namespace Part

variable {r : Renaming} {p p' : Part}

theorem aggregates_renamed (h : Renamed r p p') : p.aggregates = p'.aggregates :=
  h.aggregates fun _ _ given => given.elim

theorem matches_of_renamed (h : Renamed r p p') :
    p.Matches (fun e e' => (Part.expr e).aggregates = (Part.expr e').aggregates) (fun _ _ => True)
      (fun _ _ => True) p' := by
  have aggregates := aggregates_renamed h
  cases h with
  | given h => exact h.elim
  | node kin _ _ =>
    cases kin with
    | expr _ _ => exact .expr aggregates
    | select _ _ => exact .select trivial
    | projection _ => exact .projection trivial

/-- A copy is tame where its original is, whatever its names, and has no more client joins. -/
theorem every_renamed (h : Renamed r p p')
    (every : p.Every fun q => Tame (fun _ => True) (fun _ => True) q ∧ Unjoined q) :
    p'.Every fun q => Tame (fun _ => True) (fun _ => True) q ∧ Unjoined q := by
  induction h with
  | given h => exact h.elim
  | @node p p' kin lengths paired ih =>
    have parts := List.forall₂_iff_zip.mpr ⟨lengths, fun hq => matches_of_renamed (paired _ _ hq)⟩
    have below := List.forall₂_iff_zip.mpr ⟨lengths, fun hq => ih _ _ hq (every.part (List.of_mem_zip hq).1)⟩
    refine .node ?_ fun q' hq' => ?_
    · cases kin with
      | @expr e e₁ e' renamed like =>
        rw [renamed.parts] at parts
        have shaped := Expr.Shaped.of_parts like parts
        have node : Tame (fun _ => True) (fun _ => True) (.expr e₁) ∧ Unjoined (.expr e₁) := by
          cases renamed <;> exact every.here
        exact ⟨shaped.tame node.1 fun _ _ same => same, shaped.unjoined node.2⟩
      | @select s s' _ like =>
        have akin := Select.Akin.of_parts like parts
        have pages := List.rel_append (forall₂_toList akin.skip) (forall₂_toList akin.take)
        refine ⟨⟨trivial, fun e' he' => ?_⟩, trivial⟩
        obtain ⟨e, he, same⟩ := exists_of_forall₂_right pages e' he'
        rw [← same]
        exact every.here.1.2 e he
      | projection _ => exact ⟨trivial, trivial⟩
    · obtain ⟨_, _, under⟩ := exists_of_forall₂_right below q' hq'
      exact under

end Part

namespace Part

section Gathered

variable {α β : Type} {S : α → β → Prop} {visit : Part → List α} {visit' : Part → List β}
  {D R : Alias → Alias → Prop} {V : Expr → Expr → Prop} {p p' : Part}

/-- What paired trees show node by node, they show as a whole. -/
theorem Paired.gather (h : p.Paired D R V p') (given : ∀ e e', ¬ V e e')
    (node : ∀ q q', q.Kin D R q' → List.Forall₂ S (visit q) (visit' q')) :
    List.Forall₂ S (p.gather visit fun _ => true) (p'.gather visit' fun _ => true) := by
  induction h with
  | given h => exact absurd h (given _ _)
  | @node p p' kin lengths _ ih =>
    rw [gather_eq, gather_eq]
    refine List.rel_append (node p p' kin) (List.rel_flatMap ?_ fun _ _ h => h)
    exact List.forall₂_iff_zip.mpr ⟨lengths, fun hq => ih _ _ hq⟩

end Gathered

section Renamed

variable {r : Renaming} {p p' : Part} {n n' : Nat}

theorem eq_map_of_forall₂ {α β : Type} {f : α → β} {as : List α} {bs : List β}
    (h : List.Forall₂ (f · = ·) as bs) : bs = as.map f := by
  induction h with
  | nil => rfl
  | cons head _ ih => rw [List.map_cons, head, ih]

theorem declared_renamed (h : Renamed r p p') : p'.declared = p.declared.map r.rel :=
  eq_map_of_forall₂ (h.gather (fun _ _ => id) fun _ _ kin => kin.binds)

theorem columnRefs_renamed (h : Renamed r p p') :
    p'.columnRefs.map (·.rel) = (p.columnRefs.map (·.rel)).map r.rel := by
  refine eq_map_of_forall₂ (List.forall₂_map_left_iff.mpr (List.forall₂_map_right_iff.mpr ?_))
  refine h.gather (fun _ _ => id) fun q q' kin => ?_
  cases kin with
  | select _ _ | projection _ => exact .nil
  | expr renamed like =>
    cases renamed with
    | column _ same =>
      cases like
      exact .cons same .nil
    | nameless h => cases like <;> first | exact .nil | exact h.elim
    | _ =>
      cases like
      exact .nil

theorem rel_mem_references {p : Part} {c : Column} (h : c ∈ p.columnRefs) : c.rel ∈ p.references := by
  have all : Every (fun q => ∀ a ∈ reads q, a ∈ p.references) p := every_of_gather p fun _ ha => ha
  refine Every.of_mem_gather (D := fun c => c.rel ∈ p.references) (all.mono fun q hq c hc => ?_) c h
  split at hc
  · exact hq c.rel (by simp [reads, List.mem_singleton.mp hc])
  · cases hc

theorem mem_free_renamed (h : Renamed r p p') (fresh : r.Fresh p.declared n n')
    (below : ∀ a ∈ p.references, a.id < n) {a : Alias} : a ∈ p'.free ↔ a ∈ p.free := by
  rw [mem_free, mem_free, ← List.mem_map, ← List.mem_map, columnRefs_renamed h, declared_renamed h]
  constructor
  · rintro ⟨read, undeclared⟩
    obtain ⟨b, hb, rfl⟩ := List.mem_map.mp read
    have outside : b ∉ p.declared := fun hd => undeclared (List.mem_map_of_mem hd)
    rw [fresh.kept b outside]
    exact ⟨hb, outside⟩
  · rintro ⟨read, outside⟩
    obtain ⟨c, hc, rfl⟩ := List.mem_map.mp read
    refine ⟨List.mem_map.mpr ⟨c.rel, read, fresh.kept _ outside⟩, fun hd => ?_⟩
    obtain ⟨b, hb, same⟩ := List.mem_map.mp hd
    have low := (fresh.minted b hb).1
    have high := below c.rel (rel_mem_references hc)
    rw [same] at low
    omega

end Renamed

end Part

end ObjectQuery
