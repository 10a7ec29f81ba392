import ObjectQuery.Proofs.Tidiness
import ObjectQuery.Rewrite.Associations
import ObjectQuery.Rewrite.Comparisons
import ObjectQuery.Rewrite.Singletons

/-!
Following associations, expanding comparisons of objects and joining single nested objects keep a tree
tidy. The relations that a mapping stands for are tidy whatever it maps, and an owner that is joined to
what it owns keeps its columns and gets others under free names.
-/

namespace ObjectQuery

open Outcomes (ofState ofStateOk ofOk)

namespace Comparisons

variable {left right : Expr}

theorem tidy_negateIf {e : Expr} (negate : Bool) (h : e.Tidy) : (negateIf negate e).Tidy := by
  cases negate
  exacts [h, Expr.tidy_unary.mpr h]

theorem tidy_memberTerm (hl : left.Tidy) (hr : right.Tidy) (name : String) :
    (memberTerm left right name).Tidy := by
  have hl := Expr.tidy_bindMember name hl
  have hr := Expr.tidy_bindMember name hr
  simp only [memberTerm]
  split
  · exact Expr.tidy_isNull.mpr hl
  · split
    exacts [Expr.tidy_isNull.mpr hr, Expr.tidy_binary.mpr ⟨hl, hr⟩]

theorem tidy_byMembers (hl : left.Tidy) (hr : right.Tidy) (names : List String) :
    (byMembers left right names).Tidy := by
  have terms : ∀ e ∈ Expr.conjoin? (names.map (memberTerm left right)), e.Tidy := by
    refine Expr.tidy_conjoin? fun e he => ?_
    obtain ⟨name, -, rfl⟩ := List.mem_map.mp he
    exact tidy_memberTerm hl hr name
  rw [byMembers]
  cases found : Expr.conjoin? (names.map (memberTerm left right)) with
  | none => exact Expr.tidy_const _
  | some e => exact terms e found

theorem tidy_expand {m : Mapping} {negate : Bool} {e : Expr} (hl : left.Tidy) (hr : right.Tidy)
    (h : expand m negate left right = .ok (some e)) : e.Tidy := by
  unfold expand at h
  split at h
  · rename_i test found
    have tidyTest : test.Tidy := by
      unfold joinTest? at found
      split at found
      · exact Option.some.inj found ▸ (Expr.tidy_outerJoined.mp hl).1
      · exact Option.some.inj found ▸ (Expr.tidy_outerJoined.mp hr).1
      · cases found
    obtain rfl := Option.some.inj (Except.ok.inj h)
    exact tidy_negateIf _ (Expr.tidy_isNull.mpr tidyTest)
  · cases compared : comparedMembers m left right with
    | error _ => simp [compared, bind, Except.bind] at h
    | ok names? =>
      cases names? with
      | none => simp [compared, bind, Except.bind, pure, Except.pure] at h
      | some names =>
        simp only [compared, bind, Except.bind, pure, Except.pure, Option.map_some,
          Except.ok.injEq, Option.some.injEq] at h
        exact h ▸ tidy_negateIf _ (tidy_byMembers hl hr names)

def walker (m : Mapping) : Walker (Except RewriteError) :=
  ⟨Expr.expandComparisons m, Select.expandComparisons m, Projection.expandComparisons m⟩

/-- An expanded comparison is looked at again; it ranks below the one it comes from. -/
theorem keeps_tidy (m : Mapping) {p : Part} (h : p.Tidy) :
    (walker m).Keeps (ofOk _) (fun _ => True) Part.NamesOnce p := by
  obtain ⟨n, bound⟩ : ∃ n, rank p ≤ n := ⟨_, Nat.le_refl _⟩
  induction n using Nat.strongRecOn generalizing p with | ind n lower =>
  induction h with
  | @node p here tidy ih =>
    have parts : ∀ q ∈ p.parts, (walker m).Keeps (ofOk _) (fun _ => True) Part.NamesOnce q :=
      fun q hq => ih q hq (Nat.le_trans (rank_le_of_mem hq) bound)
    cases p with
    | expr e =>
      change (ofOk _).Keeps (fun _ => True) Expr.Tidy (e.expandComparisons m)
      have walked := Walker.Keeps.traverse parts Part.lasting_namesOnce here
      cases e with
      | binary op left right =>
        have onParts : (ofOk RewriteError).Keeps (fun _ => True) Expr.Tidy (do
            return .binary op (← left.expandComparisons m) (← right.expandComparisons m)) :=
          Outcomes.Keeps.bind (parts (.expr left) (by simp [Part.parts])) fun left hl =>
            Outcomes.Keeps.bind (parts (.expr right) (by simp [Part.parts])) fun right hr =>
              .pure (Expr.tidy_binary.mpr ⟨hl, hr⟩)
        rw [Expr.expandComparisons]
        split
        · rename_i compares
          split
          · rintro _ _ _ - ⟨⟩
          · rename_i expanded found
            have less := rank_expand_lt found
            rw [← rank_comparison compares] at less
            exact lower _ (Nat.lt_of_lt_of_le less bound) (tidy_expand (tidy _ (by simp [Part.parts]))
              (tidy _ (by simp [Part.parts])) found) (Nat.le_refl _)
          · exact onParts
        · exact onParts
      | _ =>
        rw [Expr.expandComparisons.eq_2 _ _ (by simp)]
        exact walked
    | select s =>
      change (ofOk _).Keeps (fun _ => True) Select.Tidy (s.expandComparisons m)
      rw [Select.expandComparisons]
      exact Walker.Keeps.traverseSelect parts Part.lasting_namesOnce here
    | projection p =>
      change (ofOk _).Keeps (fun _ => True) Projection.Tidy (p.expandComparisons m)
      rw [Projection.expandComparisons]
      exact Walker.Keeps.traverseProjection parts Part.lasting_namesOnce here

end Comparisons

theorem Expr.Tidy.expandComparisons {e e' : Expr} (h : e.Tidy) {m : Mapping}
    (run : e.expandComparisons m = .ok e') : e'.Tidy :=
  (Comparisons.keeps_tidy m h () e' () trivial run).1

namespace Mapping

theorem keeps_mint {ε α : Type} {R : α → Prop} {mint : Mint α}
    (h : (ofState Supply).Keeps (fun _ => True) R mint) :
    (ofStateOk Supply ε).Keeps (fun _ => True) R (liftM mint) := by
  rintro supply a supply' - run
  exact h supply a supply' trivial (Except.ok.inj run)

theorem Entity.keeps_relation (e : Entity) :
    (ofState Supply).Keeps (fun _ => True) Projection.Tidy e.relation := by
  rw [relation]
  refine Outcomes.Keeps.anything.bind fun table _ => Outcomes.Keeps.anything.bind fun rel _ => .pure ?_
  have shape : (e.projector table).Tidy := by
    refine Expr.tidy_entity.mpr (Expr.tidy_construct.mpr fun f hf => ?_)
    obtain ⟨member, -, rfl⟩ := List.mem_map.mp hf
    exact Expr.tidy_column _
  obtain ⟨projector, columns⟩ := shape.split .client .nil rel [table.rel]
  exact Projection.tidy_iff.mpr ⟨Select.tidy_plain columns (by simp) (by simp), projector⟩

variable {m : Mapping}

theorem keeps_relation (entity : String) :
    (ofStateOk Supply Error).Keeps (fun _ => True) Projection.Tidy (m.relation entity) :=
  Outcomes.Keeps.anything.bind fun e _ => keeps_mint e.keeps_relation

theorem keeps_navigate {root : Expr} (h : root.Tidy) (a : Association) :
    (ofStateOk Supply Error).Keeps (fun _ => True) Expr.Tidy (m.navigate root a) := by
  rw [navigate]
  refine (keeps_relation a.target).bind fun inner tidy => ?_
  obtain ⟨select, projector⟩ := Projection.tidy_iff.mp tidy
  refine Outcomes.Keeps.anything.bind fun rel _ => .pure ?_
  obtain ⟨shape, columns⟩ := projector.split .client .nil rel [inner.select.rel]
  refine Expr.tidy_projection.mpr (Projection.tidy_iff.mpr ⟨Select.tidy_plain columns (by simpa using select)
    (Expr.tidy_conjoin? fun e he => ?_), shape⟩)
  obtain ⟨⟨key, related⟩, -, rfl⟩ := List.mem_map.mp he
  exact Expr.tidy_binary.mpr ⟨Expr.tidy_bindMember related projector, Expr.tidy_bindMember key h⟩

theorem keeps_bindMember {root : Expr} (h : root.Tidy) (entity member : String) :
    (ofStateOk Supply Error).Keeps (fun _ => True) Expr.Tidy (m.bindMember root entity member) := by
  unfold bindMember
  split
  · exact keeps_navigate h _
  · refine Outcomes.Keeps.anything.bind fun e _ => ?_
    split
    · exact .pure (Expr.tidy_bindMember member h)
    · rintro _ _ _ - ⟨⟩

end Mapping

namespace Associations

def TidySource (state : State) : Prop := ∀ e ∈ state.source, e.Tidy

theorem keeps_follow {m : Mapping} {root : Expr} (h : root.Tidy) (entity member : String) :
    (ofStateOk State RewriteError).Keeps TidySource Expr.Tidy (Associations.follow m root entity member) := by
  intro state e state' source run
  have run : Associations.follow m root entity member state = .ok (e, state') := run
  unfold Associations.follow at run
  split at run
  · rename_i bound supply found
    cases run
    exact ⟨(Mapping.keeps_bindMember h entity member _ _ _ trivial found).1, source⟩
  · cases run

theorem keeps_attach (singleton : Bool) {p : Projection Expr} (h : p.Tidy) :
    (ofStateOk State RewriteError).Keeps TidySource Expr.Tidy (attach singleton p) := by
  rw [attach]
  refine (Outcomes.keepsOk_get fun _ => id).bind fun state tidy => ?_
  split
  · rename_i source found
    split
    · obtain ⟨select, projector⟩ := Projection.tidy_iff.mp h.withJoinTest
      have joined : (Expr.join .outerApply source (.select p.withJoinTest.select) none).Tidy :=
        Expr.tidy_join.mpr ⟨tidy source found, Expr.tidy_select.mpr select, by simp⟩
      exact (Outcomes.keepsOk_modify fun _ _ => by simpa [TidySource] using joined).bind fun _ _ =>
        .pure projector
    · exact .pure (Expr.tidy_projection.mpr h)
  · exact .pure (Expr.tidy_projection.mpr h)

theorem keeps_attached (singleton : Bool) (bound : Expr) : bound.Tidy →
    (ofStateOk State RewriteError).Keeps TidySource Expr.Tidy (match bound with
      | .projection p => attach singleton p
      | other => pure other) := by
  intro h
  split
  · exact keeps_attach singleton (Expr.tidy_projection.mp h)
  · exact .pure h

def walker (m : Mapping) (fuel : Nat) : Walker Walk :=
  ⟨Expr.follow m fuel, Select.follow m fuel, Projection.follow m fuel⟩

def SourceHas (P : Part → Prop) (state : State) : Prop := ∀ e ∈ state.source, (Part.expr e).Every P

/-- A select keeps the names of its columns; its clauses are walked one by one. -/
theorem keeps_clauses {P : Part → Prop} {m : Mapping} {fuel : Nat} {s : Select Expr}
    (parts : ∀ q ∈ (Part.select s).parts, (walker m fuel).Keeps (ofStateOk _ _) (SourceHas P) P q) :
    (ofStateOk State RewriteError).Keeps (SourceHas P)
      (fun s' => s'.columnNames = s.columnNames ∧ ∀ e ∈ s'.exprs, (Part.expr e).Every P) (s.follow m fuel) := by
  have onSource := Outcomes.Keeps.option (o := s.source) fun e he => parts (.expr e) (Select.source_mem he)
  have onFilter := Outcomes.Keeps.option (o := s.filter) fun e he => parts (.expr e) (Select.filter_mem he)
  have onOrders := Outcomes.Keeps.all (l := s.orderBy) fun o ho =>
    (parts (.expr o.expr) (Select.orderBy_mem ho)).bind fun e he =>
      .pure (R := fun o => (Part.expr o.expr).Every P) (a := { o with expr := e }) he
  have onGroups := Outcomes.Keeps.all (l := s.groupBy) fun e he => parts (.expr e) (Select.groupBy_mem he)
  have onSkip := Outcomes.Keeps.option (o := s.skip) fun e he => parts (.expr e) (Select.skip_mem he)
  have onTake := Outcomes.Keeps.option (o := s.take) fun e he => parts (.expr e) (Select.take_mem he)
  have onColumns := Outcomes.Keeps.list (l := s.columns) fun d hd =>
    (parts (.expr d.expr) (Select.columns_mem hd)).bind fun e he =>
      .pure (R := fun d' => d.name = d'.name ∧ (Part.expr d'.expr).Every P) (a := { d with expr := e }) ⟨rfl, he⟩
  rw [Select.follow]
  refine onSource.bind fun source hs => ?_
  refine Outcomes.Keeps.bind (R := fun saved => ∀ e ∈ saved, (Part.expr e).Every P)
    (Outcomes.keepsOk_modifyGet fun _ has => ⟨has, hs⟩) fun saved given => ?_
  refine onFilter.bind fun filter hf => onOrders.bind fun orders ho => onGroups.bind fun groups hg =>
    onSkip.bind fun skip hk => onTake.bind fun take ht => onColumns.bind fun columns hc => ?_
  refine Outcomes.Keeps.bind (R := fun source => ∀ e ∈ source, (Part.expr e).Every P)
    (Outcomes.keepsOk_modifyGet fun _ has => ⟨has, given⟩) fun source hs => .pure ⟨?_, fun e he => ?_⟩
  · exact (eq_of_forall₂ (List.forall₂_map_left_iff.mpr (List.forall₂_map_right_iff.mpr
      (hc.imp fun _ _ h => h.1))) fun _ _ h => h).symm
  · simp only [Select.exprs, List.append_assoc, List.mem_append, List.mem_map, Option.mem_toList] at he
    rcases he with he | he | ⟨o, mem, rfl⟩ | he | he | he | ⟨d, mem, rfl⟩
    exacts [hs e he, hf e he, ho o mem, hg e he, hk e he, ht e he,
      (exists_of_forall₂_right hc d mem).choose_spec.2.2]

theorem keeps_select {m : Mapping} {fuel : Nat} {s : Select Expr} (names : s.columnNames.Nodup)
    (parts : ∀ q ∈ (Part.select s).parts, (walker m fuel).Keeps (ofStateOk _ _) TidySource Part.NamesOnce q) :
    (ofStateOk State RewriteError).Keeps TidySource Select.Tidy (s.follow m fuel) :=
  (keeps_clauses parts).mono fun s' ⟨same, exprs⟩ => .node (show s'.columnNames.Nodup from same ▸ names) fun q hq => by
    obtain ⟨e, he, rfl⟩ := List.mem_map.mp hq
    exact exprs e he

theorem keeps_tidy (m : Mapping) (fuel : Nat) {p : Part} (h : p.Tidy) :
    (walker m fuel).Keeps (ofStateOk _ _) TidySource Part.NamesOnce p := by
  induction fuel using Nat.strongRecOn generalizing p with | ind fuel deeper =>
  refine .of_steps (fun p here parts => ?_) h
  cases p with
  | expr e =>
    change (ofStateOk State RewriteError).Keeps TidySource Expr.Tidy (e.follow m fuel)
    have walked := Walker.Keeps.traverse parts Part.lasting_namesOnce here
    cases e with
    | member target name =>
      rw [Expr.follow]
      refine Outcomes.Keeps.bind (parts (.expr target) (by simp [Part.parts])) fun target tidy => ?_
      split
      · rename_i entity e
        split
        · refine (keeps_follow tidy entity name).bind fun bound hb => ?_
          cases fuel with
          | zero => exact (Outcomes.Keeps.pure hb).bind (keeps_attached _)
          | succ fuel =>
            exact Outcomes.Keeps.bind (deeper fuel (Nat.lt_succ_self fuel) (p := .expr bound) hb)
              (keeps_attached _)
        · exact .pure (Expr.tidy_bindMember name tidy)
      · exact .pure (Expr.tidy_bindMember name tidy)
    | _ =>
      rw [Expr.follow.eq_2 _ _ _ (by simp)]
      exact walked
  | select s => exact keeps_select here parts
  | projection p =>
    change (ofStateOk State RewriteError).Keeps TidySource Projection.Tidy (p.follow m fuel)
    rw [Projection.follow]
    exact Walker.Keeps.traverseProjection parts Part.lasting_namesOnce here

end Associations

theorem Expr.Tidy.followAssociations {e e' : Expr} (h : e.Tidy) {m : Mapping} {supply supply' : Supply}
    (run : (e.followAssociations m).run supply = .ok (e', supply')) : e'.Tidy := by
  have run : e.followAssociations m supply = .ok (e', supply') := run
  unfold Expr.followAssociations at run
  split at run
  · rename_i found
    cases run
    exact (Associations.keeps_tidy m _ h ⟨supply, none⟩ _ _ (by simp [Associations.TidySource]) found).1
  · cases run

namespace Singletons

def TidyOwner (state : State) : Prop := ∀ s ∈ state.owner, s.Tidy

theorem keeps_mint {α : Type} {R : α → Prop} {mint : Mint α}
    (h : (ofState Supply).Keeps (fun _ => True) R mint) :
    (ofState State).Keeps TidyOwner R (liftM mint) := by
  rintro state _ _ owner ⟨⟩
  exact ⟨h.result trivial, owner⟩

theorem keeps_join (affinity : Affinity) {owner : Select Expr} {p : Projection Expr} (ho : owner.Tidy)
    (hp : p.Tidy) :
    (ofState Supply).Keeps (fun _ => True) (fun r => r.1.Tidy ∧ r.2.Tidy) (join affinity owner p) := by
  obtain ⟨select, projector⟩ := Projection.tidy_iff.mp hp
  rw [join]
  refine Outcomes.Keeps.anything.bind fun inner _ => .pure ?_
  have source := Part.Tidy.reread (p := .select p.select) select owner.rel inner
  have joined := Projection.Tidy.withJoinTest (p := ⟨_, p.projector, none⟩)
    (Projection.tidy_iff.mpr ⟨source, projector⟩)
  obtain ⟨joinedSelect, joinedProjector⟩ := Projection.tidy_iff.mp joined
  obtain ⟨shape, columns⟩ := joinedProjector.split affinity (ho.clauses.wrapped inner).columns owner.rel
    [inner, (Projection.withJoinTest ⟨_, p.projector, none⟩).select.rel]
  have renamed : Select.Tidy { owner with rel := inner } := Select.TidyClauses.tidy { ho.clauses with }
  refine ⟨Select.tidy_plain columns ?_ (by simp), shape⟩
  simpa using ⟨renamed, joinedSelect⟩

variable {α : Type} {R : α → Prop}

theorem keeps_unowned {step : Walk α} (h : (ofState State).Keeps TidyOwner R step) :
    (ofState State).Keeps TidyOwner R (unowned step) :=
  Outcomes.Keeps.bind (R := fun saved => ∀ s ∈ saved, Select.Tidy s)
    (Outcomes.keeps_modifyGet fun _ owner => ⟨owner, by simp [TidyOwner]⟩) fun _ saved =>
      h.bind fun _ result => Outcomes.Keeps.bind (Outcomes.keeps_modify fun _ _ => saved) fun _ _ =>
        .pure result

def walker (ctx : Context) (fuel : Nat) (place : Place) : Walker Walk :=
  ⟨Expr.joinSingletons ctx fuel place, Select.joinSingletons ctx fuel place,
    Projection.joinSingletons ctx fuel place⟩

theorem keeps_tidy (ctx : Context) (fuel : Nat) {p : Part} (h : p.Tidy) (place : Place) :
    (walker ctx fuel place).Keeps (ofState State) TidyOwner Part.NamesOnce p := by
  induction fuel using Nat.strongRecOn generalizing p place with | ind fuel deeper =>
  induction h generalizing place with
  | @node p here tidy ih =>
    have parts : ∀ q ∈ p.parts, (walker ctx fuel place).Keeps (ofState State) TidyOwner Part.NamesOnce q :=
      fun q hq => ih q hq place
    cases p with
    | expr e =>
      change (ofState State).Keeps TidyOwner Expr.Tidy (e.joinSingletons ctx fuel place)
      have walked := Walker.Keeps.traverse parts Part.lasting_namesOnce here
      cases e with
      | projection p =>
        have onProjection := parts (.projection p) (by simp [Part.parts])
        rw [Expr.joinSingletons]
        refine (Outcomes.keeps_get fun _ => id).bind fun state owned => ?_
        split
        · exact Outcomes.Keeps.bind onProjection fun p hp => .pure (Expr.tidy_projection.mpr hp)
        · rename_i owner found
          split
          · exact Outcomes.Keeps.bind onProjection fun p hp => .pure (Expr.tidy_projection.mpr hp)
          · have owner := owned owner (Option.filter_eq_some_iff.mp found).1
            refine (keeps_mint (keeps_join ctx.affinity owner (tidy _ (by simp [Part.parts])))).bind ?_
            rintro ⟨owner, projector⟩ ⟨ho, hp⟩
            refine Outcomes.Keeps.bind
              (Outcomes.keeps_modify fun _ _ => by simpa [TidyOwner] using ho) fun _ _ => ?_
            exact deeper _ (Nat.lt_succ_self _) hp place
      | scalar s =>
        rw [Expr.joinSingletons]
        exact .pure (.node here tidy)
      | existsIn s =>
        rw [Expr.joinSingletons]
        exact .pure (.node here tidy)
      | inSelect item s =>
        rw [Expr.joinSingletons]
        exact .pure (.node here tidy)
      | construct typeName fields =>
        have onFields := Outcomes.Keeps.all (l := fields) fun f hf =>
          (ih (.expr f.expr) (Expr.field_mem hf) (some (typeName, f.name))).bind fun e he =>
            .pure (R := fun f => f.expr.Tidy) (a := { f with expr := e }) he
        rw [Expr.joinSingletons]
        exact onFields.bind fun fields hf => .pure (Expr.tidy_construct.mpr hf)
      | clientJoin _ _ _ =>
        rw [Expr.joinSingletons]
        exact keeps_unowned walked
      | command _ =>
        rw [Expr.joinSingletons]
        exact keeps_unowned walked
      | _ =>
        rw [Expr.joinSingletons.eq_8 _ _ _ _ (by simp) (by simp) (by simp) (by simp) (by simp) (by simp) (by simp)]
        exact walked
    | select s =>
      change (ofState State).Keeps TidyOwner Select.Tidy (s.joinSingletons ctx fuel place)
      rw [Select.joinSingletons]
      exact Walker.Keeps.traverseSelect parts Part.lasting_namesOnce here
    | projection p =>
      have select : p.select.Tidy := tidy _ Projection.select_mem
      change (ofState State).Keeps TidyOwner Projection.Tidy (p.joinSingletons ctx fuel place)
      rw [Projection.joinSingletons]
      refine Outcomes.Keeps.bind (R := fun saved => ∀ s ∈ saved, Select.Tidy s)
        (Outcomes.keeps_modifyGet fun _ owner => ⟨owner, by simpa [TidyOwner] using select⟩) fun saved hs => ?_
      refine Outcomes.Keeps.bind (parts (.expr p.projector) Projection.projector_mem) fun projector hp => ?_
      refine Outcomes.Keeps.bind (R := Select.Tidy)
        (Outcomes.keeps_modifyGet fun state owner => ⟨?_, hs⟩) fun select ho =>
          .pure (Projection.tidy_iff.mpr ⟨ho, hp⟩)
      cases grown : state.owner with
      | none => exact select
      | some s => exact owner s grown

end Singletons

theorem Expr.Tidy.withSingletonsJoined {e : Expr} (h : e.Tidy) (ctx : Context) (supply : Supply) :
    ((e.withSingletonsJoined ctx).run supply).1.Tidy :=
  Outcomes.Keeps.result (Singletons.keeps_tidy ctx _ h none) (s := ⟨supply, none⟩)
    (by simp [Singletons.TidyOwner])

end ObjectQuery
