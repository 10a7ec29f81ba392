import ObjectQuery.Proofs.EqualColumns
import ObjectQuery.Proofs.Scoping
import ObjectQuery.Rewrite.RepeatedJoins

/-!
Joining the same thing twice. On the left of a join stands a tree of joins, and one of these may have the
same right side on the same condition. Every frame that comes out of the tree then holds a row that this
join met, or nothing where it met none; the join above meets the same rows again.
-/

namespace ObjectQuery

open Eval

variable {tables : Tables} {σ : Scope}

namespace Eval

def met (tables : Tables) (kind : JoinKind) (right : Expr) (on : Option Expr) (env : Scope) (frame : Frame) :
    Result (List Frame) := do
  let rights ← source tables right (if kind.isApply then env.extend frame else env)
  rights.filterM fun other => meets tables on ((env.extend frame).extend other)

def beside (kind : JoinKind) (right : Expr) (frame : Frame) (others : List Frame) : List Frame :=
  if others.isEmpty && (kind == .leftOuter || kind == .outerApply) then [frame ++ nullFrame (some right)]
  else others.map (frame ++ ·)

/-- The frames of a join are those of its left side beside what these meet. -/
theorem met_of_source {kind : JoinKind} {left right : Expr} {on : Option Expr} {frames : List Frame}
    (h : source tables (.join kind left right on) σ = .ok frames) :
    ∃ lefts outs, source tables left σ = .ok lefts ∧ frames = outs.flatten
      ∧ List.Forall₂ (fun f out => ∃ others, met tables kind right on σ f = .ok others
        ∧ out = beside kind right f others) lefts outs := by
  have finish : ∀ {f : Frame} {rights out : List Frame},
      source tables right (if kind.isApply then σ.extend f else σ) = .ok rights →
      joinFrame tables kind right on σ f rights = .ok out →
      ∃ others, met tables kind right on σ f = .ok others ∧ out = beside kind right f others := by
    intro f rights out hr hout
    obtain ⟨others, met, hout⟩ := bind_eq_ok.mp hout
    refine ⟨others, bind_eq_ok.mpr ⟨rights, hr, met⟩, ?_⟩
    rw [beside]
    split at hout <;> rename_i test <;> cases hout
    · rw [if_pos test]
    · rw [if_neg test]
  cases apply : kind.isApply with
  | true =>
    rw [source_apply apply] at h
    obtain ⟨lefts, hl, h⟩ := bind_eq_ok.mp h
    obtain ⟨outs, ho, h⟩ := bind_eq_ok.mp h
    cases h
    refine ⟨lefts, outs, hl, rfl, (forall₂_of_mapM ho).imp fun f out run => ?_⟩
    obtain ⟨rights, hr, hout⟩ := bind_eq_ok.mp run
    exact finish (by rwa [apply]) hout
  | false =>
    rw [source_join apply] at h
    obtain ⟨lefts, hl, h⟩ := bind_eq_ok.mp h
    obtain ⟨rights, hr, h⟩ := bind_eq_ok.mp h
    obtain ⟨outs, ho, h⟩ := bind_eq_ok.mp h
    cases h
    refine ⟨lefts, outs, hl, rfl, (forall₂_of_mapM ho).imp fun f out hout => ?_⟩
    exact finish (by rwa [apply]) hout

end Eval

inductive Expr.Spine (kind : JoinKind) (left right : Expr) (on : Option Expr) : Expr → Prop
  | here : Spine kind left right on (.join kind left right on)
  | under {k : JoinKind} {l r : Expr} {c : Option Expr} : Spine kind left right on l →
    Spine kind left right on (.join k l r c)

def Part.LeftDeep : Part → Prop
  | .expr (.join _ _ (.join _ _ _ _) _) => False
  | _ => True

namespace Expr.Spine

variable {kind : JoinKind} {left right tree : Expr} {on : Option Expr}

/-- What holds of a whole tree of joins holds of a join in it. -/
theorem every {P : Part → Prop} (spine : Spine kind left right on tree) (h : (Part.expr tree).Every P) :
    (Part.expr (.join kind left right on)).Every P := by
  induction spine with
  | here => exact h
  | under _ ih => exact ih (h.part (by simp [Part.parts]))

theorem inScope {visible : List Alias} (spine : Spine kind left right on tree)
    (h : (Part.expr tree).InScope visible) : (Part.expr (.join kind left right on)).InScope visible := by
  induction spine with
  | here => exact h
  | under _ ih => exact ih ((Part.inScope_iff.mp h).2 (visible, .expr _) (by simp [Part.views]))

theorem declared (spine : Spine kind left right on tree) :
    (Part.expr (.join kind left right on)).declared.Sublist (Part.expr tree).declared := by
  induction spine with
  | here => exact List.Sublist.refl _
  | under _ ih => exact ih.trans (Part.declared_sublist (by simp [Part.parts]))

/-- What the tree shows is what the join shows, and then what is joined to that. -/
theorem declares (spine : Spine kind left right on tree) :
    ∃ rest, tree.declares = left.declares ++ (right.declares ++ rest) := by
  induction spine with
  | here => exact ⟨[], by simp [Expr.declares]⟩
  | @under k l r c _ ih =>
    obtain ⟨rest, h⟩ := ih
    exact ⟨rest ++ r.declares, by rw [Expr.declares, h]; simp⟩

/-- A frame of the tree begins with a frame of the join: a frame of its left side with one that it met, or
with nothing where it met none. -/
theorem frames (spine : Spine kind left right on tree) {fs : List Frame}
    (h : source tables tree σ = .ok fs) : ∀ f ∈ fs, ∃ first second rest others, f = first ++ (second ++ rest)
      ∧ first.map (·.1) = left.declares ∧ met tables kind right on σ first = .ok others
      ∧ first ++ second ∈ beside kind right first others := by
  induction spine generalizing fs with
  | here =>
    intro f hf
    obtain ⟨lefts, outs, hl, rfl, made⟩ := met_of_source h
    obtain ⟨out, hout, hf⟩ := List.mem_flatten.mp hf
    obtain ⟨first, hfirst, others, hmet, rfl⟩ := exists_of_forall₂_right made out hout
    have begins : ∃ second, f = first ++ second := by
      rw [beside] at hf
      split at hf
      · exact ⟨_, List.mem_singleton.mp hf⟩
      · obtain ⟨g, -, rfl⟩ := List.mem_map.mp hf
        exact ⟨g, rfl⟩
    obtain ⟨second, rfl⟩ := begins
    exact ⟨first, second, [], others, by simp, aliases_of_source left hl first hfirst, hmet, hf⟩
  | @under k l r c _ ih =>
    intro f hf
    obtain ⟨lefts, outs, hl, rfl, made⟩ := met_of_source h
    obtain ⟨out, hout, hf⟩ := List.mem_flatten.mp hf
    obtain ⟨f', hf', others', -, rfl⟩ := exists_of_forall₂_right made out hout
    obtain ⟨first, second, rest, others, rfl, names, hmet, hsecond⟩ := ih hl f' hf'
    have begins : ∃ more, f = (first ++ (second ++ rest)) ++ more := by
      rw [beside] at hf
      split at hf
      · exact ⟨_, List.mem_singleton.mp hf⟩
      · obtain ⟨g, -, rfl⟩ := List.mem_map.mp hf
        exact ⟨g, rfl⟩
    obtain ⟨more, rfl⟩ := begins
    exact ⟨first, second, rest ++ more, others, by simp, names, hmet, hsecond⟩

end Expr.Spine

namespace RepeatedJoins

variable {kind : JoinKind} {right r : Expr} {on : Option Expr}

/-- The join that was found stands on the left side. -/
theorem find?_spec : (tree : Expr) → (Part.expr tree).Every Part.LeftDeep →
    find? kind right on tree = some r → ∃ l c, Expr.Spine kind l r c tree ∧ r.alike right = true
      ∧ sameCondition r right c on = true
  | .join k l r' c, deep, h => by
    rw [find?] at h
    split at h
    · rename_i test
      cases h
      simp only [Bool.and_eq_true, beq_iff_eq] at test
      obtain ⟨⟨rfl, alike⟩, same⟩ := test
      exact ⟨l, c, .here, alike, same⟩
    · have noJoin : find? kind right on r' = none := by
        cases r' with
        | join _ _ _ _ => exact deep.here.elim
        | _ => rfl
      rw [noJoin, Option.or_none] at h
      obtain ⟨l', c', spine, found⟩ := find?_spec l (deep.part (by simp [Part.parts])) h
      exact ⟨l', c', .under spine, found⟩
  | .table _, _, h | .select _, _, h | .setOp _ _ _ _, _, h
  | .const _, _, h | .param _, _, h | .member _ _, _, h
  | .binary _ _ _, _, h | .unary _ _, _, h | .cond _ _ _, _, h
  | .call _ _, _, h | .construct _ _, _, h | .lambda _, _, h
  | .operator _, _, h | .column _, _, h | .aggregate _ _ _, _, h
  | .groupAggregate _ _ _ _, _, h | .scalar _, _, h | .existsIn _, _, h
  | .inSelect _ _, _, h | .inValues _ _, _, h | .isNull _, _, h
  | .between _ _ _, _, h | .rowNumber _, _, h | .projection _, _, h
  | .clientJoin _ _ _, _, h | .entity _ _, _, h | .outerJoined _ _, _, h
  | .grouping _ _, _, h | .command _, _, h => by cases h

/-- A side that has an alias shows this alias and no other. -/
theorem declares_of_sourceAlias? {e : Expr} {a : Alias} (h : sourceAlias? e = some a) : e.declares = [a] := by
  cases e <;> cases h <;> rfl

end RepeatedJoins

/-- What a part refers to is in sight, or declared by one of its parts. -/
theorem Part.InScope.references {p : Part} {visible : List Alias} (sees : p.InScope visible)
    (groupless : p.Every Part.Groupless) :
    ∀ a ∈ p.references, a ∈ visible ∨ a ∈ p.parts.flatMap Part.declared := by
  induction sees with
  | @node visible p column _ ih =>
    intro a ha
    rw [Part.references_eq, List.mem_append] at ha
    rcases ha with own | ha
    · have here := groupless.here
      unfold Part.reads at own
      split at own
      · obtain rfl := List.mem_singleton.mp own
        exact .inl (column _ rfl)
      · exact here.elim
      · cases own
    · obtain ⟨q, hq, ha⟩ := List.mem_flatMap.mp ha
      obtain ⟨v, hv, rfl⟩ := List.mem_map.mp ((Part.views_perm visible p).mem_iff.mpr hq)
      have declared : ∀ q ∈ p.parts, a ∈ q.declared → a ∈ p.parts.flatMap Part.declared := fun q hq h =>
        List.mem_flatMap.mpr ⟨q, hq, h⟩
      rcases ih v hv (groupless.part hq) a ha with seen | inside
      · obtain here | ⟨q, hq, h⟩ := Part.mem_of_seen hv seen
        · exact .inl here
        · exact .inr (declared q hq h)
      · refine .inr (declared v.2 hq ?_)
        rw [Part.declared_eq]
        exact List.mem_append_right _ inside

def Lockstep.reading (A : Alias → Alias → Prop) (unique : Relator.BiUnique A) : Lockstep :=
  { exchanging A unique with
    rows := fun r r' => ∀ a b, A a b → r.lookup a = r'.lookup b
    extend := fun hf h a b hab => by
      rw [List.lookup_append, List.lookup_append, h a b hab,
        lookup_exchanged unique (List.rel_reverse hf) hab]
    lookup := fun h hab => h _ _ hab }

def Partners.With (F : Partners) (own : List Alias) (a b : Alias) : Prop := (a, b) ∈ F ∨ a = b ∧ a ∈ own

theorem Partners.with_unique (F : Partners) (own : List Alias) {ds ds' : List Alias} (nodup : ds.Nodup)
    (nodup' : ds'.Nodup) (left : (F.map (·.1)).Subperm ds) (right : (F.map (·.2)).Subperm ds')
    (apart : ∀ a ∈ own, a ∉ ds ∧ a ∉ ds') : Relator.BiUnique (F.With own) := by
  have exchange := exchange_unique nodup nodup' left right
  have sub : ∀ a b, F.With own a b → F.Exchange (ds ++ ds') a b := by
    rintro a b (mem | ⟨rfl, ha⟩)
    · exact .inl mem
    · refine .inr ⟨rfl, fun h => ?_⟩
      exact (List.mem_append.mp h).elim (apart a ha).1 (apart a ha).2
  exact ⟨fun _ _ _ h h' => exchange.1 (sub _ _ h) (sub _ _ h'),
    fun _ _ _ h h' => exchange.2 (sub _ _ h) (sub _ _ h')⟩

/-- What two parts have in common that are the same under partners: aliases that both of them see. -/
theorem Part.Compared.with {P F : Partners} {p p' : Part} {own : List Alias} (compared : p.Compared P F p')
    (shared : ∀ a ∈ p.references, a ∈ p'.references → a ∈ own) :
    p.Paired (F.With own) (F.With own) Expr.ValuelessBoth p' := by
  refine (compared.paired F fun _ h => h).mono (fun _ _ _ _ h => .inl h) ?_
  rintro a ha b hb (mem | rfl)
  · exact .inl mem
  · exact .inr ⟨rfl, shared a ha hb⟩

theorem Part.declared_join (kind : JoinKind) (left right : Expr) (on : Option Expr) :
    (Part.expr (.join kind left right on)).declared
      = (Part.expr left).declared
        ++ ((Part.expr right).declared ++ (on.toList.map expr).flatMap declared) := by
  rw [Part.declared_eq]
  rfl

/-- The aliases that a source shows are declared in it, in order. -/
theorem Part.declares_sublist_declared : (e : Expr) → e.declares.Sublist (Part.expr e).declared
  | .join kind left right on => by
    rw [Expr.declares, declared_join]
    exact (declares_sublist_declared left).append
      ((declares_sublist_declared right).trans (List.sublist_append_left _ _))
  | .table t => by
    rw [Part.declared_eq]
    exact List.sublist_append_left _ _
  | .setOp _ _ _ _ => by
    rw [Part.declared_eq]
    exact List.sublist_append_left _ _
  | .select s => by
    have own : [s.rel].Sublist (Part.select s).declared := by
      rw [Part.declared_eq]
      exact List.sublist_append_left _ _
    exact own.trans (declared_sublist (by simp [parts]))
  | .const _ | .param _ | .member _ _ | .binary _ _ _ | .unary _ _ | .cond _ _ _
  | .call _ _ | .construct _ _ | .lambda _ | .operator _ | .column _ | .aggregate _ _ _
  | .groupAggregate _ _ _ _ | .scalar _ | .existsIn _ | .inSelect _ _ | .inValues _ _ | .isNull _
  | .between _ _ _ | .rowNumber _ | .projection _ | .clientJoin _ _ _ | .entity _ _ | .outerJoined _ _
  | .grouping _ _ | .command _ => List.nil_sublist _

/-- Of what the right side and the condition of a join declare, the tree shows what the right side shows. -/
theorem Expr.Spine.shown {kind : JoinKind} {left right tree : Expr} {on : Option Expr}
    (spine : Spine kind left right on tree) (nodup : (Part.expr tree).declared.Nodup) {x : Alias}
    (inside : x ∈ (Part.expr right).declared ∨ ∃ e ∈ on, x ∈ (Part.expr e).declared)
    (hx : x ∈ tree.declares) :
    x ∈ right.declares := by
  induction spine with
  | here =>
    rw [Part.declared_join] at nodup
    rcases List.mem_append.mp hx with first | second
    · have later : x ∈ (Part.expr right).declared ++ (on.toList.map Part.expr).flatMap Part.declared := by
        refine List.mem_append.mpr (inside.imp id ?_)
        rintro ⟨e, he, h⟩
        simpa [Option.mem_def.mp he] using h
      exact absurd rfl ((List.nodup_append.mp nodup).2.2 x (Part.declares_subset_declared left first) x later)
    · exact second
  | @under k l r c spine ih =>
    have below : x ∈ (Part.expr l).declared := by
      refine spine.declared.subset ?_
      rcases inside with h | ⟨e, he, h⟩
      · exact Part.declared_subset (by simp [Part.parts]) h
      · exact Part.declared_subset (by simp [Part.parts, Option.mem_def.mp he]) h
    rw [Part.declared_join] at nodup
    obtain ⟨first, -, disjoint⟩ := List.nodup_append.mp nodup
    refine ih first ((List.mem_append.mp hx).resolve_right fun h => ?_)
    exact disjoint x below x (List.mem_append_left _ (Part.declares_subset_declared r h)) rfl

/-- What a side refers to is in sight of it, or declared below its own alias. -/
theorem RepeatedJoins.references_of_sourceAlias? {e : Expr} {a : Alias} (h : sourceAlias? e = some a)
    {visible : List Alias} (sees : (Part.expr e).InScope visible)
    (groupless : (Part.expr e).Every Part.Groupless) (nodup : (Part.expr e).declared.Nodup) :
    ∀ x ∈ (Part.expr e).references, x ∈ visible ∨ x ∈ (Part.expr e).declared ∧ x ≠ a := by
  intro x hx
  cases e with
  | table t => exact (sees.references groupless x hx).imp id fun h => by simp [Part.parts] at h
  | select s =>
    cases h
    have part : Part.select s ∈ (Part.expr (.select s)).parts := by simp [Part.parts]
    have sees' := (Part.inScope_iff.mp sees).2 (visible, .select s) (by simp [Part.views, Part.parts])
    have inner : x ∈ (Part.select s).references := by
      rw [Part.references_eq] at hx
      simpa [Part.reads, Part.parts] using hx
    refine (sees'.references (groupless.part part) x inner).imp id fun h => ?_
    have nodup' := nodup.sublist (Part.declared_sublist part)
    rw [Part.declared_eq] at nodup'
    refine ⟨Part.declared_subset part ?_, ?_⟩
    · rw [Part.declared_eq]
      exact List.mem_append_right _ h
    · rintro rfl
      exact (List.nodup_append.mp nodup').2.2 s.rel (List.mem_singleton_self _) s.rel h rfl
  | setOp rel kind s t =>
    cases h
    refine (sees.references groupless x hx).imp id fun h => ?_
    rw [Part.declared_eq] at nodup ⊢
    refine ⟨List.mem_append_right _ h, ?_⟩
    rintro rfl
    exact (List.nodup_append.mp nodup).2.2 x (List.mem_singleton_self _) x h rfl
  | _ => cases h

namespace Scope

variable {V : List Alias} {f : Frame} {x : Alias}

/-- What is bound neither around nor in the frame is not in sight. -/
theorem lookup_extend_none (binds : ∀ y, σ.Binds y → y ∈ V) (hV : x ∉ V) (hf : x ∉ f.map (·.1)) :
    (σ.extend f).rows.lookup x = none := by
  rw [List.lookup_eq_none_iff]
  intro entry hentry
  refine bne_iff_ne.mpr ?_
  rintro rfl
  rcases List.mem_append.mp hentry with inside | around
  · exact hf (List.mem_map_of_mem (List.mem_reverse.mp inside))
  · exact hV (binds _ (.inl (List.mem_map_of_mem around)))

/-- What comes later in a frame does not hide what comes first. -/
theorem lookup_extend_append {g : Frame} (hg : x ∉ g.map (·.1)) :
    (σ.extend (f ++ g)).rows.lookup x = (σ.extend f).rows.lookup x := by
  have missing : g.reverse.lookup x = none := by
    refine List.lookup_eq_none_iff.mpr fun entry hentry => bne_iff_ne.mpr ?_
    rintro rfl
    exact hg (List.mem_map_of_mem (List.mem_reverse.mp hentry))
  simp only [Scope.extend, List.reverse_append, List.append_assoc]
  rw [List.lookup_append, missing, Option.none_or]

end Scope

namespace RepeatedJoins

structure Repeats (kind : JoinKind) (tree right : Expr) (on : Option Expr) (l r : Expr) (c : Option Expr)
    (V : List Alias) (a b : Alias) : Prop where
  spine : Expr.Spine kind l r c tree
  kept : sourceAlias? r = some b
  dropped : sourceAlias? right = some a
  alike : r.alike right = true
  same : sameCondition r right c on = true
  fresh : (Part.expr (.join kind tree right on)).Fresh V
  sees : (Part.expr (.join kind tree right on)).InScope V
  groupless : (Part.expr (.join kind tree right on)).Every Part.Groupless
  floatless : (Part.expr tree).Every Part.Floatless
  unread : ∀ e ∈ on, b ∉ (Part.expr e).references

namespace Repeats

variable {kind : JoinKind} {tree right l r : Expr} {on c : Option Expr} {V : List Alias} {a b : Alias}
  (repeats : Repeats kind tree right on l r c V a b)
include repeats

/-- What the tree declares, what the right side declares and what the condition declares are apart. -/
theorem apart : ((Part.expr tree).declared.Nodup ∧ (Part.expr right).declared.Nodup)
    ∧ (∀ x ∈ (Part.expr tree).declared, x ∉ (Part.expr right).declared)
    ∧ (∀ e ∈ on, (Part.expr e).declared.Nodup ∧ (∀ x ∈ (Part.expr e).declared, x ∉ (Part.expr tree).declared
      ∧ x ∉ (Part.expr right).declared ∧ x ∉ V))
    ∧ ∀ x ∈ V, x ∉ (Part.expr tree).declared ∧ x ∉ (Part.expr right).declared := by
  have nodup := repeats.fresh.nodup
  have around := repeats.fresh.apart
  rw [Part.declared_join] at nodup around
  obtain ⟨first, second, disjoint⟩ := List.nodup_append.mp nodup
  obtain ⟨second, third, disjoint'⟩ := List.nodup_append.mp second
  have left : ∀ x ∈ (Part.expr tree).declared, x ∉ (Part.expr right).declared := fun x hx hr =>
    disjoint x hx x (List.mem_append_left _ hr) rfl
  refine ⟨⟨first, second⟩, left, fun e he => ?_, fun x hx => ?_⟩
  · obtain rfl := Option.mem_def.mp he
    have inside : ∀ x ∈ (Part.expr e).declared,
        x ∈ ((some e).toList.map Part.expr).flatMap Part.declared := by simp
    refine ⟨by simpa using third, fun x hx => ⟨fun h => ?_, fun h => ?_, fun h => ?_⟩⟩
    · exact disjoint x h x (List.mem_append_right _ (inside x hx)) rfl
    · exact disjoint' x h x (inside x hx) rfl
    · exact around x h (List.mem_append_right _ (List.mem_append_right _ (inside x hx)))
  · exact ⟨fun h => around x hx (List.mem_append_left _ h),
      fun h => around x hx (List.mem_append_right _ (List.mem_append_left _ h))⟩

theorem kept_declared : b ∈ (Part.expr r).declared :=
  Part.declares_subset_declared r (by
    rw [declares_of_sourceAlias? repeats.kept]
    exact List.mem_singleton_self b)

theorem dropped_declared : a ∈ (Part.expr right).declared :=
  Part.declares_subset_declared right (by
    rw [declares_of_sourceAlias? repeats.dropped]
    exact List.mem_singleton_self a)

theorem declared_side : (Part.expr r).declared.Sublist (Part.expr tree).declared :=
  (Part.declared_sublist (by simp [Part.parts])).trans repeats.spine.declared

theorem declared_condition {e : Expr} (he : e ∈ c) :
    (Part.expr e).declared.Sublist (Part.expr tree).declared :=
  (Part.declared_sublist (by simp [Part.parts, Option.mem_def.mp he])).trans repeats.spine.declared

/-- The condition of the repeated join does not declare its right side. -/
theorem kept_later {e : Expr} (he : e ∈ c) : b ∉ (Part.expr e).declared := fun h => by
  have within := repeats.apart.1.1.sublist repeats.spine.declared
  rw [Part.declared_join] at within
  refine (List.nodup_append.mp (List.nodup_append.mp within).2.1).2.2 b repeats.kept_declared b ?_ rfl
  simpa [Option.mem_def.mp he] using h

/-- What the tree shows: the left side of the repeated join, its right side, and the rest. -/
theorem shows : ∃ rest, tree.declares = l.declares ++ (b :: rest) ∧ tree.declares.Nodup
    ∧ ∀ x ∈ tree.declares, x ∈ (Part.expr tree).declared := by
  obtain ⟨rest, h⟩ := repeats.spine.declares
  rw [declares_of_sourceAlias? repeats.kept] at h
  have sub := Part.declares_sublist_declared tree
  exact ⟨rest, h, repeats.apart.1.1.sublist sub, fun x hx => sub.subset hx⟩

/-- The aliases that the repeated join sees on its left side and all around. -/
theorem own_apart : ∀ x ∈ l.declares ++ V, x ∉ (Part.expr r).declared ∧ x ∉ (Part.expr right).declared
    ∧ x ≠ b ∧ (∀ e ∈ c, x ∉ (Part.expr e).declared) ∧ ∀ e ∈ on, x ∉ (Part.expr e).declared := by
  obtain ⟨⟨nodup, -⟩, disjoint, condition, around⟩ := repeats.apart
  have inner := repeats.spine.declared
  have nodup' := nodup.sublist inner
  rw [Part.declared_join] at nodup'
  obtain ⟨-, -, disjoint'⟩ := List.nodup_append.mp nodup'
  intro x hx
  rcases List.mem_append.mp hx with left | out
  · have declared : x ∈ (Part.expr l).declared := Part.declares_subset_declared l left
    have whole : x ∈ (Part.expr tree).declared := inner.subset (by
      rw [Part.declared_join]
      exact List.mem_append_left _ declared)
    have later : ∀ y, y ∈ (Part.expr r).declared ++ (c.toList.map Part.expr).flatMap Part.declared → x ≠ y :=
      fun y hy => disjoint' x declared y hy
    refine ⟨fun h => later x (List.mem_append_left _ h) rfl, disjoint x whole,
      later b (List.mem_append_left _ repeats.kept_declared), fun e he h => ?_,
      fun e he h => ((condition e he).2 x h).1 whole⟩
    obtain rfl := Option.mem_def.mp he
    exact later x (List.mem_append_right _ (by simpa using h)) rfl
  · have outside := around x out
    refine ⟨fun h => outside.1 (repeats.declared_side.subset h), outside.2, ?_,
      fun e he h => outside.1 ((repeats.declared_condition he).subset h),
      fun e he h => ((condition e he).2 x h).2.2 out⟩
    rintro rfl
    exact outside.1 (repeats.declared_side.subset repeats.kept_declared)

/-- What the two sides both refer to is seen by the repeated join. -/
theorem shared_side : ∀ x ∈ (Part.expr r).references, x ∈ (Part.expr right).references →
    x ∈ l.declares ++ V := by
  obtain ⟨⟨nodup, nodup'⟩, disjoint, -, around⟩ := repeats.apart
  have within := repeats.spine.inScope ((Part.inScope_iff.mp repeats.sees).2 (V, .expr tree)
    (by simp [Part.views]))
  have sees := (Part.inScope_iff.mp within).2 (if kind.isApply then l.declares ++ V else V, .expr r)
    (by simp [Part.views])
  have sees' := (Part.inScope_iff.mp repeats.sees).2 (if kind.isApply then tree.declares ++ V else V,
    .expr right) (by simp [Part.views])
  have groupless := repeats.spine.every (repeats.groupless.part (by simp [Part.parts]))
  have declared := repeats.declared_side
  intro x hx hx'
  have first := references_of_sourceAlias? repeats.kept sees (groupless.part (by simp [Part.parts]))
    (nodup.sublist declared) x hx
  have second := references_of_sourceAlias? repeats.dropped sees'
    (repeats.groupless.part (by simp [Part.parts])) nodup' x hx'
  rcases first with seen | ⟨inside, other⟩
  · split at seen
    · exact seen
    · exact List.mem_append_right _ seen
  · have whole := declared.subset inside
    have notShown : x ∉ tree.declares := fun shown => other (by
      have own := repeats.spine.shown nodup (.inl inside) shown
      rwa [declares_of_sourceAlias? repeats.kept, List.mem_singleton] at own)
    rcases second with seen | ⟨inside', -⟩
    · split at seen
      · exact (List.mem_append.mp seen).elim (absurd · notShown) fun h => absurd whole (around x h).1
      · exact absurd whole (around x seen).1
    · exact absurd inside' (disjoint x whole)

/-- What the two conditions both refer to is seen by the repeated join on its left side and around. -/
theorem shared_condition {e e' : Expr} (he : e ∈ c) (he' : e' ∈ on) :
    ∀ x ∈ (Part.expr e).references, x ∈ (Part.expr e').references → x ∈ l.declares ++ V := by
  obtain ⟨⟨nodup, -⟩, -, condition, around⟩ := repeats.apart
  have within := repeats.spine.inScope ((Part.inScope_iff.mp repeats.sees).2 (V, .expr tree)
    (by simp [Part.views]))
  have sees := (Part.inScope_iff.mp within).2 (l.declares ++ r.declares ++ V, .expr e)
    (by simp [Part.views, Option.mem_def.mp he])
  have sees' := (Part.inScope_iff.mp repeats.sees).2 (tree.declares ++ right.declares ++ V, .expr e')
    (by simp [Part.views, Option.mem_def.mp he'])
  have groupless := repeats.spine.every (repeats.groupless.part (by simp [Part.parts]))
  have declared := repeats.declared_condition he
  have below : ∀ {p : Part} {x : Alias}, x ∈ p.parts.flatMap Part.declared → x ∈ p.declared := fun h => by
    rw [Part.declared_eq]
    exact List.mem_append_right _ h
  intro x hx hx'
  have first := sees.references (groupless.part (by simp [Part.parts, Option.mem_def.mp he])) x hx
  have second := sees'.references (repeats.groupless.part (by simp [Part.parts, Option.mem_def.mp he'])) x hx'
  rw [declares_of_sourceAlias? repeats.kept] at first
  rw [declares_of_sourceAlias? repeats.dropped] at second
  simp only [List.mem_append, List.mem_singleton] at first second ⊢
  rcases first with ((seen | rfl) | seen) | inside
  · exact .inl seen
  · exact absurd hx' (repeats.unread e' he')
  · exact .inr seen
  · have whole := declared.subset (below inside)
    rcases second with ((shown | rfl) | seen) | inside'
    · have own := repeats.spine.shown nodup (.inr ⟨e, he, below inside⟩) shown
      rw [declares_of_sourceAlias? repeats.kept, List.mem_singleton] at own
      exact absurd (own ▸ hx') (repeats.unread e' he')
    · exact absurd repeats.dropped_declared (repeats.apart.2.1 x whole)
    · exact absurd whole (around x seen).1
    · exact absurd whole ((condition e' he').2 x (below inside')).1

/-- The conditions are the same under partners: the two sides, and what the conditions declare. -/
theorem conditions_paired {e e' : Expr} (he : e ∈ c) (he' : e' ∈ on) : ∃ F : Partners,
    Relator.BiUnique (F.With (l.declares ++ V))
      ∧ (Part.expr e).Paired (F.With (l.declares ++ V)) (F.With (l.declares ++ V)) Expr.ValuelessBoth
        (.expr e')
      ∧ ∀ x y, (x, y) ∈ F → x = b ∧ y = a ∨ x ∈ (Part.expr e).declared ∧ y ∈ (Part.expr e').declared := by
  obtain ⟨⟨nodup, -⟩, -, condition, -⟩ := repeats.apart
  have declared := repeats.declared_condition he
  have floatless := (repeats.spine.every repeats.floatless).part (q := .expr e)
    (by simp [Part.parts, Option.mem_def.mp he])
  have shared := repeats.shared_condition he he'
  have same := repeats.same
  rw [Option.mem_def.mp he, Option.mem_def.mp he', sameCondition, repeats.kept, repeats.dropped] at same
  rcases Bool.or_eq_true_iff.mp same with equal | alike
  · have equal : (Part.expr e).same (.expr e') = true := equal
    refine ⟨[], Partners.with_unique [] _ List.nodup_nil List.nodup_nil (.refl _) (.refl _) (by simp), ?_,
      by simp⟩
    refine (Part.paired_of_same floatless equal).mono ?_ ?_
    · rintro x hx _ hx' rfl
      exact absurd (declared.subset hx) ((condition e' he').2 x hx').1
    · rintro x hx _ hx' rfl
      exact .inr ⟨rfl, shared x hx hx'⟩
  · obtain ⟨F, found⟩ := Option.isSome_iff_exists.mp alike
    have compared : (Part.expr e).Compared [(b, a)] F (.expr e') := compared_of_match? floatless found
    obtain ⟨added, rfl, inLeft, inRight⟩ := compared.grown
    have nodup₁ : ((Part.expr e).declared ++ [b]).Nodup :=
      List.nodup_append.mpr ⟨nodup.sublist declared, List.nodup_singleton b, fun x hx y hy same =>
        repeats.kept_later he (List.mem_singleton.mp hy ▸ same ▸ hx)⟩
    have nodup₂ : ((Part.expr e').declared ++ [a]).Nodup :=
      List.nodup_append.mpr ⟨(condition e' he').1, List.nodup_singleton a, fun x hx y hy same =>
        ((condition e' he').2 x hx).2.1 (same ▸ List.mem_singleton.mp hy ▸ repeats.dropped_declared)⟩
    have left : ((added ++ [(b, a)]).map (·.1)).Subperm ((Part.expr e).declared ++ [b]) := by
      simpa using inLeft.append (List.Subperm.refl [b])
    have right : ((added ++ [(b, a)]).map (·.2)).Subperm ((Part.expr e').declared ++ [a]) := by
      simpa using inRight.append (List.Subperm.refl [a])
    refine ⟨_, Partners.with_unique _ _ nodup₁ nodup₂ left right fun x hx => ?_, compared.with shared,
      fun x y hxy => ?_⟩
    · obtain ⟨-, hright, hb, hc, hon⟩ := repeats.own_apart x hx
      refine ⟨fun h => ?_, fun h => ?_⟩
      · exact (List.mem_append.mp h).elim (hc e he) fun h => hb (List.mem_singleton.mp h)
      · exact (List.mem_append.mp h).elim (hon e' he') fun h =>
          hright (List.mem_singleton.mp h ▸ repeats.dropped_declared)
    · rcases List.mem_append.mp hxy with new | given
      · exact .inr ⟨inLeft.subset (List.mem_map_of_mem new), inRight.subset (List.mem_map_of_mem new)⟩
      · exact .inl (Prod.mk.inj (List.mem_singleton.mp given))

section Frames

variable (binds : ∀ y, σ.Binds y → y ∈ V) {first more : Frame} (left : first.map (·.1) = l.declares)
  (whole : (first ++ more).map (·.1) = tree.declares)
include binds left whole

omit binds in
/-- The rest of a frame hides nothing that the repeated join sees on its left side and around. -/
theorem own_kept : ∀ x ∈ l.declares ++ V,
    (σ.extend (first ++ more)).rows.lookup x = (σ.extend first).rows.lookup x := by
  obtain ⟨rest, shown, nodup, declared⟩ := repeats.shows
  have names : more.map (·.1) = b :: rest := by
    rw [List.map_append, left, shown] at whole
    exact List.append_cancel_left whole
  rw [shown] at nodup declared
  intro x hx
  refine Scope.lookup_extend_append fun later => ?_
  rw [names] at later
  rcases List.mem_append.mp hx with inside | out
  · exact (List.nodup_append.mp nodup).2.2 x inside x later rfl
  · exact (repeats.apart.2.2.2 x out).1 (declared x (List.mem_append_right _ later))

/-- The right sides have the same rows. -/
theorem sides_follow : Follows (List.Forall₂ fun g g' => ∃ row, g = [(b, row)] ∧ g' = [(a, row)])
    (source tables r (if kind.isApply then σ.extend first else σ))
    (source tables right (if kind.isApply then σ.extend (first ++ more) else σ)) := by
  obtain ⟨⟨nodup, nodup'⟩, disjoint, -, around⟩ := repeats.apart
  have declared := repeats.declared_side
  have floatless := (repeats.spine.every repeats.floatless).part (q := .expr r) (by simp [Part.parts])
  obtain ⟨F, found⟩ := Option.isSome_iff_exists.mp repeats.alike
  have compared : (Part.expr r).Compared [] F (.expr right) := compared_of_match? floatless found
  obtain ⟨added, hF, inLeft, inRight⟩ := compared.grown
  obtain rfl : added = F := by rw [hF, List.append_nil]
  have unique := Partners.with_unique _ _ (nodup.sublist declared) nodup' inLeft inRight fun x hx =>
    ⟨(repeats.own_apart x hx).1, (repeats.own_apart x hx).2.1⟩
  let M := Lockstep.reading (added.With (l.declares ++ V)) unique
  have pairs : M.Pairs tables r right :=
    (Lockstep.matches_of_paired (M := M) (compared.with repeats.shared_side) fun _ _ h => h).of_expr
  -- Partners are in sight on neither side.
  have partners : ∀ x y, (x, y) ∈ added → (x ∉ V ∧ x ∉ l.declares) ∧ y ∉ V ∧ y ∉ tree.declares := by
    intro x y hxy
    have hx : x ∈ (Part.expr r).declared := inLeft.subset (List.mem_map_of_mem hxy)
    have hy : y ∈ (Part.expr right).declared := inRight.subset (List.mem_map_of_mem hxy)
    refine ⟨⟨fun h => (around x h).1 (declared.subset hx), fun h => ?_⟩, fun h => (around y h).2 hy,
      fun h => ?_⟩
    · exact (repeats.own_apart x (List.mem_append_left _ h)).1 hx
    · exact disjoint y (Part.declares_subset_declared tree h) hy
  have scopes : M.Scopes (if kind.isApply then σ.extend first else σ)
      (if kind.isApply then σ.extend (first ++ more) else σ) := by
    split
    · refine ⟨?_, .none, rfl⟩
      rintro x y (hxy | ⟨rfl, hx⟩)
      · obtain ⟨⟨hV, hl⟩, hV', ht⟩ := partners x y hxy
        rw [Scope.lookup_extend_none binds hV (left ▸ hl), Scope.lookup_extend_none binds hV' (whole ▸ ht)]
      · exact (repeats.own_kept left whole x hx).symm
    · have kept : ∀ x, σ.Binds x → added.With (l.declares ++ V) x x := fun x hx =>
        .inr ⟨rfl, List.mem_append_right _ (binds x hx)⟩
      refine ⟨?_, (Lockstep.scopes_refl unique kept).group, rfl⟩
      have unbound : ∀ x, x ∉ V → σ.rows.lookup x = none := fun x hx =>
        Scope.lookup_extend_none (f := []) binds hx (by simp)
      rintro x y (hxy | ⟨rfl, hx⟩)
      · obtain ⟨⟨hV, -⟩, hV', -⟩ := partners x y hxy
        rw [unbound x hV, unbound y hV']
      · rfl
  intro gs' run'
  obtain ⟨gs, run, related⟩ := pairs.frames _ _ scopes gs' run'
  refine ⟨gs, run, forall₂_imp_both related fun g hg g' hg' same => ?_⟩
  have name := aliases_of_source r run g hg
  have name' := aliases_of_source right run' g' hg'
  rw [declares_of_sourceAlias? repeats.kept] at name
  rw [declares_of_sourceAlias? repeats.dropped] at name'
  obtain ⟨⟨x, row⟩, rfl, rfl⟩ := List.map_eq_singleton_iff.mp name
  obtain ⟨⟨y, row'⟩, rfl, rfl⟩ := List.map_eq_singleton_iff.mp name'
  obtain _ | ⟨⟨-, rfl⟩, -⟩ := same
  exact ⟨row, rfl, rfl⟩

/-- Beside the rows of the two sides the same is in sight under partners, and under what is seen on the left
side and around. -/
theorem lookup_beside (row : Option Row) {x y : Alias} {e e' : Expr} (he : e ∈ c) (he' : e' ∈ on)
    (related : (x = b ∧ y = a ∨ x ∈ (Part.expr e).declared ∧ y ∈ (Part.expr e').declared)
      ∨ x = y ∧ x ∈ l.declares ++ V) :
    ((σ.extend first).extend [(b, row)]).rows.lookup x
      = ((σ.extend (first ++ more)).extend [(a, row)]).rows.lookup y := by
  obtain ⟨-, disjoint, condition, around⟩ := repeats.apart
  have one : ∀ (τ : Scope) (x y : Alias), (τ.extend [(y, row)]).rows.lookup x
      = if x = y then some row else τ.rows.lookup x := by
    intro τ x y
    by_cases h : x = y
    · simp [Scope.extend, h]
    · simp [Scope.extend, h, List.lookup_cons, beq_false_of_ne h]
  rw [one, one]
  rcases related with (⟨rfl, rfl⟩ | ⟨hx, hy⟩) | ⟨rfl, hx⟩
  · simp
  · have inTree := (repeats.declared_condition he).subset hx
    obtain ⟨outTree, outRight, outside⟩ := (condition e' he').2 y hy
    have notKept : x ≠ b := fun h => repeats.kept_later he (h ▸ hx)
    have notDropped : y ≠ a := fun h => outRight (h ▸ repeats.dropped_declared)
    have hl : x ∉ l.declares := fun h => (repeats.own_apart x (List.mem_append_left _ h)).2.2.2.1 e he hx
    have ht : y ∉ tree.declares := fun h => outTree (Part.declares_subset_declared tree h)
    rw [if_neg notKept, if_neg notDropped, Scope.lookup_extend_none binds (fun h => (around x h).1 inTree)
      (left ▸ hl), Scope.lookup_extend_none binds outside (whole ▸ ht)]
  · obtain ⟨-, outRight, notKept, -⟩ := repeats.own_apart x hx
    have notDropped : x ≠ a := fun h => outRight (h ▸ repeats.dropped_declared)
    rw [if_neg notKept, if_neg notDropped, repeats.own_kept left whole x hx]

/-- The conditions hold of the same rows. -/
theorem conditions_follow (row : Option Row) :
    Follows Eq (meets tables c ((σ.extend first).extend [(b, row)]))
      (meets tables on ((σ.extend (first ++ more)).extend [(a, row)])) := by
  have follow : ∀ e ∈ c, ∀ e' ∈ on, Follows Eq (scalar tables e ((σ.extend first).extend [(b, row)]))
      (scalar tables e' ((σ.extend (first ++ more)).extend [(a, row)])) := by
    intro e he e' he'
    obtain ⟨F, unique, paired, partners⟩ := repeats.conditions_paired he he'
    let M := Lockstep.reading (F.With (l.declares ++ V)) unique
    have pairs : M.Pairs tables e e' := (Lockstep.matches_of_paired (M := M) paired fun _ _ h => h).of_expr
    refine pairs.value _ _ ⟨fun x y related => ?_, .none, rfl⟩
    exact repeats.lookup_beside binds left whole row he he' (related.imp (partners x y) id)
  have same := repeats.same
  cases c with
  | none =>
    cases on with
    | none => exact .refl _
    | some e' => cases same
  | some e =>
    cases on with
    | none => cases same
    | some e' => exact Follows.bind_same (follow e rfl e' rfl) fun v => Follows.refl _

/-- A join meets the rows that the repeated join meets. -/
theorem met_follows : Follows (List.Forall₂ fun g g' => ∃ row, g = [(b, row)] ∧ g' = [(a, row)])
    (met tables kind r c σ first) (met tables kind right on σ (first ++ more)) := by
  refine (repeats.sides_follow binds left whole).bind fun gs gs' related => ?_
  refine Follows.filterM related ?_
  rintro _ _ ⟨row, rfl, rfl⟩
  exact repeats.conditions_follow binds left whole row

end Frames

/-- Where a join meets one row at most, it adds to a frame of the tree the row that the frame has already. -/
theorem beside_eq (binds : ∀ y, σ.Binds y → y ∈ V) {fs : List Frame} (run : source tables tree σ = .ok fs)
    {f : Frame} (hf : f ∈ fs) {others : List Frame} (hmet : met tables kind right on σ f = .ok others)
    (one : others.length ≤ 1) : ∃ row, beside kind right f others = [f ++ [(a, row)]] ∧ (b, row) ∈ f := by
  have names := aliases_of_source tree run f hf
  obtain ⟨first, second, rest, others', rfl, left, hmet', hsecond⟩ := repeats.spine.frames run f hf
  obtain ⟨_, found, related⟩ := repeats.met_follows binds left names others hmet
  rw [hmet'] at found
  cases found
  have nulls : ∀ {e : Expr} {x : Alias}, sourceAlias? e = some x → nullFrame (some e) = [(x, none)] := by
    intro e x h
    simp [nullFrame, declares_of_sourceAlias? h]
  cases related with
  | nil =>
    rw [beside, nulls repeats.kept] at hsecond
    rw [beside, nulls repeats.dropped]
    split at hsecond
    · rename_i test
      rw [if_pos test]
      obtain rfl := List.append_cancel_left (List.mem_singleton.mp hsecond)
      exact ⟨none, rfl, by simp⟩
    · simp at hsecond
  | @cons g g' gs gs' same tail =>
    obtain ⟨row, rfl, rfl⟩ := same
    cases tail with
    | cons _ _ => simp at one
    | nil =>
      have second_eq : second = [(b, row)] := by simpa [beside] using hsecond
      subst second_eq
      exact ⟨row, by simp [beside], by simp⟩

end Repeats

end RepeatedJoins

end ObjectQuery
