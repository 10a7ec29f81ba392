import ObjectQuery.Proofs.Tidiness
import ObjectQuery.Rewrite.ClientJoins
import Mathlib.Data.List.Nodup

/-!
Fetching nested sequences by one query keeps a tree tidy where every column is read at one type. The keys
of a joined sequence are then columns of different names, and so they stay when a joined sequence holds
others: what is read through a new select is read at the type that its column is declared with.
-/

namespace ObjectQuery

open Outcomes (ofState)

namespace Renaming

theorem exprs_command (r : Renaming) (c : Command Expr) : (r.command c).exprs = c.exprs := by
  fun_induction r.command c <;> simp_all [Command.exprs, Function.comp_def]

end Renaming

def Supply.Past (n : Nat) (supply : Supply) : Prop := n ≤ supply.next

namespace Supply

variable {n : Nat}

theorem keeps_fresh : (ofState Supply).Keeps (Past n) (fun _ => True) fresh := by
  rintro supply _ _ past ⟨⟩
  exact ⟨trivial, Nat.le_succ_of_le past⟩

theorem keeps_freshNames {α β : Type} (name : Nat → β) (l : List α) :
    (ofState Supply).Keeps (Past n) (fun _ => True) (l.mapM fun a => do return (a, name (← fresh))) :=
  ((ofState Supply).keeping (Past n)).mapM (V := id) (R := fun _ _ _ => True)
    (fun _ _ => keeps_fresh.bind fun _ _ => .pure trivial) |>.mono fun _ _ => trivial

end Supply

namespace Renaming

variable {n : Nat} {r : Renaming}

theorem keeps_fresh (p : Part) : (ofState Supply).Keeps (Supply.Past n) (fun _ => True) (fresh p) :=
  (Supply.keeps_freshNames Alias.mk _).bind fun _ _ =>
    (Supply.keeps_freshNames Param.mk _).bind fun _ _ => .pure trivial

def walker (r : Renaming) : Walker Mint := ⟨Expr.rename r, Select.rename r, Projection.rename r⟩

theorem keeps_tidy {p : Part} (h : p.Tidy) :
    (walker r).Keeps (ofState Supply) (Supply.Past n) Part.NamesOnce p := by
  refine .of_steps (fun p here parts => ?_) h
  cases p with
  | expr e =>
    change (ofState Supply).Keeps (Supply.Past n) Expr.Tidy (e.rename r)
    have walked := Walker.Keeps.traverse parts Part.lasting_namesOnce here
    cases e with
    | table t =>
      rw [Expr.rename]
      exact .pure (Expr.tidy_table _)
    | column c =>
      rw [Expr.rename]
      exact .pure (Expr.tidy_column _)
    | param p =>
      rw [Expr.rename]
      exact .pure (.node trivial (by simp [Part.parts]))
    | _ =>
      rw [Expr.rename.eq_4 r _ (by simp) (by simp) (by simp)]
      refine walked.bind fun copy tidy => ?_
      split
      · exact .pure (Expr.tidy_lambda.mpr (Expr.tidy_lambda.mp tidy))
      · exact .pure (Expr.tidy_setOp.mpr (Expr.tidy_setOp.mp tidy))
      · exact Supply.keeps_fresh.bind fun _ _ =>
          .pure (Expr.tidy_groupAggregate.mpr (Expr.tidy_groupAggregate.mp tidy))
      · refine .pure (Expr.tidy_command.mpr ?_)
        rw [exprs_command]
        exact Expr.tidy_command.mp tidy
      · exact .pure tidy
  | select s =>
    change (ofState Supply).Keeps (Supply.Past n) Select.Tidy (s.rename r)
    rw [Select.rename]
    exact (Walker.Keeps.traverseSelect parts Part.lasting_namesOnce here).bind fun copy tidy =>
      .pure (Select.TidyClauses.tidy { Select.Tidy.clauses tidy with })
  | projection p =>
    change (ofState Supply).Keeps (Supply.Past n) Projection.Tidy (p.rename r)
    rw [Projection.rename]
    exact Walker.Keeps.traverseProjection parts Part.lasting_namesOnce here

end Renaming

theorem Select.Tidy.keeps_copy {s : Select Expr} (h : s.Tidy) {n : Nat} :
    (ofState Supply).Keeps (Supply.Past n) Select.Tidy s.copy :=
  (Renaming.keeps_fresh _).bind fun _ _ => Renaming.keeps_tidy h

def Part.ReadsOnly (R : Column → Prop) : Part → Prop
  | .expr (.column c) => R c
  | _ => True

theorem Part.ReadsOnly.mono {R R' : Column → Prop} {p : Part} (h : p.ReadsOnly R) (sub : ∀ c, R c → R' c) :
    p.ReadsOnly R' := by
  cases p with
  | select _ | projection _ => trivial
  | expr e =>
    cases e with
    | column c => exact sub c h
    | _ => trivial

theorem Part.lasting_readsOnly (R : Column → Prop) : Lasting (ReadsOnly R) where
  expr shaped h := by
    cases shaped <;> trivial
  select _ _ := trivial
  projection _ _ := trivial

theorem Part.every_readsOnly {R : Column → Prop} {p : Part} :
    p.Every (ReadsOnly R) ↔ ∀ c ∈ p.columnRefs, R c := by
  refine ⟨fun h => Every.of_mem_gather (h.mono fun q here c hc => ?_), fun h =>
    (every_of_gather p h).mono fun q here => ?_⟩
  · split at hc
    · exact List.mem_singleton.mp hc ▸ here
    · cases hc
  · cases q with
    | select _ | projection _ => trivial
    | expr e =>
      cases e with
      | column c => exact here c (by simp)
      | _ => trivial

theorem nodup_eraseDups {α : Type} [BEq α] [LawfulBEq α] : (l : List α) → l.eraseDups.Nodup
  | [] => by simp
  | a :: rest => by
    rw [List.eraseDups_cons, List.nodup_cons]
    exact ⟨by simp, nodup_eraseDups _⟩
termination_by l => l.length
decreasing_by exact Nat.lt_succ_of_le (List.length_filter_le _ _)

/-- No column is read at two types. -/
def ReadAlike (cs : List Column) : Prop :=
  ∀ c ∈ cs, ∀ c' ∈ cs, c.rel = c'.rel → c.name = c'.name → c.type = c'.type

theorem ReadAlike.sub {cs cs' : List Column} (h : ReadAlike cs) (sub : cs' ⊆ cs) : ReadAlike cs' :=
  fun c hc c' hc' => h c (sub hc) c' (sub hc')

/-- Columns of one relation that are read at one type differ in their names. -/
theorem ReadAlike.nodup_names {cs : List Column} (h : ReadAlike cs) {rel : Alias} (nodup : cs.Nodup)
    (one : ∀ c ∈ cs, c.rel = rel) : (cs.map (·.name)).Nodup := by
  refine List.Nodup.map_on (fun c hc c' hc' names => ?_) nodup
  have rels : c.rel = c'.rel := (one c hc).trans (one c' hc').symm
  have types := h c hc c' hc' rels names
  cases c
  cases c'
  simp_all

structure Part.ReadAlikeBelow (n : Nat) (p : Part) : Prop where
  alike : ReadAlike p.columnRefs
  below : ∀ c ∈ p.columnRefs, c.rel.id < n

theorem Part.ReadAlikeBelow.part {n : Nat} {p q : Part} (h : p.ReadAlikeBelow n) (hq : q ∈ p.parts) :
    q.ReadAlikeBelow n :=
  ⟨h.alike.sub (columnRefs_subset hq), fun c hc => h.below c (columnRefs_subset hq hc)⟩

namespace ClientJoins

variable {n : Nat}

theorem tidy_addKeys (keyAlias rel : Alias) (keys : List Column) {columns : List (ColumnDecl Expr)}
    (h : TidyColumns columns) :
    (∀ e ∈ (addKeys keyAlias rel keys columns).1, e.Tidy)
      ∧ TidyColumns (addKeys keyAlias rel keys columns).2 := by
  induction keys generalizing columns with
  | nil => exact ⟨by simp [addKeys], h⟩
  | cons k rest ih =>
    obtain ⟨inner, columns⟩ := ih (h.provide k.name (Expr.tidy_column ⟨keyAlias, k.name, k.type⟩))
    exact ⟨List.forall_mem_cons.mpr ⟨Expr.tidy_column _, inner⟩, columns⟩

theorem nodup_keys {owner : Select Expr} {p : Projection Expr} {keys : List Column}
    (alike : ReadAlike (Part.projection p).columnRefs) (found : keys? owner p = some keys) :
    (keys.map (·.name)).Nodup := by
  simp only [keys?] at found
  split at found
  · cases found
  · obtain rfl := Option.some.inj found
    have sub : (Part.projection p).columns ⊆ (Part.projection p).columnRefs := fun c hc =>
      List.mem_eraseDups.mp hc
    have nodup : (Part.projection p).columns.Nodup := nodup_eraseDups _
    have one : ∀ c ∈ (Part.projection p).columns.filter (·.rel = owner.rel), c.rel = owner.rel :=
      fun c hc => by simpa using List.of_mem_filter hc
    exact (alike.sub fun c hc => sub (List.mem_of_mem_filter hc)).nodup_names (nodup.filter _) one

/-- The select of the keys is tidy, and its alias is the last that was minted. -/
theorem keySelect_minted {owner : Select Expr} (h : owner.Tidy) {keys : List Column}
    (nodup : (keys.map (·.name)).Nodup) {supply supply' : Supply} {s : Select Expr}
    (run : (keySelect owner keys).run supply = (s, supply')) :
    s.Tidy ∧ supply.next ≤ s.rel.id ∧ supply'.next = s.rel.id + 1 := by
  cases copied : owner.copy.run supply with
  | mk copy drawn =>
    obtain ⟨tidy, past⟩ := h.keeps_copy supply copy drawn (Nat.le_refl _) copied
    rw [keySelect, StateT.run_bind, copied] at run
    cases run
    have columns : TidyColumns (keys.map fun k =>
        ColumnDecl.of k.name (.column ⟨copy.rel, k.name, k.type⟩)) := by
      refine ⟨by simpa [ColumnDecl.of, Function.comp_def] using nodup, fun d hd => ?_⟩
      obtain ⟨k, -, rfl⟩ := List.mem_map.mp hd
      exact Expr.tidy_column _
    have plain : (Select.plain ⟨drawn.next⟩ _ (some (.select copy)) none).Tidy :=
      Select.tidy_plain columns (by simpa using tidy) (by simp)
    exact ⟨Select.TidyClauses.tidy { plain.clauses with }, past, rfl⟩

def moved (owner keys : Alias) (c : Column) : Column := if c.rel = owner then { c with rel := keys } else c

theorem name_moved (owner keys : Alias) (c : Column) : (moved owner keys c).name = c.name := by
  rw [moved]
  split <;> rfl

theorem type_moved (owner keys : Alias) (c : Column) : (moved owner keys c).type = c.type := by
  rw [moved]
  split <;> rfl

theorem rel_moved (owner keys : Alias) (c : Column) :
    (moved owner keys c).rel = if c.rel = owner then keys else c.rel := by
  rw [moved]
  split <;> rfl

def Rest (old : List Column) (owner keys rel : Alias) (columns : List (ColumnDecl Expr)) (c : Column) : Prop :=
  (∃ c₀ ∈ old, c = moved owner keys c₀) ∨ ∃ d ∈ columns, c = ⟨rel, d.name, d.type⟩

theorem readAlikeBelow_rest {old : List Column} {owner keys rel : Alias} {columns : List (ColumnDecl Expr)}
    (alike : ReadAlike old) (below : ∀ c ∈ old, c.rel.id < n) (hk : n ≤ keys.id) (hr : keys.id < rel.id)
    (nodup : (columns.map (·.name)).Nodup) {p : Part}
    (rest : ∀ c ∈ p.columnRefs, Rest old owner keys rel columns c) : p.ReadAlikeBelow (rel.id + 1) := by
  have apart : ∀ c ∈ old, (moved owner keys c).rel.id < rel.id := by
    intro c hc
    have := below c hc
    rw [rel_moved]
    split <;> omega
  -- No column is moved to where another one was.
  have injective : ∀ c ∈ old, ∀ c' ∈ old, (moved owner keys c).rel = (moved owner keys c').rel →
      c.rel = c'.rel := by
    intro c hc c' hc' same
    have first := below c hc
    have second := below c' hc'
    rw [rel_moved, rel_moved] at same
    split at same <;> split at same
    · simp_all
    · rw [← same] at second
      omega
    · rw [same] at first
      omega
    · exact same
  refine ⟨fun c hc c' hc' rels names => ?_, fun c hc => ?_⟩
  · rcases rest c hc with ⟨c, old, rfl⟩ | ⟨d, hd, rfl⟩ <;>
      rcases rest c' hc' with ⟨c', old', rfl⟩ | ⟨d', hd', rfl⟩
    · rw [name_moved, name_moved] at names
      rw [type_moved, type_moved]
      exact alike c old c' old' (injective c old c' old' rels) names
    · exact absurd (congrArg Alias.id rels) (Nat.ne_of_lt (apart c old))
    · exact absurd (congrArg Alias.id rels).symm (Nat.ne_of_lt (apart c' old'))
    · have first := ColumnDecl.find?_name nodup hd
      have second := ColumnDecl.find?_name nodup hd'
      have names : d.name = d'.name := names
      rw [names, second] at first
      rw [Option.some.inj first]
  · rcases rest c hc with ⟨c, old, rfl⟩ | ⟨d, hd, rfl⟩
    · exact Nat.lt_succ_of_lt (apart c old)
    · exact Nat.lt_succ_self _

/-- Columns of the owner are read from the select of the keys. -/
theorem reads_moved (owner keys : Alias) {R : Column → Prop} {p : Part} (h : p.Every (Part.ReadsOnly R)) :
    (p.substitute fun c => if c.rel = owner then some (.column { c with rel := keys }) else none).Every
      (Part.ReadsOnly fun c => ∃ c₀, R c₀ ∧ c = moved owner keys c₀) := by
  refine Part.Every.substituted (Part.lasting_readsOnly _) (fun q _ notColumn => ?_) (fun c here => ?_) h
  · cases q with
    | select _ | projection _ => trivial
    | expr e =>
      cases e with
      | column c => exact absurd rfl (notColumn c)
      | _ => trivial
  · have reads : (Part.expr (.column (moved owner keys c))).Every
        (Part.ReadsOnly fun c => ∃ c₀, R c₀ ∧ c = moved owner keys c₀) :=
      .node ⟨c, here, rfl⟩ (by simp [Part.parts])
    rw [moved] at reads
    split <;> simp_all

/-- A split shape reads what the shape reads, and the columns that hold its leaves. -/
theorem split_reads {e : Expr} {R : Column → Prop} (h : (Part.expr e).Every (Part.ReadsOnly R))
    (affinity : Affinity) (existing : List (ColumnDecl Expr)) (rel : Alias) (sources : List Alias) :
    ∀ c ∈ (Part.expr (e.split affinity existing rel sources).projector).columnRefs,
      R c ∨ ∃ d ∈ (e.split affinity existing rel sources).columns, c = ⟨rel, d.name, d.type⟩ := by
  have made := Split.leaves_every
    (N := fun s => Part.ReadsOnly fun c => R c ∨ ∃ d ∈ s.columns, c = ⟨rel, d.name, d.type⟩)
    ⟨affinity, rel, sources⟩ (fun _ => Part.lasting_readsOnly _) (fun _ d hd => .inr ⟨d, hd, rfl⟩)
    (h.mono fun _ reads _ => reads.mono fun _ => .inl) false
  obtain ⟨next, -, reads⟩ := Expr.split_of_makes made existing
  exact Part.every_readsOnly.mp reads

/-- A joined sequence is tidy over tidy keys, and what its shape reads is read at one type. -/
theorem join_minted {affinity : Affinity} {owner : Select Expr} (ho : owner.Tidy) {p : Projection Expr}
    (hp : p.Tidy) (alike : (Part.projection p).ReadAlikeBelow n) {keys : List Column}
    (found : keys? owner p = some keys) {supply supply' : Supply} (past : supply.Past n)
    {joined : Projection Expr} {inner : List Expr}
    (run : (join affinity owner p keys).run supply = ((joined, inner), supply')) :
    joined.Tidy ∧ (∀ e ∈ inner, e.Tidy)
      ∧ ∃ n' ≥ n, supply'.Past n' ∧ (Part.expr joined.projector).ReadAlikeBelow n' := by
  cases selected : (keySelect owner keys).run supply with
  | mk keySelect drawn =>
    obtain ⟨tidyKeys, newer, next⟩ := keySelect_minted ho (nodup_keys alike.alike found) selected
    rw [join, StateT.run_bind, selected] at run
    cases run
    obtain ⟨select, projector⟩ := Projection.tidy_iff.mp
      (Part.Tidy.reread (p := .projection p) hp owner.rel keySelect.rel)
    obtain ⟨shape, columns⟩ := projector.split affinity .nil ⟨drawn.next⟩ [keySelect.rel,
      (p.substitute fun c => if c.rel = owner.rel then some (.column { c with rel := keySelect.rel })
        else none).select.rel]
    obtain ⟨inner, grown⟩ := tidy_addKeys keySelect.rel ⟨drawn.next⟩ keys columns
    have own : (Part.projection p).Every (Part.ReadsOnly (· ∈ (Part.projection p).columnRefs)) :=
      Part.every_readsOnly.mpr fun c hc => hc
    have reads := (reads_moved owner.rel keySelect.rel own).part Projection.projector_mem
    refine ⟨Projection.tidy_iff.mpr ⟨Select.tidy_plain grown (by simpa using ⟨tidyKeys, select⟩) (by simp),
      shape⟩, inner, drawn.next + 1, ?_, Nat.le_refl _, ?_⟩
    · have : n ≤ supply.next := past
      omega
    · exact readAlikeBelow_rest alike.alike alike.below (Nat.le_trans past newer) (by simp [next])
        columns.nodup (split_reads reads affinity [] _ _)

def walker (affinity : Affinity) (fuel : Nat) (owner : Option (Select Expr)) : Walker Mint :=
  ⟨Expr.joinNested affinity fuel owner, Select.joinNested affinity fuel owner,
    Projection.joinNested affinity fuel⟩

/-- What a joined sequence holds is walked past the numbers that were minted for it. -/
theorem keeps_joined {affinity : Affinity} {fuel : Nat} {owner : Select Expr} (ho : owner.Tidy)
    {p : Projection Expr} (hp : p.Tidy) (alike : (Part.projection p).ReadAlikeBelow n) {keys : List Column}
    (found : keys? owner p = some keys)
    (deeper : ∀ {n : Nat} {p : Part} {owner : Option (Select Expr)}, p.Tidy → p.ReadAlikeBelow n →
      (∀ s ∈ owner, s.Tidy) →
      (walker affinity fuel owner).Keeps (ofState Supply) (Supply.Past n) Part.NamesOnce p) :
    (ofState Supply).Keeps (Supply.Past n) Expr.Tidy (do
      let (joined, innerKey) ← join affinity owner p keys
      return .clientJoin (← joined.joinNested affinity fuel) (keys.map .column) innerKey) := by
  intro supply e' supply' past run
  obtain ⟨⟨joined, inner⟩, minted, first, rest⟩ := (ofState Supply).bind run
  obtain ⟨tidyJoined, tidyInner, n', newer, past', alike'⟩ := join_minted ho hp alike found past first
  obtain ⟨select, projector⟩ := Projection.tidy_iff.mp tidyJoined
  have onShape : (ofState Supply).Keeps (Supply.Past n') Expr.Tidy
      (joined.projector.joinNested affinity fuel (some joined.select)) :=
    deeper projector alike' (by simpa using select)
  have onJoined : (ofState Supply).Keeps (Supply.Past n') Projection.Tidy
      (joined.joinNested affinity fuel) := by
    rw [Projection.joinNested]
    exact onShape.bind fun projector hp => .pure (Projection.tidy_iff.mpr ⟨select, hp⟩)
  have kept := onJoined.bind fun joined hj => Outcomes.Keeps.pure (R := Expr.Tidy)
    (a := .clientJoin joined (keys.map .column) inner) (Expr.tidy_clientJoin.mpr ⟨by simp, hj, tidyInner⟩)
  exact (kept minted e' supply' past' rest).imp_right (Nat.le_trans newer)

theorem keeps_tidy (affinity : Affinity) (fuel : Nat) {p : Part} (h : p.Tidy) (alike : p.ReadAlikeBelow n)
    {owner : Option (Select Expr)} (ho : ∀ s ∈ owner, s.Tidy) :
    (walker affinity fuel owner).Keeps (ofState Supply) (Supply.Past n) Part.NamesOnce p := by
  induction fuel using Nat.strongRecOn generalizing n p owner with | ind fuel deeper =>
  induction h generalizing owner with
  | @node p here tidy ih =>
    have parts : ∀ owner : Option (Select Expr), (∀ s ∈ owner, s.Tidy) → ∀ q ∈ p.parts,
        (walker affinity fuel owner).Keeps (ofState Supply) (Supply.Past n) Part.NamesOnce q :=
      fun _ ho q hq => ih q hq (alike.part hq) ho
    cases p with
    | expr e =>
      change (ofState Supply).Keeps (Supply.Past n) Expr.Tidy (e.joinNested affinity fuel owner)
      have walked : ∀ owner : Option (Select Expr), (∀ s ∈ owner, s.Tidy) → _ := fun owner ho =>
        Walker.Keeps.traverse (parts owner ho) Part.lasting_namesOnce here
      cases e with
      | projection p =>
        have alike := alike.part (q := .projection p) (by simp [Part.parts])
        have onProjection := parts owner ho (.projection p) (by simp [Part.parts])
        rw [Expr.joinNested.eq_1]
        split
        · exact Outcomes.Keeps.bind onProjection fun p hp => .pure (Expr.tidy_projection.mpr hp)
        · rename_i keyed
          obtain ⟨owner, owned, found⟩ := Option.bind_eq_some_iff.mp keyed
          obtain ⟨keys, keysFound, same⟩ := Option.map_eq_some_iff.mp found
          cases same
          cases fuel with
          | zero =>
            exact Outcomes.Keeps.bind onProjection fun p hp => .pure (Expr.tidy_projection.mpr hp)
          | succ fuel =>
            exact keeps_joined (ho _ owned) (tidy _ (by simp [Part.parts])) alike keysFound
              fun tidy alike ho => deeper fuel (Nat.lt_succ_self fuel) tidy alike ho
      | scalar s =>
        rw [Expr.joinNested]
        exact .pure (.node here tidy)
      | existsIn s =>
        rw [Expr.joinNested]
        exact .pure (.node here tidy)
      | inSelect item s =>
        rw [Expr.joinNested]
        exact .pure (.node here tidy)
      | clientJoin _ _ _ =>
        rw [Expr.joinNested]
        exact walked none (by simp)
      | command _ =>
        rw [Expr.joinNested]
        exact walked none (by simp)
      | _ =>
        rw [Expr.joinNested.eq_7 _ _ _ _ (by simp) (by simp) (by simp) (by simp) (by simp) (by simp)]
        exact walked owner ho
    | select s =>
      change (ofState Supply).Keeps (Supply.Past n) Select.Tidy (s.joinNested affinity fuel owner)
      rw [Select.joinNested]
      exact Walker.Keeps.traverseSelect (parts owner ho) Part.lasting_namesOnce here
    | projection p =>
      have select : p.select.Tidy := tidy _ Projection.select_mem
      change (ofState Supply).Keeps (Supply.Past n) Projection.Tidy (p.joinNested affinity fuel)
      rw [Projection.joinNested]
      exact Outcomes.Keeps.bind (parts (some p.select) (by simpa using select) (.expr p.projector)
        Projection.projector_mem) fun projector hp => .pure (Projection.tidy_iff.mpr ⟨select, hp⟩)

end ClientJoins

/-- Fetching nested sequences by one query keeps a tree tidy. -/
theorem Expr.Tidy.withClientJoins {e : Expr} (h : e.Tidy) (affinity : Affinity) {supply : Supply}
    (alike : (Part.expr e).ReadAlikeBelow supply.next) :
    ((e.withClientJoins affinity).run supply).1.Tidy :=
  Outcomes.Keeps.result (ClientJoins.keeps_tidy affinity _ h alike (by simp)) (Nat.le_refl supply.next)

end ObjectQuery
