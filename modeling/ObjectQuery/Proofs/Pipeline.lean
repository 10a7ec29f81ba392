import ObjectQuery.Proofs.Chains
import ObjectQuery.Proofs.StackColumns
import ObjectQuery.Proofs.StackLayers
import ObjectQuery.Proofs.StackWalk
import ObjectQuery.Query
import ObjectQuery.Sample

/-!
Compiling chains of operators over one table. Every pass leads from a stack to a stack that makes the
same objects, so the compiled tree answers what the bound tree answers.
-/

namespace ObjectQuery

open Eval

def Pass.Leads (ctx : Context) (pre : Expr → Supply → Prop) (pass : Pass)
    (post : Expr → Supply → Prop) : Prop :=
  ∀ e supply e' supply', pre e supply → (pass.apply ctx e).run supply = .ok (e', supply') →
    post e' supply'

def Pipeline.Leads (ctx : Context) (pre : Expr → Supply → Prop) (passes : List Pass)
    (post : Expr → Supply → Prop) : Prop :=
  ∀ r supply r' supply', pre r.tree supply →
    (passes.foldlM (Rewritten.next ctx) r).run supply = .ok (r', supply') → post r'.tree supply'

section Leads

variable {ctx : Context} {pre mid post : Expr → Supply → Prop} {pass : Pass}
  {passes more : List Pass}

/-- A pass of a pipeline, with the note whether it changed anything. -/
theorem Rewritten.next_ok {r r' : Rewritten} {supply supply' : Supply}
    (h : (r.next ctx pass).run supply = .ok (r', supply')) :
    (pass.apply ctx r.tree).run supply = .ok (r'.tree, supply')
      ∧ r'.passes = if r'.tree == r.tree then r.passes else r.passes ++ [pass] := by
  rw [next, StateT.run_bind] at h
  obtain ⟨⟨tree, supply₁⟩, run, h⟩ := bind_eq_ok.mp h
  cases h
  exact ⟨run, rfl⟩

theorem Pipeline.Leads.nil : Pipeline.Leads ctx pre [] pre := by
  intro r supply r' supply' h run
  cases run
  exact h

theorem Pipeline.Leads.cons (h : Pass.Leads ctx pre pass mid)
    (rest : Pipeline.Leads ctx mid passes post) : Pipeline.Leads ctx pre (pass :: passes) post := by
  intro r supply r' supply' hr run
  rw [List.foldlM_cons, StateT.run_bind] at run
  obtain ⟨⟨r₁, supply₁⟩, run₁, run⟩ := bind_eq_ok.mp run
  exact rest r₁ supply₁ r' supply' (h _ _ _ _ hr (Rewritten.next_ok run₁).1) run

theorem Pipeline.Leads.append (h : Pipeline.Leads ctx pre passes mid)
    (rest : Pipeline.Leads ctx mid more post) : Pipeline.Leads ctx pre (passes ++ more) post := by
  intro r supply r' supply' hr run
  rw [List.foldlM_append, StateT.run_bind] at run
  obtain ⟨⟨r₁, supply₁⟩, run₁, run⟩ := bind_eq_ok.mp run
  exact rest r₁ supply₁ r' supply' (h _ _ _ _ hr run₁) run

/-- Passes each of which keeps a property. -/
theorem Pipeline.Leads.keep (h : ∀ pass ∈ passes, Pass.Leads ctx pre pass pre) :
    Pipeline.Leads ctx pre passes pre := by
  induction passes with
  | nil => exact .nil
  | cons pass rest ih => exact .cons (h pass (by simp)) (ih fun p hp => h p (by simp [hp]))

end Leads

namespace Select

def keyValues (tables : Tables) (s : Select Expr) (o : Order Expr) : List Value :=
  let frames : Result (List Frame) := match s.source with
    | none => .ok [[]]
    | some e => Eval.source tables e .root
  let passes (frame : Frame) : Bool := s.filter.all fun e =>
    (scalar tables e (Scope.root.extend frame)).toOption.any (·.isTrue)
  ((frames.toOption.getD []).filter passes).filterMap fun frame =>
    (scalar tables o.expr (Scope.root.extend frame)).toOption

def OrdersByType (tables : Tables) (s : Select Expr) : Prop :=
  ∀ o ∈ s.orderBy, ∃ type : KeyType, ∀ v ∈ s.keyValues tables o, type.admits v

end Select

instance (tables : Tables) (s : Select Expr) : Decidable (s.OrdersByType tables) :=
  inferInstanceAs (Decidable (∀ o ∈ s.orderBy, ∃ type : KeyType, ∀ v ∈ s.keyValues tables o,
    type.admits v))

theorem Projection.selects_subset (p : Projection Expr) :
    (Part.select p.select).selects ⊆ (Part.expr (.projection p)).selects :=
  List.Subset.trans (Part.selects_subset (p := .projection p) (by simp [Part.parts]))
    (Part.selects_subset (by simp [Part.parts]))

/-- Every ordering key of a tree is null or of one type. -/
def Expr.OrdersByType (tables : Tables) (e : Expr) : Prop :=
  ∀ s ∈ (Part.expr e).selects, s.OrdersByType tables

instance (tables : Tables) (e : Expr) : Decidable (e.OrdersByType tables) :=
  inferInstanceAs (Decidable (∀ s ∈ (Part.expr e).selects, s.OrdersByType tables))

namespace Stack

variable {tables : Tables} {M : Meaning tables} {G : Grammar} {t : Table} {offered : List String}
  {base : List Row} {supply : Supply} {made : List (Option ClientValue)} {ranked : Prop}
  {ctx : Context}

/-- The tree is a stack in which everything is in order, and `made` are the objects that it makes.
Where the stack is `ranked`, a layer that pages orders by all that the layers below it order by. -/
structure Ready (M : Meaning tables) (G : Grammar) (t : Table) (offered : List String)
    (base : List Row) (made : List (Option ClientValue)) (ranked : Prop) (supply : Supply) (l : Layer)
    (below : Stack) (projector : Expr) : Prop where
  sound : Sound G t offered (l :: below)
  plain : Plain M.members (Sees t offered (l :: below)) projector
  named : Unnumbered offered (l :: below)
  drawn : Drawn supply (aliases t (l :: below))
  uniform : Uniform M t base (l :: below)
  refined : ranked → Refined M t offered (l :: below)
  objects : objects M t base (l :: below) projector = made

def Answers (M : Meaning tables) (G : Grammar) (t : Table) (offered : List String)
    (base : List Row) (made : List (Option ClientValue)) (ranked : Prop) (e : Expr)
    (supply : Supply) : Prop :=
  ∃ l below projector, e = .projection (projected t l below projector)
    ∧ Ready M G t offered base made ranked supply l below projector

theorem Unnumbered.of_within {s s' : Stack} (h : Unnumbered offered s) (within : NamesWithin s s') :
    Unnumbered offered s' := by
  refine ⟨h.1, fun l' hl' hn => ?_⟩
  obtain ⟨l, hl, sub⟩ := within l' hl'
  exact h.2 l hl (sub hn)

theorem Ready.of_agrees {l l' : Layer} {below below' : Stack} {projector projector' : Expr}
    (h : Ready M M.toGrammar t offered base made ranked supply l below projector)
    (agrees : Agrees M t offered base (l :: below) projector (l' :: below') projector') :
    Ready M M.toGrammar t offered base made ranked supply l' below' projector' where
  sound := agrees.sound
  plain := agrees.plain
  named := h.named.of_within agrees.names
  drawn a ha := h.drawn a (agrees.aliases ha)
  uniform := agrees.uniform h.uniform
  refined r := agrees.refined (h.refined r)
  objects := agrees.objects.trans h.objects

/-- The passes that do not depend on how the stack is read. -/
theorem leads_of_agrees (full : ∀ row ∈ base, Full offered row) :
    ∀ pass ∈ [Pass.groupColumns, .unusedColumns, .layers, .singletons, .clientJoins, .crossJoins,
      .applies, .repeatedJoins, .repeatedColumns],
    Pass.Leads ctx (Answers M M.toGrammar t offered base made ranked) pass
      (Answers M M.toGrammar t offered base made ranked) := by
  rintro pass hp _ supply e' supply' ⟨l, below, projector, rfl, h⟩ run
  simp only [List.mem_cons, List.not_mem_nil, or_false] at hp
  obtain rfl | rfl | rfl | rfl | rfl | rfl | rfl | rfl | rfl := hp
  · cases run
    exact ⟨l, below, projector, withGroupColumns_eq h.sound h.plain, h⟩
  · cases run
    obtain ⟨l', below', eq, agrees⟩ := dropUnusedColumns_agrees full h.sound h.plain
    exact ⟨l', below', projector, eq, h.of_agrees agrees⟩
  · cases run
    obtain ⟨l', below', projector', -, eq, agrees⟩ := collapseLayers_agrees full h.sound h.plain
    exact ⟨l', below', projector', eq, h.of_agrees agrees⟩
  · cases (withSingletonsJoined_run ctx h.plain supply).symm.trans (Except.ok.inj run)
    exact ⟨l, below, projector, rfl, h⟩
  · cases (withClientJoins_run ctx.affinity h.plain supply).symm.trans (Except.ok.inj run)
    exact ⟨l, below, projector, rfl, h⟩
  · cases (withCrossJoinsIsolated_run h.sound h.plain supply).symm.trans (Except.ok.inj run)
    exact ⟨l, below, projector, rfl, h⟩
  · cases run
    exact ⟨l, below, projector, downgradeApplies_eq h.sound h.plain ctx.affinity, h⟩
  · cases run
    exact ⟨l, below, projector, dropRepeatedJoins_eq h.sound h.plain, h⟩
  · cases run
    obtain ⟨l', below', projector', eq, agrees⟩ := dropRepeatedColumns_agrees full h.sound h.plain
    exact ⟨l', below', projector', eq, h.of_agrees agrees⟩

theorem leads_orderings (full : ∀ row ∈ base, Full offered row) :
    Pass.Leads ctx (Answers M M.toGrammar t offered base made ranked) .orderings
      (Answers M M.toGrammar.loosened t offered base made True) := by
  rintro _ supply e' supply' ⟨l, below, projector, rfl, h⟩ run
  cases run
  obtain ⟨l', below', eq, raised, plain, same⟩ :=
    hoistOrderings_agrees full h.sound h.uniform h.plain
  refine ⟨l', below', projector, eq, raised.sound, plain, raised.named h.named, ?_, raised.uniform,
    fun _ => raised.refined, same.trans h.objects⟩
  rw [raised.aliases]
  exact h.drawn

theorem leads_associations (closed : G.members → False) (members : M.members = G.members) :
    Pass.Leads ctx (Answers M G t offered base made ranked) .associations
      (Answers M G t offered base made ranked) := by
  rintro _ supply e' supply' ⟨l, below, projector, rfl, h⟩ run
  have plain := h.plain
  rw [members] at plain
  cases (followAssociations_run closed h.sound plain ctx.mapping supply).symm.trans run
  exact ⟨l, below, projector, rfl, h⟩

/-- Expanding comparisons leads from the one reading to the other. -/
theorem leads_comparisons :
    Pass.Leads ctx
      (Answers (.unfolded tables ctx.mapping) (Meaning.unfolded tables ctx.mapping).toGrammar.loosened
        t offered base made ranked) .comparisons
      (Answers (.direct tables) (Meaning.direct tables).toGrammar t offered base made ranked) := by
  rintro _ supply e' supply' ⟨l, below, projector, rfl, h⟩ run
  simp only [Pass.apply] at run
  obtain ⟨e, expanded, run⟩ := bind_eq_ok.mp run
  cases run
  obtain rfl := expandComparisons_eq (fun impossible => impossible) h.sound h.plain expanded
  refine ⟨l.mapExprs (Expr.expanded ctx.mapping), Stack.expanded ctx.mapping below,
    projector.expanded ctx.mapping, rfl, ?_⟩
  have sound := sound_expanded h.sound
  have uniform := uniform_expanded h.uniform
  have named := unnumbered_expanded (m := ctx.mapping) h.named
  have objects := (objects_expanded (l :: below) projector).trans h.objects
  refine ⟨sound, ?_, named, ?_, uniform, fun r => refined_expanded (h.refined r), objects⟩
  · have sees : Sees t offered (Stack.expanded ctx.mapping (l :: below))
        = Sees t offered (l :: below) := sees_expanded _
    rw [← expanded_cons, sees]
    exact (Opened.plain h.plain).plain_expanded
  · rw [← expanded_cons, aliases_expanded]
    exact h.drawn

/-- All passes but the one that pages. -/
theorem leads_passes (full : ∀ row ∈ base, Full offered row) :
    Pipeline.Leads ctx
      (Answers (.unfolded tables ctx.mapping) (Meaning.unfolded tables ctx.mapping).toGrammar t
        offered base made False) Pipeline.passes
      (Answers (.direct tables) (Meaning.direct tables).toGrammar t offered base made True) := by
  have before : Pipeline.Leads ctx
      (Answers (.unfolded tables ctx.mapping) (Meaning.unfolded tables ctx.mapping).toGrammar t
        offered base made False) [.groupColumns, .unusedColumns, .layers]
      (Answers (.unfolded tables ctx.mapping) (Meaning.unfolded tables ctx.mapping).toGrammar t
        offered base made False) :=
    .keep fun pass hp => leads_of_agrees full pass (by simp at hp ⊢; tauto)
  have after : Pipeline.Leads ctx
      (Answers (.direct tables) (Meaning.direct tables).toGrammar t offered base made True)
      [.singletons, .clientJoins, .crossJoins, .applies, .repeatedJoins, .layers, .repeatedJoins,
        .unusedColumns, .repeatedColumns]
      (Answers (.direct tables) (Meaning.direct tables).toGrammar t offered base made True) :=
    .keep fun pass hp => leads_of_agrees full pass (by simp at hp ⊢; tauto)
  exact before.append (.cons (leads_orderings full) (.cons
    (leads_associations (fun impossible => impossible) rfl) (.cons leads_comparisons after)))

theorem source_of_select {q : Select Expr} {e : Expr} (hq : q.source = some e) {rows : List Row}
    (h : select tables q .root = .ok rows) : ∃ frames, source tables e .root = .ok frames := by
  rw [select_eq, hq] at h
  obtain ⟨frames, hf, -⟩ := bind_eq_ok.mp h
  exact ⟨frames, hf⟩

/-- A stack is evaluated from the bottom up. -/
theorem below_of_select {l l' : Layer} {below : Stack} {rows : List Row}
    (h : select tables (l.above (tree t (l' :: below))) .root = .ok rows) :
    ∃ rows', select tables (l'.above (tree t below)) .root = .ok rows' := by
  obtain ⟨frames, hf⟩ := source_of_select rfl h
  rw [tree, source] at hf
  obtain ⟨rows', hs, -⟩ := bind_eq_ok.mp hf
  exact ⟨rows', hs⟩

/-- The table of a stack that is evaluated is there. -/
theorem base_of_select {l : Layer} {below : Stack} {rows : List Row}
    (h : select tables (l.above (tree t below)) .root = .ok rows) :
    ∃ base, tables.get? t.name = some base := by
  induction below generalizing l rows with
  | nil =>
    obtain ⟨frames, hf⟩ := source_of_select rfl h
    rw [tree, source] at hf
    split at hf
    · exact ⟨_, by assumption⟩
    · cases hf
  | cons l' below ih =>
    obtain ⟨rows', hs⟩ := below_of_select h
    exact ih hs

/-- Where the bottom of the stack is evaluated, the rows of the table have all the columns offered. -/
theorem full_of_select (hbase : tables.get? t.name = some base) {l : Layer} {below : Stack}
    (sound : Sound M.toGrammar t offered (l :: below)) (grounded : Grounded offered (l :: below))
    {rows : List Row} (h : select tables (l.above (tree t below)) .root = .ok rows) :
    ∀ row ∈ base, Full offered row := by
  induction below generalizing l rows with
  | nil =>
    obtain ⟨-, filter, reads⟩ := grounded.resolve_left id
    intro row hr name hn
    obtain ⟨d, hd, c, hc, rfl⟩ := reads name hn
    rw [Layer.select_over (sound.2.1.hasNoAggregates _)] at h
    obtain ⟨frames, hf, h⟩ := bind_eq_ok.mp h
    rw [tree, source, hbase] at hf
    obtain rfl := Except.ok.inj hf
    obtain ⟨kept, hk, h⟩ := bind_eq_ok.mp h
    rw [filter] at hk
    obtain rfl := Except.ok.inj hk
    obtain ⟨scopes, hs, h⟩ := bind_eq_ok.mp h
    rw [numbered, Layer.hasNoNumbering fun d hd => sound.2.1.column hd] at hs
    obtain rfl := Except.ok.inj hs
    obtain ⟨produced, hp, -⟩ := bind_eq_ok.mp h
    obtain ⟨p, hp⟩ := ok_of_mapM hp (Scope.root.extend [(t.rel, some row)]) (by
      simp only [List.mem_map, exists_exists_and_eq_and]
      exact ⟨row, hr, rfl⟩)
    obtain ⟨values, hv, -⟩ := bind_eq_ok.mp hp
    obtain ⟨v, hv⟩ := ok_of_mapM hv d hd
    obtain ⟨v, hv, -⟩ := bind_eq_ok.mp hv
    have plain := sound.2.1.column hd
    rw [hc] at hv plain
    rw [scalar] at hv
    cases plain with
    | column sees =>
      cases found : row.get? c.name with
      | some v => exact ⟨v, rfl⟩
      | none =>
        have hrel : c.rel = t.rel := sees.1
        simp [Scope.extend, Scope.root, Scope.column, hrel, found] at hv
  | cons l' below ih =>
    have grounded' : Grounded offered (l' :: below) := grounded.resolve_right fun h => by cases h.1
    obtain ⟨rows', hs⟩ := below_of_select h
    exact ih sound.2.2 grounded' hs

theorem selects_below {l l' : Layer} {below : Stack} :
    (Part.select (l'.above (tree t below))).selects
      ⊆ (Part.select (l.above (tree t (l' :: below)))).selects := by
  refine List.Subset.trans ?_ (Part.selects_subset (q := .expr (tree t (l' :: below))) ?_)
  · exact Part.selects_subset (by simp [tree, Part.parts])
  · simp [Part.parts, Select.exprs, Layer.above]

theorem keys_typed (hbase : tables.get? t.name = some base) {l : Layer} {below : Stack}
    (sound : Sound M.toGrammar t offered (l :: below)) (uniform : Uniform M t base below)
    (typed : (l.above (tree t below)).OrdersByType tables) {rows : List Row}
    (h : select tables (l.above (tree t below)) .root = .ok rows) :
    ∀ k ∈ keys M t l below, ∃ type : KeyType,
      ∀ row ∈ (picked M t base below).filter (passes M t l below), type.admits (k.2 row) := by
  intro k hk
  obtain ⟨o, ho, rfl⟩ := List.mem_map.mp hk
  obtain ⟨type, admits⟩ := typed o ho
  refine ⟨type, fun row hr => admits _ ?_⟩
  obtain ⟨hp, pass⟩ := List.mem_filter.mp hr
  have evaluates : l.Evaluates M := sound.2.1.evaluates
  rw [Layer.select_over (evaluates.aggregates _)] at h
  obtain ⟨frames, hf, h⟩ := bind_eq_ok.mp h
  obtain ⟨kept, hkept, h⟩ := bind_eq_ok.mp h
  have frames_eq := frames_of_source hbase sound.2.2 uniform hf
  rw [frames_eq] at hkept
  have kept_eq := Feed.kept_of_filter (f := feed M t offered base below)
    (fun e he => evaluates.value e (Layer.mem_exprs_of_filter he)) hkept
  rw [numbered, evaluates.numbering, ok_bind] at h
  obtain ⟨produced, hproduced, -⟩ := bind_eq_ok.mp h
  have inKept : (feed M t offered base below).frame row ∈ kept := by
    rw [kept_eq]
    exact List.mem_map_of_mem hr
  -- The row is kept, so its keys and the filter are evaluated.
  obtain ⟨p, hp'⟩ := ok_of_mapM hproduced _ (List.mem_map_of_mem inKept)
  obtain ⟨values, -, hp'⟩ := bind_eq_ok.mp hp'
  obtain ⟨ks, hks, -⟩ := bind_eq_ok.mp hp'
  obtain ⟨v, hv⟩ := ok_of_mapM hks o ho
  have value : M.value o.expr (view M t below row) = v :=
    evaluates.value _ (Layer.mem_exprs_of_order ho) hv
  simp only [value, Select.keyValues, Layer.above, hf, Except.toOption, Option.getD_some,
    List.mem_filterMap, List.mem_filter]
  refine ⟨(feed M t offered base below).frame row, ⟨?_, ?_⟩, by rw [hv]⟩
  · rw [frames_eq]
    exact List.mem_map_of_mem hp
  · cases filter : l.filter with
    | none => rfl
    | some e =>
      rw [filter] at hkept
      obtain ⟨b, hb⟩ := ok_of_filterM hkept _ (List.mem_map_of_mem hp)
      obtain ⟨w, hw, -⟩ := bind_eq_ok.mp hb
      have : M.value e (view M t below row) = w :=
        evaluates.value _ (Layer.mem_exprs_of_filter filter) hw
      rw [passes, filter, Option.all_some, this] at pass
      simp [hw, pass]

/-- Where a stack is evaluated and its keys compare as values, they compare as they are read. -/
theorem uniform_of_select (hbase : tables.get? t.name = some base) {l : Layer} {below : Stack}
    (sound : Sound M.toGrammar t offered (l :: below))
    (typed : ∀ s ∈ (Part.select (l.above (tree t below))).selects, s.OrdersByType tables)
    {rows : List Row} (h : select tables (l.above (tree t below)) .root = .ok rows) :
    Uniform M t base (l :: below) := by
  induction below generalizing l rows with
  | nil => exact ⟨keys_typed hbase sound trivial (typed _ (Select.mem_selects _)) h, trivial⟩
  | cons l' below ih =>
    obtain ⟨rows', hs⟩ := below_of_select h
    have uniform := ih sound.2.2 (fun s hs => typed s (selects_below hs)) hs
    exact ⟨keys_typed hbase sound uniform (typed _ (Select.mem_selects _)) h, uniform⟩

/-- What the compiled tree of a stack answers, where paging needs no nested selects. -/
theorem execute_compiled (full : ∀ row ∈ base, Full offered row)
    (hbase : tables.get? t.name = some base) (paging : ctx.dialect.paging ≠ .nestedTop) {e : Expr}
    (answers : Answers (.unfolded tables ctx.mapping)
      (Meaning.unfolded tables ctx.mapping).toGrammar t offered base made False e supply)
    {r : Rewritten} {supply' : Supply} (run : (Pipeline.run ctx e).run supply = .ok (r, supply'))
    {v : ClientValue} (h : r.tree.execute tables = .ok v) :
    ∃ values, v = .list values ∧ made = values.map some := by
  rw [Pipeline.run, StateT.run_bind] at run
  obtain ⟨⟨r₁, supply₁⟩, run₁, run⟩ := bind_eq_ok.mp run
  obtain ⟨l, below, projector, tree, ready⟩ := leads_passes full _ _ _ _ answers run₁
  have unpaged : ∀ {v}, r₁.tree.execute tables = .ok v →
      ∃ values, v = .list values ∧ made = values.map some := by
    intro v h
    rw [tree] at h
    obtain ⟨values, hv, objects⟩ := execute_ok hbase ready.sound ready.uniform ready.plain h
    exact ⟨values, hv, ready.objects.symm.trans objects⟩
  cases hp : ctx.dialect.paging with
  | nestedTop => exact absurd hp paging
  | offsetFetch =>
    rw [hp] at run
    cases run
    exact unpaged h
  | rowNumber =>
    rw [hp] at run
    simp only [Pipeline.pagingPass?] at run
    rw [StateT.run_bind] at run
    obtain ⟨⟨r₂, supply₂⟩, run₂, run⟩ := bind_eq_ok.mp run
    split at run
    · cases run
      exact unpaged h
    · obtain ⟨paged, -⟩ := Rewritten.next_ok run₂
      obtain ⟨hoisted, -⟩ := Rewritten.next_ok run
      rw [tree] at paged
      have r₂_eq : ((Expr.projection (projected t l below projector)).skipByRowNumbers.run
          supply₁).1 = r₂.tree := congrArg Prod.fst (Except.ok.inj paged)
      have r_eq : r₂.tree.hoistOrderings = r.tree := congrArg Prod.fst (Except.ok.inj hoisted)
      rw [← r_eq, ← r₂_eq] at h
      obtain ⟨values, hv, objects⟩ := execute_numbered full hbase ready.sound ready.uniform
        (ready.refined trivial) ready.named ready.drawn ready.plain h
      exact ⟨values, hv, ready.objects.symm.trans objects⟩

end Stack

theorem extent_pos (p : Part) : ∃ fuel, p.extent = fuel + 1 := by
  rw [Part.extent]
  exact ⟨_, Nat.add_comm _ _⟩

theorem Expr.compile_run (ctx : Context) (q : Expr) (supply : Supply) :
    (q.compile ctx).run supply = match (q.bind ctx).run supply with
      | .error e => .error (.bind e)
      | .ok (bound, supply) => match (Pipeline.run ctx bound).run supply with
        | .error e => .error (.rewrite e)
        | .ok r => .ok r :=
  rfl

/-- What a chain is bound to. -/
theorem Chain.bind_ok {ctx : Context} {q : Expr} {ordered : Bool} {offers : List String → Prop}
    (chain : Chain ctx.mapping ordered q offers) (ordinary : ctx.mapping.Ordinary)
    (supply : Supply) :
    ∃ t offered l below projector supply', (q.bind ctx).run supply
        = .ok (.projection (Stack.projected t l below projector), supply')
      ∧ Stack.Stacked t offered l below projector supply' offers := by
  obtain ⟨fuel, hf⟩ := extent_pos (.expr q)
  obtain ⟨t, offered, l, below, projector, s, run, stacked, -⟩ :=
    chain.bindAt_run fuel ordinary true
      (s := { supply, params := [], groups := [], openGroup := none, pending := [] })
      (fun _ => rfl) (by simp)
  refine ⟨t, offered, l, below, projector, s.supply, ?_, stacked⟩
  rw [Expr.bind_run, hf, run]

/-- What is compiled is what the query is bound to. -/
theorem Expr.compile_ok {ctx : Context} {q bound : Expr} {supply supply' : Supply}
    {compiled : Rewritten × Supply} (binds : (q.bind ctx).run supply = .ok (bound, supply'))
    (compiles : (q.compile ctx).run supply = .ok compiled) :
    (Pipeline.run ctx bound).run supply' = .ok compiled := by
  rw [compile_run, binds] at compiles
  cases h : (Pipeline.run ctx bound).run supply' with
  | error e =>
    simp only [h] at compiles
    cases compiles
  | ok r =>
    simp only [h] at compiles
    rw [Except.ok.inj compiles]

theorem Expr.compile_of_run {ctx : Context} {q : Expr} {supply : Supply} {bound : Expr × Supply}
    {compiled : Rewritten × Supply} (binds : (q.bind ctx).run supply = .ok bound)
    (runs : (Pipeline.run ctx bound.1).run bound.2 = .ok compiled) :
    (q.compile ctx).run supply = .ok compiled := by
  simp only [compile_run, binds, runs]

/-- A tree that is executed evaluates its table and its select. -/
theorem Stack.select_of_execute {tables : Tables} {t : Table} {l : Layer} {below : Stack}
    {projector : Expr} {v : ClientValue}
    (h : (Expr.projection (Stack.projected t l below projector)).execute tables = .ok v) :
    ∃ rows, select tables (l.above (Stack.tree t below)) .root = .ok rows := by
  simp only [Expr.execute] at h
  obtain ⟨⟨v', cache⟩, run, -⟩ := bind_eq_ok.mp h
  rw [client, project, StateT.run_bind] at run
  obtain ⟨⟨rows, cache'⟩, run, -⟩ := bind_eq_ok.mp run
  obtain ⟨rows', hs, -⟩ := bind_eq_ok.mp run
  exact ⟨rows', hs⟩

/-- What a chain that is bound and executed means as a stack. -/
theorem Chain.answers {ctx : Context} {q : Expr} {ordered : Bool} {offers : List String → Prop}
    (chain : Chain ctx.mapping ordered q offers) (ordinary : ctx.mapping.Ordinary)
    {supply : Supply} {bound : Expr × Supply} (binds : (q.bind ctx).run supply = .ok bound)
    {tables : Tables} (typed : bound.1.OrdersByType tables) {v : ClientValue}
    (h : bound.1.execute tables = .ok v) :
    ∃ t offered base values, v = .list values ∧ tables.get? t.name = some base
      ∧ (∀ row ∈ base, Stack.Full offered row)
      ∧ Stack.Answers (.unfolded tables ctx.mapping)
        (Meaning.unfolded tables ctx.mapping).toGrammar t offered base (values.map some) False
        bound.1 bound.2 := by
  obtain ⟨t, offered, l, below, projector, supply', run, stacked⟩ := chain.bind_ok ordinary supply
  obtain rfl := Except.ok.inj (run.symm.trans binds)
  obtain ⟨rows, evaluated⟩ := Stack.select_of_execute h
  obtain ⟨base, hbase⟩ := Stack.base_of_select evaluated
  have full := Stack.full_of_select (M := .unfolded tables ctx.mapping) hbase stacked.sound
    stacked.grounded evaluated
  have uniform := Stack.uniform_of_select (M := .unfolded tables ctx.mapping) hbase stacked.sound
    (fun s hs => typed s (Projection.selects_subset _ hs)) evaluated
  obtain ⟨values, hv, objects⟩ := Stack.execute_ok (M := .unfolded tables ctx.mapping) hbase
    stacked.sound uniform stacked.plain h
  exact ⟨t, offered, base, values, hv, hbase, full, l, below, projector, rfl, stacked.sound,
    stacked.plain, stacked.named, stacked.drawn, uniform, False.elim, objects⟩

/-- A chain of filters, mappings, orderings and pages is compiled to a tree that answers what the
tree it is bound to answers, with its rows in the same order, for every dialect that does not page by
nested selects. -/
theorem Chain.execute_compile_eq {ctx : Context} {q : Expr} {ordered : Bool}
    {offers : List String → Prop} (chain : Chain ctx.mapping ordered q offers)
    (ordinary : ctx.mapping.Ordinary) (paging : ctx.dialect.paging ≠ .nestedTop)
    {supply : Supply} {bound : Expr × Supply} {compiled : Rewritten × Supply}
    (binds : (q.bind ctx).run supply = .ok bound)
    (compiles : (q.compile ctx).run supply = .ok compiled) {tables : Tables}
    (typed : bound.1.OrdersByType tables) {v v' : ClientValue} (h : bound.1.execute tables = .ok v)
    (h' : compiled.1.tree.execute tables = .ok v') : v' = v := by
  obtain ⟨t, offered, base, values, rfl, hbase, full, answers⟩ :=
    chain.answers ordinary binds typed h
  obtain ⟨values', rfl, same⟩ := Stack.execute_compiled full hbase paging answers
    (Expr.compile_ok binds compiles) h'
  rw [(List.map_inj_right fun _ _ => Option.some.inj).mp same]

section Running

variable {ctx : Context} {passes more : List Pass} {e e₁ e₂ : Expr} {supply supply₁ supply₂ : Supply}

def Pipeline.trees (ctx : Context) (passes : List Pass) (e : Expr) : Minting RewriteError Expr :=
  passes.foldlM (fun e pass => pass.apply ctx e) e

theorem Pipeline.trees_append (h : (trees ctx passes e).run supply = .ok (e₁, supply₁))
    (h' : (trees ctx more e₁).run supply₁ = .ok (e₂, supply₂)) :
    (trees ctx (passes ++ more) e).run supply = .ok (e₂, supply₂) := by
  rw [trees, List.foldlM_append, StateT.run_bind]
  rw [trees] at h
  rw [h]
  exact h'

theorem Pipeline.foldlM_run (h : (trees ctx passes e).run supply = .ok (e₁, supply₁))
    (notes : List Pass) : ∃ notes', (passes.foldlM (Rewritten.next ctx) ⟨e, notes⟩).run supply
      = .ok (⟨e₁, notes'⟩, supply₁) := by
  induction passes generalizing e supply notes with
  | nil =>
    cases h
    exact ⟨notes, rfl⟩
  | cons pass rest ih =>
    rw [trees, List.foldlM_cons, StateT.run_bind] at h
    obtain ⟨⟨e', supply'⟩, run, h⟩ := bind_eq_ok.mp h
    obtain ⟨notes', runs⟩ := ih h (if e' == e then notes else notes ++ [pass])
    refine ⟨notes', ?_⟩
    rw [List.foldlM_cons, StateT.run_bind, Rewritten.next, StateT.run_bind, run]
    exact runs

namespace Stack

variable {tables : Tables} {t : Table} {offered : List String} {base : List Row}
  {made : List (Option ClientValue)}

/-- The passes that look for what no stack has can be left out, and so can the one that expands
comparisons where there is none to expand. -/
theorem run_passes (full : ∀ row ∈ base, Full offered row)
    (answers : Answers (.unfolded tables ctx.mapping)
      (Meaning.unfolded tables ctx.mapping).toGrammar t offered base made False e supply)
    (native : ctx.dialect.paging = .offsetFetch)
    (before : (Pipeline.trees ctx [.groupColumns, .unusedColumns, .layers, .orderings] e).run supply
      = .ok (e₁, supply₁))
    (settled : Comparisons.settled ctx.mapping (.expr e₁) = true)
    (after : (Pipeline.trees ctx [.crossJoins, .applies, .repeatedJoins, .layers, .repeatedJoins,
      .unusedColumns, .repeatedColumns] e₁).run supply₁ = .ok (e₂, supply₂)) :
    ∃ compiled, (Pipeline.run ctx e).run supply = .ok compiled ∧ compiled.1.tree = e₂ := by
  have leads : Pipeline.Leads ctx
      (Answers (.unfolded tables ctx.mapping) (Meaning.unfolded tables ctx.mapping).toGrammar t
        offered base made False) ([.groupColumns, .unusedColumns, .layers] ++ [.orderings])
      (Answers (.unfolded tables ctx.mapping)
        (Meaning.unfolded tables ctx.mapping).toGrammar.loosened t offered base made True) :=
    (Pipeline.Leads.keep fun pass hp => leads_of_agrees full pass (by simp at hp ⊢; tauto)).append
      (.cons (leads_orderings full) .nil)
  obtain ⟨notes, run₁⟩ := Pipeline.foldlM_run before []
  have hoisted := leads _ _ _ _ answers run₁
  have expands : (Pass.apply ctx .comparisons e₁).run supply₁ = .ok (e₁, supply₁) := by
    simp only [Pass.apply, Expr.expandComparisons_settled _ _ settled]
    rfl
  have expanded := leads_comparisons _ _ _ _ hoisted expands
  have middle : (Pipeline.trees ctx [.associations, .comparisons, .singletons, .clientJoins] e₁).run
      supply₁ = .ok (e₁, supply₁) := by
    obtain ⟨l, below, projector, rfl, stack⟩ := hoisted
    obtain ⟨l', below', projector', same, ready⟩ := expanded
    have follows : (Pass.apply ctx .associations _).run supply₁ = .ok (_, supply₁) :=
      followAssociations_run (fun impossible => impossible) stack.sound stack.plain ctx.mapping supply₁
    have singletons : (Pass.apply ctx .singletons _).run supply₁ = .ok (_, supply₁) :=
      congrArg Except.ok (withSingletonsJoined_run ctx ready.plain supply₁)
    have clientJoins : (Pass.apply ctx .clientJoins _).run supply₁ = .ok (_, supply₁) :=
      congrArg Except.ok (withClientJoins_run ctx.affinity ready.plain supply₁)
    rw [← same] at singletons clientJoins
    simp only [Pipeline.trees, List.foldlM_cons, List.foldlM_nil, StateT.run_bind, follows, expands,
      singletons, clientJoins, ok_bind]
    rfl
  obtain ⟨notes', run⟩ := Pipeline.foldlM_run
    (Pipeline.trees_append (Pipeline.trees_append before middle) after) []
  refine ⟨(⟨e₂, notes'⟩, supply₂), ?_, rfl⟩
  rw [Pipeline.run, StateT.run_bind]
  have all : (Pipeline.passes.foldlM (Rewritten.next ctx) ⟨e, []⟩).run supply
      = .ok (⟨e₂, notes'⟩, supply₂) := run
  rw [all, native]
  rfl

end Stack

end Running

namespace Sample

def staffPage : Expr :=
  let e : Param := ⟨0⟩
  let page := Query.table "Employee"
    |>.filter ⟨[e], .binary .gt (.member (.param e) "ID") (.int 1)⟩
    |>.orderBy .descending ⟨[e], .member (.param e) "BossID"⟩
    |>.skip 1 |>.take 2
  (page.map ⟨[e], .construct none [⟨"Name", .member (.param e) "Name"⟩,
    ⟨"First", .equals (.member (.param e) "BossID") (.int 1)⟩]⟩).expr

end Sample

theorem Sample.chain_staffPage (dialect : Dialect) (affinity : Affinity) :
    Chain (context dialect affinity).mapping false staffPage
      (Makes ⟨0⟩ employee.Offers (.construct none [⟨"Name", .member (.param ⟨0⟩) "Name"⟩,
        ⟨"First", .equals (.member (.param ⟨0⟩) "BossID") (.int 1)⟩])) := by
  have member : ∀ {name : String}, name ∈ employee.members.map (·.name) →
      Makes ⟨0⟩ employee.Offers (.member (.param ⟨0⟩) name) [] := by
    intro name h
    obtain ⟨m, hm, rfl⟩ := List.mem_map.mp h
    exact .member (.param (.inr ⟨m, hm, rfl⟩))
  have number : ∀ n, Makes ⟨0⟩ employee.Offers (.int n) [] := fun n => .const (.int n)
  refine .map (.take 2 (.skip 1 (.orderBy (.filter (.table rfl)
    (.binary (member (by decide)) (number 1))) (member (by decide))))) (.construct ?_)
  intro f hf
  simp only [List.mem_cons, List.not_mem_nil, or_false] at hf
  obtain rfl | rfl := hf
  · exact member (by decide)
  · exact .binary (member (by decide)) (number 1)

/-- Both trees of the page are executed. -/
theorem Sample.execute_staffPage : ∃ bound compiled v v',
    (staffPage.bind (context .ansi .server)).run ⟨1⟩ = .ok bound
      ∧ (staffPage.compile (context .ansi .server)).run ⟨1⟩ = .ok compiled
      ∧ bound.1.execute tables = .ok v ∧ compiled.1.tree.execute tables = .ok v' ∧ v' = v := by
  have extent : (Part.expr staffPage).extent = 21 := by decide +kernel
  have all : ((staffPage.bind (context .ansi .server)).run ⟨1⟩).toOption.any (fun bound =>
      decide (bound.1.OrdersByType tables) && (bound.1.execute tables).toOption.any fun _ =>
        ((Pipeline.trees (context .ansi .server) [.groupColumns, .unusedColumns, .layers, .orderings]
          bound.1).run bound.2).toOption.any fun r =>
          Comparisons.settled (context .ansi .server).mapping (.expr r.1)
          && ((Pipeline.trees (context .ansi .server) [.crossJoins, .applies, .repeatedJoins, .layers,
            .repeatedJoins, .unusedColumns, .repeatedColumns] r.1).run r.2).toOption.any fun r' =>
            (r'.1.execute tables).toOption.any fun _ => true) = true := by
    unfold Expr.bind
    rw [extent]
    simp only [staffPage, Query.table, Query.filter, Query.orderBy, Query.skip, Query.take,
      Query.map, Expr.int, Expr.equals, Expr.bindAt, Operator.mapMem, Operator.bind, Lambda.toBody,
      Expr.traverse, List.mapM_subtype, List.unattach_attach, List.mapM_cons, List.mapM_nil]
    decide +kernel
  obtain ⟨bound, binds, all⟩ := exists_ok_of_any all
  obtain ⟨typed, all⟩ := Bool.and_eq_true_iff.mp all
  obtain ⟨v, executes, all⟩ := exists_ok_of_any all
  obtain ⟨⟨e₁, supply₁⟩, before, all⟩ := exists_ok_of_any all
  obtain ⟨settled, all⟩ := Bool.and_eq_true_iff.mp all
  obtain ⟨⟨e₂, supply₂⟩, after, all⟩ := exists_ok_of_any all
  obtain ⟨v', executes', -⟩ := exists_ok_of_any all
  have typed := of_decide_eq_true typed
  have chain := chain_staffPage .ansi .server
  have ordinary : (context .ansi .server).mapping.Ordinary := by
    unfold Mapping.Ordinary
    decide
  obtain ⟨t, offered, base, values, -, -, full, answers⟩ := chain.answers ordinary binds typed executes
  obtain ⟨compiled, run, rfl⟩ := Stack.run_passes full answers rfl before settled after
  have compiles : (staffPage.compile (context .ansi .server)).run ⟨1⟩ = .ok compiled :=
    Expr.compile_of_run binds run
  exact ⟨bound, compiled, v, v', binds, compiles, executes, executes',
    chain.execute_compile_eq ordinary (by decide) binds compiles typed executes executes'⟩

end ObjectQuery
