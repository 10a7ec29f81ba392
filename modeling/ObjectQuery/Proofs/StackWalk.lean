import ObjectQuery.Compile
import ObjectQuery.Proofs.Stack

/-!
Passes that have nothing to do on a stack. None of its nodes joins, groups, nests a projection or
follows an association, so most passes walk over it and leave it as it is.
-/

namespace ObjectQuery

variable {m : Type → Type} [Monad m] [LawfulMonad m] {σ : Type} (Y : Yields m σ) {s r : σ}

/-- A layer is walked source first; its other clauses are walked in what state that leaves. -/
theorem Layer.traverse_gives (pass : Expr → m Expr) {f : Expr → Expr} {l : Layer}
    {source source' : Expr} (below : Y.gives s (pass source) source' r)
    (clauses : ∀ e ∈ l.exprs, Y.gives r (pass e) (f e) r)
    (counts : ∀ n, Y.gives r (pass (Layer.count n)) (Layer.count n) r) :
    Y.gives s ((l.above source).traverse fun e _ => pass e) ((l.mapExprs f).above source') r := by
  have columns : ∀ d ∈ l.columns, Y.gives r (pass d.expr) (f d.expr) r := fun d hd =>
    clauses _ (mem_exprs_of_column hd)
  have filter : ∀ e ∈ l.filter, Y.gives r (pass e) (f e) r := fun e he =>
    clauses _ (mem_exprs_of_filter he)
  have orders : ∀ o ∈ l.orderBy, Y.gives r (pass o.expr) (f o.expr) r := fun o ho =>
    clauses _ (mem_exprs_of_order ho)
  have counted : ∀ o : Option Nat, Y.gives r ((o.map count).mapM pass) (o.map count) r := by
    intro o
    cases o with
    | none => exact Y.pure _ _
    | some n => exact Y.map some (counts n)
  simp only [Select.traverse, optionMapM_attach, List.mapM_subtype, List.unattach_attach]
  refine Y.bind (Y.map some below) ?_
  refine Y.bind (Y.optionMapM_map filter) ?_
  refine Y.bind (Y.mapM_map fun o ho => Y.bind (orders o ho) (Y.pure _ _)) ?_
  refine Y.bind (Y.pure _ _) ?_
  refine Y.bind (counted l.skip) ?_
  refine Y.bind (counted l.take) ?_
  exact Y.bind (Y.mapM_map fun d hd => Y.bind (columns d hd) (Y.pure _ _)) (Y.pure _ _)

theorem Layer.mem_exprs_over {l : Layer} {source e : Expr} (h : e ∈ (l.above source).exprs) :
    e = source ∨ (∃ n, e = Layer.count n) ∨ e ∈ l.exprs := by
  simp only [Select.exprs, above, Option.toList_some, List.append_nil, List.mem_append,
    List.mem_singleton, Option.mem_toList, Option.map_eq_some_iff] at h
  simp only [exprs, List.mem_append, Option.mem_toList]
  rcases h with ((((rfl | h) | h) | ⟨n, -, rfl⟩) | ⟨n, -, rfl⟩) | h
  · exact .inl rfl
  · exact .inr (.inr (.inl (.inr h)))
  · exact .inr (.inr (.inr h))
  · exact .inr (.inl ⟨n, rfl⟩)
  · exact .inr (.inl ⟨n, rfl⟩)
  · exact .inr (.inr (.inl (.inl h)))

theorem Part.gather_eq_nil {α : Type} {visit : Part → List α} {enters : Part → Bool} {p : Part}
    (here : visit p = []) (below : ∀ q ∈ p.parts, q.gather visit enters = []) :
    p.gather visit enters = [] := by
  rw [Part.gather, here, List.nil_append]
  split
  · simp only [List.flatMap_eq_nil_iff]
    exact fun q _ => below q.1 q.2
  · rfl

namespace Plain

variable {members : Prop} {P : Column → Prop} {e : Expr}

theorem groupColumns_run (h : Plain members P e) (state : GroupColumns.State) :
    e.groupColumns.run state = (e, state) :=
  h.walk_self (Yields.ofState _) _ Select.groupColumns Projection.groupColumns fun e he h => by
    cases he <;> rw [Expr.groupColumns] <;> first | exact h | simp

theorem follow_run (h : Plain False P e) (mapping : Mapping) (fuel : Nat)
    (state : Associations.State) : (e.follow mapping fuel).run state = .ok (e, state) :=
  h.walk_self (Yields.ofStateOk _ _) _ (Select.follow mapping fuel)
    (Projection.follow mapping fuel) fun e he h => by
    cases he with
    | member open_ _ => exact open_.elim
    | _ => rw [Expr.follow] <;> first | exact h | simp

theorem joinNested_run (h : Plain members P e) (affinity : Affinity) (fuel : Nat)
    (owner : Option (Select Expr)) (supply : Supply) :
    (e.joinNested affinity fuel owner).run supply = (e, supply) :=
  h.walk_self (Yields.ofState _) _ (Select.joinNested affinity fuel owner)
    (Projection.joinNested affinity fuel) fun e he h => by
    cases he <;> rw [Expr.joinNested] <;> first | exact h | simp

theorem isolateJoins_run (h : Plain members P e) (read : List Column) (parent : Option JoinKind)
    (supply : Supply) : (e.isolateJoins read parent).run ⟨supply, []⟩ = (e, ⟨supply, []⟩) :=
  h.walk_self (Yields.ofState _) _ (Select.isolateJoins read)
    (Projection.isolateJoins read parent) fun e he h => by
    cases he <;> rw [Expr.isolateJoins] <;> first | exact h | simp

theorem bottomUp_gives (h : Plain members P e) {finish : Finish m}
    (onPlain : ∀ e, Plain members P e → Y.gives s (finish.expr e) e s) :
    Y.gives s (e.bottomUp finish) e s :=
  h.walk_self Y _ (Select.bottomUp finish) (Projection.bottomUp finish) fun e he h => by
    rw [Expr.bottomUp]
    exact Y.bind h (onPlain e he)

theorem joinSingletons_run (h : Plain members P e) (ctx : Context) (fuel : Nat)
    (place : Singletons.Place) (state : Singletons.State) :
    (e.joinSingletons ctx fuel place).run state = (e, state) := by
  let Y := Yields.ofState Singletons.State
  induction h generalizing place with
  | const _ | column _ => rw [Expr.joinSingletons] <;> first | rfl | simp
  | binary _ _ hl hr =>
    rw [Expr.joinSingletons]
    · exact Y.bind (hl place) (Y.bind (hr place) (Y.pure _ _))
    all_goals simp
  | unary _ h | entity _ h | isNull _ h | member _ _ h =>
    rw [Expr.joinSingletons]
    · exact Y.bind (h place) (Y.pure _ _)
    all_goals simp
  | cond _ _ _ ht hl hr =>
    rw [Expr.joinSingletons]
    · exact Y.bind (ht place) (Y.bind (hl place) (Y.bind (hr place) (Y.pure _ _)))
    all_goals simp
  | call _ h =>
    rw [Expr.joinSingletons]
    · have args := Y.mapM_map fun a ha => h a ha place
      rw [List.map_id'] at args
      simp only [Expr.traverse, List.mapM_subtype, List.unattach_attach]
      exact Y.bind args (Y.pure _ _)
    all_goals simp
  | @construct typeName fields _ h =>
    have each : ∀ f ∈ fields, Y.gives state (do
        return { f with expr := ← f.expr.joinSingletons ctx fuel (some (typeName, f.name)) })
        f state := fun f hf => Y.bind (h f hf _) (Y.pure _ _)
    have all := Y.mapM_map each
    rw [List.map_id'] at all
    rw [Expr.joinSingletons]
    simp only [List.mapM_subtype, List.unattach_attach]
    exact Y.bind all (Y.pure _ _)

end Plain

namespace Stack

variable {G : Grammar} {t : Table} {offered : List String} {stack : Stack}

/-- A walk that finds nothing at selects, tables and plain expressions finds nothing in a stack. -/
theorem gather_tree {α : Type} {visit : Part → List α} {enters : Part → Bool}
    (sound : Sound G t offered stack) (onTable : visit (.expr (.table t)) = [])
    (onPlain : ∀ P e, Plain G.members P e → visit (.expr e) = [])
    (onSelect : ∀ q, visit (.select q) = []) (onTree : ∀ q, visit (.expr (.select q)) = []) :
    (Part.expr (tree t stack)).gather visit enters = [] := by
  induction stack with
  | nil => exact Part.gather_eq_nil onTable (by simp [tree, Part.parts])
  | cons l below ih =>
    refine Part.gather_eq_nil (onTree _) fun p hp => ?_
    obtain rfl := List.mem_singleton.mp hp
    refine Part.gather_eq_nil (onSelect _) fun p hp => ?_
    obtain ⟨e, he, rfl⟩ := List.mem_map.mp hp
    rcases Layer.mem_exprs_over he with rfl | ⟨n, rfl⟩ | he
    · exact ih sound.2.2
    · have count : Plain G.members (fun _ => False) (Layer.count n) := .const (.int n)
      exact count.gather_eq_nil fun e he => onPlain _ e he
    · exact (sound.2.1.plain e he).gather_eq_nil fun e he => onPlain _ e he

theorem gather_projection {α : Type} {visit : Part → List α} {l : Layer} {below : Stack}
    {projector : Expr} (sound : Sound G t offered (l :: below))
    (plain : Plain G.members (Sees t offered (l :: below)) projector)
    (onTable : visit (.expr (.table t)) = [])
    (onPlain : ∀ P e, Plain G.members P e → visit (.expr e) = [])
    (onSelect : ∀ q, visit (.select q) = []) (onTree : ∀ q, visit (.expr (.select q)) = [])
    (onProjection : ∀ p, visit (.projection p) = [] ∧ visit (.expr (.projection p)) = []) :
    (Part.expr (.projection (projected t l below projector))).gather visit (fun _ => true) = [] := by
  have whole : (Part.expr (tree t (l :: below))).gather visit (fun _ => true) = [] :=
    gather_tree sound onTable onPlain onSelect onTree
  have select : (Part.select (l.above (tree t below))).gather visit (fun _ => true) = [] := by
    rw [tree, Part.gather, onTree] at whole
    simpa [Part.parts] using whole
  refine Part.gather_eq_nil (onProjection _).2 fun p hp => ?_
  obtain rfl := List.mem_singleton.mp hp
  refine Part.gather_eq_nil (onProjection _).1 fun p hp => ?_
  simp only [Part.parts, List.mem_cons, List.not_mem_nil, or_false] at hp
  rcases hp with rfl | rfl
  · exact select
  · exact plain.gather_eq_nil fun e he => onPlain _ e he

/-- A pass that does nothing at tables, plain expressions and selects does nothing to a stack. -/
theorem walk_tree {pass : Expr → m Expr} (sound : Sound G t offered stack)
    (onTable : Y.gives s (pass (.table t)) (.table t) s)
    (onPlain : ∀ {P e}, Plain G.members P e → Y.gives s (pass e) e s)
    (onSelect : ∀ {q q'}, Y.gives s (q.traverse fun e _ => pass e) q' s →
      Y.gives s (pass (.select q)) (.select q') s) :
    Y.gives s (pass (tree t stack)) (tree t stack) s := by
  induction stack with
  | nil => exact onTable
  | cons l below ih =>
    have counts : ∀ n, Plain G.members (fun _ => False) (Layer.count n) := fun n => .const (.int n)
    have step := onSelect (Layer.traverse_gives Y _ (f := fun e => e) (ih sound.2.2)
      (fun e he => onPlain (sound.2.1.plain e he)) fun n => onPlain (counts n))
    rwa [Layer.mapExprs_self fun _ _ => rfl] at step

/-- The same for a projection. -/
theorem walk_projection (pass : Expr → m Expr) (onSelect : Select Expr → m (Select Expr))
    {l : Layer} {below : Stack} {projector : Expr} (sound : Sound G t offered (l :: below))
    (plain : Plain G.members (Sees t offered (l :: below)) projector)
    (onTable : Y.gives s (pass (.table t)) (.table t) s)
    (onPlain : ∀ {P e}, Plain G.members P e → Y.gives s (pass e) e s)
    (onTree : ∀ {q q'}, Y.gives s (onSelect q) q' s → Y.gives s (pass (.select q)) (.select q') s)
    (onLayer : ∀ {q q'}, Y.gives s (q.traverse fun e _ => pass e) q' s → Y.gives s (onSelect q) q' s) :
    Y.gives s ((projected t l below projector).traverse (fun e _ => pass e) fun q _ => onSelect q)
      (projected t l below projector) s := by
  have source := walk_tree Y sound.2.2 onTable onPlain fun h => onTree (onLayer h)
  have counts : ∀ n, Plain G.members (fun _ => False) (Layer.count n) := fun n => .const (.int n)
  have step := onLayer (Layer.traverse_gives Y _ (f := fun e => e) source
    (fun e he => onPlain (sound.2.1.plain e he)) fun n => onPlain (counts n))
  rw [Layer.mapExprs_self fun _ _ => rfl] at step
  exact Y.bind step (Y.bind (onPlain plain) (Y.pure _ _))

section Passes

variable {l : Layer} {below : Stack} {projector : Expr}

theorem candidates_eq (sound : Sound G t offered (l :: below))
    (plain : Plain G.members (Sees t offered (l :: below)) projector) :
    GroupColumns.candidates (.projection (projected t l below projector)) = [] := by
  rw [GroupColumns.candidates, gather_projection sound plain rfl
    (fun _ _ h => by cases h <;> rfl) (fun _ => rfl) (fun _ => rfl) (fun _ => ⟨rfl, rfl⟩)]
  rfl

theorem withGroupColumns_eq (sound : Sound G t offered (l :: below))
    (plain : Plain G.members (Sees t offered (l :: below)) projector) :
    (Expr.projection (projected t l below projector)).withGroupColumns
      = .projection (projected t l below projector) := by
  let Y := Yields.ofState GroupColumns.State
  have step := walk_projection Y Expr.groupColumns Select.groupColumns (s := ⟨[], []⟩)
    sound plain (by rw [Expr.groupColumns] <;> first | rfl | simp)
    (fun h => h.groupColumns_run _)
    (fun h => by rw [Expr.groupColumns] <;> first | exact Y.bind h (Y.pure _ _) | simp)
    (fun h => by
      rw [Select.groupColumns]
      exact Y.bind h rfl)
  have run : Y.gives ⟨[], []⟩ (Expr.projection (projected t l below projector)).groupColumns
      (.projection (projected t l below projector)) ⟨[], []⟩ := by
    rw [Expr.groupColumns]
    · refine Y.bind (?_ : Y.gives _ (Projection.groupColumns _) _ _) (Y.pure _ _)
      rw [Projection.groupColumns]
      exact step
    · simp
  rw [Expr.withGroupColumns, candidates_eq sound plain]
  exact congrArg Prod.fst run

theorem withCrossJoinsIsolated_run (sound : Sound G t offered (l :: below))
    (plain : Plain G.members (Sees t offered (l :: below)) projector) (supply : Supply) :
    (Expr.projection (projected t l below projector)).withCrossJoinsIsolated supply
      = (.projection (projected t l below projector), supply) := by
  let Y := Yields.ofState CrossJoins.State
  generalize hr : (Expr.projection (projected t l below projector)).columns = read
  have step := walk_projection Y (Expr.isolateJoins read none) (Select.isolateJoins read)
    (s := ⟨supply, []⟩) sound plain (by rw [Expr.isolateJoins] <;> first | rfl | simp)
    (fun h => h.isolateJoins_run _ _ _)
    (fun h => by rw [Expr.isolateJoins] <;> first | exact Y.bind h (Y.pure _ _) | simp)
    (fun h => by
      rw [Select.isolateJoins]
      exact h)
  have run : Y.gives ⟨supply, []⟩
      ((Expr.projection (projected t l below projector)).isolateJoins read none)
      (.projection (projected t l below projector)) ⟨supply, []⟩ := by
    rw [Expr.isolateJoins]
    · refine Y.bind (?_ : Y.gives _ (Projection.isolateJoins _ _ _) _ _) (Y.pure _ _)
      rw [Projection.isolateJoins]
      exact step
    all_goals simp
  simp only [Expr.withCrossJoinsIsolated, hr]
  rw [show ((Expr.projection (projected t l below projector)).isolateJoins read none).run ⟨supply, []⟩
    = _ from run]

/-- A pass that works from the leaves up has nothing to do where its last step has nothing to do. -/
theorem bottomUp_gives (sound : Sound G t offered (l :: below))
    (plain : Plain G.members (Sees t offered (l :: below)) projector) (finish : Finish m)
    (onTable : Y.gives s (finish.expr (.table t)) (.table t) s)
    (onPlain : ∀ P e, Plain G.members P e → Y.gives s (finish.expr e) e s)
    (onTree : ∀ q, Y.gives s (finish.expr (.select q)) (.select q) s)
    (onSelect : ∀ q, Y.gives s (finish.select q) q s)
    (onProjection : ∀ p, Y.gives s (finish.expr (.projection p)) (.projection p) s) :
    Y.gives s ((Expr.projection (projected t l below projector)).bottomUp finish)
      (.projection (projected t l below projector)) s := by
  have step := walk_projection Y (Expr.bottomUp finish) (Select.bottomUp finish) (s := s)
    sound plain
    (by
      rw [Expr.bottomUp]
      exact Y.bind (Y.pure _ _) onTable)
    (fun h => h.bottomUp_gives Y fun e he => onPlain _ e he)
    (fun h => by
      rw [Expr.bottomUp]
      exact Y.bind (Y.bind h (Y.pure _ _)) (onTree _))
    (fun h => by
      rw [Select.bottomUp]
      exact Y.bind h (onSelect _))
  rw [Expr.bottomUp]
  refine Y.bind (Y.bind (?_ : Y.gives _ (Projection.bottomUp _ _) _ _) (Y.pure _ _)) (onProjection _)
  rw [Projection.bottomUp]
  exact step

theorem downgradeApplies_eq (sound : Sound G t offered (l :: below))
    (plain : Plain G.members (Sees t offered (l :: below)) projector) (affinity : Affinity) :
    (Expr.projection (projected t l below projector)).downgradeApplies affinity
      = .projection (projected t l below projector) :=
  bottomUp_gives Yields.ofId (s := ()) sound plain _ rfl (fun _ _ h => by cases h <;> rfl)
    (fun _ => rfl) (fun _ => rfl) fun _ => rfl

theorem dropRepeatedJoins_eq (sound : Sound G t offered (l :: below))
    (plain : Plain G.members (Sees t offered (l :: below)) projector) :
    (Expr.projection (projected t l below projector)).dropRepeatedJoins
      = .projection (projected t l below projector) := by
  have run := bottomUp_gives (Yields.ofState RepeatedJoins.Replaced) (s := []) sound plain
    ⟨RepeatedJoins.finish, pure⟩ rfl (fun _ _ h => by cases h <;> rfl)
    (fun _ => rfl) (fun _ => rfl) fun _ => rfl
  exact congrArg Prod.fst run

theorem withSingletonsJoined_run (ctx : Context)
    (plain : Plain G.members (Sees t offered (l :: below)) projector) (supply : Supply) :
    (Expr.projection (projected t l below projector)).withSingletonsJoined ctx supply
      = (.projection (projected t l below projector), supply) := by
  let Y := Yields.ofState Singletons.State
  have run : ∀ fuel, Y.gives ⟨supply, none⟩
      ((Expr.projection (projected t l below projector)).joinSingletons ctx fuel none)
      (.projection (projected t l below projector)) ⟨supply, none⟩ := by
    intro fuel
    have walk : Y.gives ⟨supply, none⟩
        ((projected t l below projector).joinSingletons ctx fuel none)
        (projected t l below projector) ⟨supply, none⟩ := by
      rw [Projection.joinSingletons]
      refine Y.bind (?_ : Y.gives _ _ none ⟨supply, some (l.above (tree t below))⟩) ?_
      · rfl
      · exact Y.bind (plain.joinSingletons_run ctx fuel none _) rfl
    rw [Expr.joinSingletons]
    exact Y.bind (rfl : Y.gives _ get ⟨supply, none⟩ _) (Y.bind walk (Y.pure _ _))
  simp only [Expr.withSingletonsJoined]
  rw [show StateT.run _ _ = _ from run _]

theorem withClientJoins_run (affinity : Affinity)
    (plain : Plain G.members (Sees t offered (l :: below)) projector) (supply : Supply) :
    (Expr.projection (projected t l below projector)).withClientJoins affinity supply
      = (.projection (projected t l below projector), supply) := by
  let Y := Yields.ofState Supply
  have walk : ∀ fuel, Y.gives supply ((projected t l below projector).joinNested affinity fuel)
      (projected t l below projector) supply := by
    intro fuel
    rw [Projection.joinNested]
    exact Y.bind (plain.joinNested_run affinity fuel _ supply) (Y.pure _ _)
  rw [Expr.withClientJoins, Expr.joinNested]
  exact Y.bind (walk _) (Y.pure _ _)

theorem follow_layer (closed : G.members → False) {P : Column → Prop} (fits : l.Fits G P)
    (mapping : Mapping) (fuel : Nat) {source : Expr}
    (below : ∀ state, (source.follow mapping fuel).run state = .ok (source, state))
    (state : Associations.State) :
    (Select.follow mapping fuel (l.above source)).run state = .ok (l.above source, state) := by
  let Y := Yields.ofStateOk Associations.State RewriteError
  have onPlain : ∀ {e}, Plain G.members P e → ∀ state,
      Y.gives state (e.follow mapping fuel) e state := fun h state =>
    (h.mono closed fun _ hc => hc).follow_run mapping fuel state
  have counts : ∀ (o : Option Nat) state,
      Y.gives state ((o.map Layer.count).mapM (Expr.follow mapping fuel)) (o.map Layer.count) state := by
    intro o state
    cases o with
    | none => exact Y.pure _ _
    | some n => exact Y.map some (onPlain (.const (.int n)) state)
  let inside : Associations.State := { state with source := some source }
  have entered : Y.gives state (modifyGet fun s : Associations.State =>
      (s.source, { s with source := some source })) state.source inside := rfl
  have left : Y.gives inside (modifyGet fun s : Associations.State =>
      (s.source, { s with source := state.source })) (some source) state := rfl
  have filter := Y.optionMapM_map fun e he => onPlain (fits.filter (e := e) he) inside
  have orders := Y.mapM_map fun o (ho : o ∈ l.orderBy) =>
    (Y.bind (onPlain (fits.order ho) inside) (Y.pure _ _) : Y.gives inside (do
      return { o with expr := ← o.expr.follow mapping fuel }) o inside)
  have columns := Y.mapM_map fun d (hd : d ∈ l.columns) =>
    (Y.bind (onPlain (fits.column hd) inside) (Y.pure _ _) : Y.gives inside (do
      return { d with expr := ← d.expr.follow mapping fuel }) d inside)
  rw [Option.map_id'] at filter
  rw [List.map_id'] at orders columns
  rw [Select.follow]
  simp only [optionMapM_attach, List.mapM_subtype, List.unattach_attach]
  refine Y.bind (Y.map some (below state)) ?_
  refine Y.bind entered ?_
  refine Y.bind filter (Y.bind orders (Y.bind (Y.pure _ _) ?_))
  refine Y.bind (counts l.skip inside) (Y.bind (counts l.take inside) (Y.bind columns ?_))
  exact Y.bind left (Y.pure _ _)

theorem followAssociations_run (closed : G.members → False) (sound : Sound G t offered (l :: below))
    (plain : Plain G.members (Sees t offered (l :: below)) projector) (mapping : Mapping)
    (supply : Supply) :
    (Expr.projection (projected t l below projector)).followAssociations mapping supply
      = .ok (.projection (projected t l below projector), supply) := by
  let Y := Yields.ofStateOk Associations.State RewriteError
  have source : ∀ (s : Stack), Sound G t offered s → ∀ fuel state,
      ((tree t s).follow mapping fuel).run state = .ok (tree t s, state) := by
    intro s sound fuel
    induction s with
    | nil =>
      intro state
      rw [tree, Expr.follow] <;> first | rfl | simp
    | cons l below ih =>
      intro state
      rw [tree, Expr.follow]
      · exact Y.bind (follow_layer closed sound.2.1 mapping fuel (ih sound.2.2) state) (Y.pure _ _)
      · simp
  have run : ∀ fuel, Y.gives ⟨supply, none⟩
      ((Expr.projection (projected t l below projector)).follow mapping fuel)
      (.projection (projected t l below projector)) ⟨supply, none⟩ := by
    intro fuel
    have select := follow_layer closed sound.2.1 mapping fuel (source below sound.2.2 fuel)
      ⟨supply, none⟩
    have projector := (plain.mono closed fun _ hc => hc).follow_run mapping fuel ⟨supply, none⟩
    rw [Expr.follow]
    · refine Y.bind (?_ : Y.gives _ (Projection.follow _ _ _) _ _) (Y.pure _ _)
      rw [Projection.follow]
      exact Y.bind select (Y.bind projector (Y.pure _ _))
    · simp
  simp only [Expr.followAssociations]
  rw [show StateT.run _ _ = _ from run _]

end Passes

end Stack

end ObjectQuery
