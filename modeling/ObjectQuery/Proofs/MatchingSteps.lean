import ObjectQuery.Proofs.Chains

/-!
Steps of binding that match while no secondary ordering waits: from such a state they do the same, and where
they succeed they leave no ordering waiting. This is kept when steps are put together in the same way, so an
operator that is bound from matching operands is bound alike.
-/

namespace ObjectQuery

def Operator.isOrdering {ε : Type} : Operator ε → Bool
  | .orderBy .. | .thenBy .. => true
  | _ => false

def Expr.isOrdering : Expr → Bool
  | .operator op => op.isOrdering
  | _ => false

def BindState.Clear (s : BindState) : Prop := s.pending = []

namespace Binding

structure Matches {α : Type} (x y : Binding α) : Prop where
  run {s : BindState} : s.Clear → x.run s = y.run s
  clear {s : BindState} {r : α × BindState} : s.Clear → x.run s = .ok r → r.2.Clear

namespace Matches

variable {α β γ : Type} {x y : Binding α}

protected theorem pure (a : α) : Matches (Pure.pure a) (Pure.pure a) := by
  refine ⟨fun _ => rfl, fun h run => ?_⟩
  cases run
  exact h

protected theorem throw (e : BindError) : Matches (throw e : Binding α) (throw e) :=
  ⟨fun _ => rfl, fun _ run => by cases run⟩

/-- What comes after a failure does not matter. -/
theorem throwBind (e : BindError) (f g : α → Binding β) : Matches (throw e >>= f) (throw e >>= g) :=
  ⟨fun _ => rfl, fun _ run => by cases run⟩

protected theorem bind {f g : α → Binding β} (h : Matches x y) (next : ∀ a, Matches (f a) (g a)) :
    Matches (x >>= f) (y >>= g) := by
  constructor
  · intro s hs
    rw [StateT.run_bind, StateT.run_bind, ← h.run hs]
    cases first : x.run s with
    | error _ => rfl
    | ok r => exact (next r.1).run (h.clear hs first)
  · intro s r hs run
    rw [StateT.run_bind] at run
    obtain ⟨r', first, run⟩ := bind_eq_ok.mp run
    exact (next r'.1).clear (h.clear hs first) run

theorem map {f : α → β} (h : Matches x y) : Matches (f <$> x) (f <$> y) := by
  rw [map_eq_pure_bind, map_eq_pure_bind]
  exact h.bind fun _ => .pure _

theorem ite (c : Prop) [Decidable c] {x' y' : Binding α} (h : Matches x y) (h' : Matches x' y') :
    Matches (if c then x else x') (if c then y else y') := by
  split
  exacts [h, h']

/-- Fresh names leave everything but the supply as it is. -/
theorem mint (step : Mint α) : Matches (liftM step : Binding α) (liftM step) := by
  refine ⟨fun _ => rfl, fun h run => ?_⟩
  cases run
  exact h

theorem minting (step : Minting Mapping.Error α) : Matches (liftM step : Binding α) (liftM step) := by
  refine ⟨fun _ => rfl, fun {s r} h run => ?_⟩
  rw [liftM_minting] at run
  split at run
  · cases run
    exact h
  · cases run

theorem getBind {f g : BindState → Binding α} (h : ∀ s, Matches (f s) (g s)) :
    Matches (get >>= f) (get >>= g) :=
  ⟨fun {s} hs => (h s).run hs, fun {s _} hs run => (h s).clear hs run⟩

theorem modify {f : BindState → BindState} (h : ∀ s, (f s).pending = s.pending) :
    Matches (modify f : Binding PUnit) (modify f) := by
  refine ⟨fun _ => rfl, fun {s r} hs run => ?_⟩
  cases run
  exact (h s).trans hs

theorem modifyGet {f : BindState → α × BindState} (h : ∀ s, (f s).2.pending = s.pending) :
    Matches (modifyGet f : Binding α) (modifyGet f) := by
  refine ⟨fun _ => rfl, fun {s r} hs run => ?_⟩
  cases run
  exact (h s).trans hs

def relates : Relates Binding Binding where
  rel := Matches
  pure := .pure
  bind := .bind

theorem mapM {l : List α} {f g : α → Binding β} (h : ∀ a ∈ l, Matches (f a) (g a)) :
    Matches (l.mapM f) (l.mapM g) :=
  relates.mapM h

end Matches

theorem matches_assign (operator : String) (params : List Param) (index : Nat) (bound : Expr) :
    Matches (assign operator params index bound) (assign operator params index bound) := by
  unfold assign
  split
  · exact .throw _
  · exact .modify fun _ => rfl

def BodyMatches (body body' : Body) : Prop := body.params = body'.params ∧ Matches body.bind body'.bind

theorem bodyMatches {x y : Binding Expr} (params : List Param) (h : Matches x y) :
    BodyMatches ⟨params, x⟩ ⟨params, y⟩ :=
  ⟨rfl, h⟩

variable {ctx : Context} {body body' : Body} {source source' item item' left left' right right' : Binding Expr}

theorem matches_apply (h : BodyMatches body body') (operator : String) (bound : Expr) :
    Matches (apply operator body bound) (apply operator body' bound) := by
  unfold apply
  rw [h.1]
  exact (matches_assign _ _ _ _).bind fun _ => h.2

theorem matches_apply₂ (h : BodyMatches body body') (operator : String) (first second : Expr) :
    Matches (apply₂ operator body first second) (apply₂ operator body' first second) := by
  unfold apply₂
  rw [h.1]
  exact (matches_assign _ _ _ _).bind fun _ => (matches_assign _ _ _ _).bind fun _ => h.2

theorem matches_param (p : Param) : Matches (param p) (param p) := by
  refine .getBind fun s => ?_
  split
  · exact .pure _
  · exact (Matches.mint _).bind fun _ => (Matches.modify fun _ => by rfl).bind fun _ => .pure _

mutual

theorem matches_rebind (e : Expr) : Matches e.rebind e.rebind := by
  cases e with
  | param p =>
    rw [Expr.rebind]
    exact matches_param p
  | member target name =>
    rw [Expr.rebind]
    exact (matches_rebind target).bind fun _ => .pure _
  | _ =>
    rw [Expr.rebind]
    · exact Expr.traverse_related Matches.relates _ (fun c _ => matches_rebind c)
        (fun s _ => matches_rebind_select s) fun p _ => matches_rebind_projection p
    all_goals simp
termination_by (Part.expr e).weight
decreasing_by all_goals first | exact Part.weight_lt ‹_› | exact Part.weight_lt (by simp [Part.parts])

theorem matches_rebind_select (s : Select Expr) : Matches s.rebind s.rebind := by
  rw [Select.rebind]
  exact s.traverse_related Matches.relates fun e _ => matches_rebind e
termination_by (Part.select s).weight
decreasing_by all_goals exact Part.weight_lt ‹_›

theorem matches_rebind_projection (p : Projection Expr) : Matches p.rebind p.rebind := by
  rw [Projection.rebind]
  exact p.traverse_related Matches.relates (fun e _ => matches_rebind e) fun s _ => matches_rebind_select s
termination_by (Part.projection p).weight
decreasing_by all_goals exact Part.weight_lt ‹_›

end

theorem matches_rebind_command (c : Command Expr) : Matches c.rebind c.rebind :=
  c.traverse_related Matches.relates fun e _ => matches_rebind e

theorem matches_toSequence (ctx : Context) (e : Expr) : Matches (toSequence ctx e) (toSequence ctx e) := by
  induction e using toSequence.induct ctx with
  | case1 p => exact .pure p
  | case2 _ _ ih => exact ih
  | case3 _ _ ih => exact ih
  | case4 _ _ _ other =>
    rw [toSequence, if_pos other]
    exact .throwBind _ _ _
  | case5 _ _ _ association =>
    rw [toSequence, if_neg association]
    refine (Matches.minting _).bind fun navigated => ?_
    cases navigated <;> first | exact .pure _ | exact .throw _
  | case6 _ projection grouping outerJoined member =>
    rw [toSequence.eq_5 _ _ projection grouping outerJoined member]
    exact .throw _

theorem matches_sequence (ctx : Context) (h : Matches source source') :
    Matches (sequence ctx source) (sequence ctx source') :=
  h.bind fun e => matches_toSequence ctx e

theorem matches_selectOver (ctx : Context) (source : Expr) (sources : List Alias) (shape : Expr) :
    Matches (selectOver ctx source sources shape) (selectOver ctx source sources shape) :=
  (Matches.mint _).bind fun _ => .pure _

theorem matches_layer (ctx : Context) (p : Projection Expr) (clauses : Select Expr → Select Expr) :
    Matches (layer ctx p clauses) (layer ctx p clauses) :=
  (matches_selectOver _ _ _ _).bind fun _ => .pure _

variable {outerKey outerKey' innerKey innerKey' result result' collection collection' : Body}

theorem matches_filter (h : Matches source source') (predicate : BodyMatches body body') :
    Matches (filter ctx source body) (filter ctx source' body') :=
  (matches_sequence ctx h).bind fun _ => (matches_apply predicate _ _).bind fun _ => matches_layer _ _ _

theorem matches_map (h : Matches source source') (selector : BodyMatches body body') :
    Matches (Binding.map ctx source body) (Binding.map ctx source' body') :=
  (matches_sequence ctx h).bind fun _ => (matches_apply selector _ _).bind fun _ => matches_selectOver _ _ _ _

theorem matches_clause (h : Matches source source') (clauses : Select Expr → Select Expr) :
    Matches (clause ctx source clauses) (clause ctx source' clauses) :=
  (matches_sequence ctx h).bind fun _ => matches_layer _ _ _

def BodiesMatch : Option Body → Option Body → Prop := Option.Rel BodyMatches

variable {b b' : Option Body}

theorem matches_flatMap (h : Matches source source') (elements : BodyMatches collection collection')
    (orDefault : Bool) (shape : BodiesMatch b b') :
    Matches (flatMap ctx source collection orDefault b) (flatMap ctx source' collection' orDefault b') := by
  unfold flatMap
  rw [elements.1]
  refine (matches_sequence ctx h).bind fun p => (matches_assign _ _ _ _).bind fun _ =>
    (matches_sequence ctx elements.2).bind fun q => ?_
  cases shape with
  | none => exact (Matches.pure _).bind fun _ => matches_selectOver _ _ _ _
  | some shape => exact (matches_apply₂ shape _ _ _).bind fun _ => matches_selectOver _ _ _ _

theorem matches_join (outer : Matches left left') (inner : Matches right right')
    (outerKeys : BodyMatches outerKey outerKey') (innerKeys : BodyMatches innerKey innerKey')
    (shape : BodyMatches result result') : Matches (join ctx left right outerKey innerKey result)
      (join ctx left' right' outerKey' innerKey' result') :=
  (matches_sequence ctx outer).bind fun _ => (matches_sequence ctx inner).bind fun _ =>
  (matches_apply outerKeys _ _).bind fun _ => (matches_apply innerKeys _ _).bind fun _ =>
  (matches_apply₂ shape _ _ _).bind fun _ => matches_selectOver _ _ _ _

theorem matches_groupJoin (outer : Matches left left') (inner : Matches right right')
    (outerKeys : BodyMatches outerKey outerKey') (innerKeys : BodyMatches innerKey innerKey')
    (shape : BodyMatches result result') : Matches (groupJoin ctx left right outerKey innerKey result)
      (groupJoin ctx left' right' outerKey' innerKey' result') := by
  unfold groupJoin
  rw [outerKeys.1, innerKeys.1]
  have equality : BodyMatches ⟨innerKey'.params, do return .equals (← innerKey.bind) (← outerKey.bind)⟩
      ⟨innerKey'.params, do return .equals (← innerKey'.bind) (← outerKey'.bind)⟩ :=
    ⟨rfl, innerKeys.2.bind fun _ => outerKeys.2.bind fun _ => .pure _⟩
  exact (matches_sequence ctx outer).bind fun _ => (matches_assign _ _ _ _).bind fun _ =>
    (matches_filter inner equality).bind fun _ => (matches_apply₂ shape _ _ _).bind fun _ =>
    matches_selectOver _ _ _ _

theorem matches_defaultIfEmpty (h : Matches source source') :
    Matches (defaultIfEmpty ctx source) (defaultIfEmpty ctx source') :=
  (matches_sequence ctx h).bind fun _ => (Matches.mint _).bind fun _ => matches_selectOver _ _ _ _

theorem matches_copy (e : Expr) : Matches (liftM e.copy : Binding Expr) (liftM e.copy) := .mint _

theorem matches_insideGroup (elements : Alias) (h : Matches item item') :
    Matches (insideGroup elements item) (insideGroup elements item') :=
  (Matches.modifyGet fun _ => by rfl).bind fun _ => h.bind fun _ =>
  (Matches.modify fun _ => by rfl).bind fun _ => .pure _

def groupElement (element : Option Body) (p : Projection Expr) : Binding Expr :=
  match element with
  | some body => apply "GroupBy" body p.projector
  | none => return p.projector

theorem matches_groupElement (element : BodiesMatch b b') (p : Projection Expr) :
    Matches (groupElement b p) (groupElement b' p) := by
  cases element with
  | none => exact .pure _
  | some h => exact matches_apply h _ _

theorem matches_groupBy (h : Matches source source') (key : BodyMatches body body') {b b' r r' : Option Body}
    (element : BodiesMatch b b') (shape : BodiesMatch r r') :
    Matches (groupBy ctx source body b r) (groupBy ctx source' body' b' r') := by
  unfold groupBy
  refine (matches_sequence ctx h).bind fun p => (matches_apply key _ _).bind fun keyShape =>
    (matches_groupElement element p).bind fun _ => (matches_copy _).bind fun copy => ?_
  cases copy with
  | projection basis =>
    refine (Matches.pure _).bind fun basis => (matches_apply key _ _).bind fun _ =>
      (matches_groupElement element _).bind fun _ => (matches_selectOver _ _ _ _).bind fun _ =>
      (Matches.mint _).bind fun _ => (Matches.modify fun _ => by rfl).bind fun _ => ?_
    cases shape with
    | none => exact (Matches.pure _).bind fun _ => .pure _
    | some h => exact (matches_insideGroup _ (matches_apply₂ h _ _ _)).bind fun _ => .pure _
  | _ => exact .throwBind _ _ _

def aggregateArgument (kind : AggregateKind) (selector : Option Body) (shape : Expr) : Binding (Option Expr) :=
  match selector with
  | some body => do return some (← apply "Aggregate" body shape)
  | none => return if kind.isCount then none else some shape

theorem matches_aggregateArgument (kind : AggregateKind) (selector : BodiesMatch b b') (shape : Expr) :
    Matches (aggregateArgument kind b shape) (aggregateArgument kind b' shape) := by
  cases selector with
  | none => exact .pure _
  | some h => exact (matches_apply h _ _).bind fun _ => .pure _

def aggregated (root distinct : Bool) (kind : AggregateKind) (predicate selector : Option Body)
    (p : Projection Expr) : Binding Expr := do
  let inner := Expr.aggregate kind (← aggregateArgument kind selector p.projector) distinct
  let rel ← Supply.freshAlias
  let column := ColumnDecl.of "value" inner
  let select := Select.plain rel [column] (some (.select p.select)) none
  if root then
    return .projection ⟨select, .column ⟨rel, "value", column.type⟩, some .single⟩
  match predicate, (← get).groups.lookup p.select.rel with
  | none, some group =>
    let inGroup := Expr.aggregate kind (← aggregateArgument kind selector group.element) distinct
    if (← get).openGroup = some group.origin then return inGroup
    return .groupAggregate (← Supply.fresh) group.owner inGroup select
  | _, _ => return .scalar select

theorem aggregate_eq_aggregated (root : Bool) (source : Binding Expr) (distinct : Bool) (kind : AggregateKind)
    (argument : Option Body) : aggregate ctx root source distinct kind argument
      = (match (if kind.isCount then argument else none) with
        | some body => do aggregated root distinct kind (some body) none (← filter ctx source body)
        | none => do
          let p ← sequence ctx source
          aggregated root distinct kind none (if kind.isCount then none else argument) p) := by
  cases kind <;> cases argument <;> rfl

theorem matches_aggregated (root distinct : Bool) (kind : AggregateKind) {r r' : Option Body}
    (predicate : BodiesMatch r r') (selector : BodiesMatch b b') (p : Projection Expr) :
    Matches (aggregated root distinct kind r b p) (aggregated root distinct kind r' b' p) := by
  unfold aggregated
  refine (matches_aggregateArgument kind selector _).bind fun _ => (Matches.mint _).bind fun _ =>
    .ite _ (.pure _) (.getBind fun s => ?_)
  cases predicate with
  | some _ => exact .pure _
  | none =>
    cases s.groups.lookup p.select.rel with
    | none => exact .pure _
    | some group =>
      exact (matches_aggregateArgument kind selector _).bind fun _ => .getBind fun _ =>
        .ite _ (.pure _) ((Matches.mint _).bind fun _ => .pure _)

theorem matches_aggregate (root : Bool) (h : Matches source source') (distinct : Bool) (kind : AggregateKind)
    (argument : BodiesMatch b b') :
    Matches (aggregate ctx root source distinct kind b) (aggregate ctx root source' distinct kind b') := by
  rw [aggregate_eq_aggregated, aggregate_eq_aggregated]
  cases argument with
  | none =>
    rw [ite_self]
    exact (matches_sequence ctx h).bind fun p => matches_aggregated _ _ _ .none .none p
  | some h' =>
    cases kind.isCount with
    | true => exact (matches_filter h h').bind fun p => matches_aggregated _ _ _ (.some h') .none p
    | false => exact (matches_sequence ctx h).bind fun p => matches_aggregated _ _ _ .none (.some h') p

theorem matches_answer (root : Bool) (value : Expr) : Matches (answer root value) (answer root value) := by
  cases root with
  | true => exact (Matches.mint _).bind fun _ => .pure _
  | false => exact .pure _

theorem matches_element (root : Bool) (h : Matches source source') (pick : Pick) (predicate : BodiesMatch b b') :
    Matches (element ctx root source pick b) (element ctx root source' pick b') := by
  unfold element
  refine (matches_sequence ctx h).bind fun p => Matches.bind ?_ fun condition => ?_
  · cases predicate with
    | none => exact .pure _
    | some h => exact (matches_apply h _ _).map
  · exact Matches.ite _ ((matches_layer _ _ _).bind fun _ => .pure _) ((Matches.pure _).bind fun _ => .pure _)

theorem matches_askList (quantifier : Quantifier) (values : List Value) (predicate : BodiesMatch b b') :
    Matches (askList quantifier values b) (askList quantifier values b') := by
  cases predicate with
  | none => exact .pure _
  | some h =>
    refine (Matches.mapM fun v _ => matches_apply h _ _).bind fun terms => ?_
    cases quantifier <;> cases terms <;> exact .pure _

theorem matches_askRows (root : Bool) (quantifier : Quantifier) (s : Select Expr) :
    Matches (askRows ctx root quantifier s) (askRows ctx root quantifier s) := by
  unfold askRows
  dsimp only
  split
  · exact .pure _
  · split
    · exact (Matches.mint _).bind fun _ => .pure _
    · exact .pure _

theorem matches_ask (root : Bool) (quantifier : Quantifier) (h : Matches source source')
    (predicate : BodiesMatch b b') :
    Matches (ask ctx root quantifier source b) (ask ctx root quantifier source' b') := by
  unfold ask
  cases predicate with
  | none => exact (matches_sequence ctx h).bind fun _ => matches_askRows _ _ _
  | some h' =>
    cases quantifier with
    | some => exact (matches_filter h h').bind fun _ => matches_askRows _ _ _
    | all =>
      have negated := h'.2.bind fun (e : Expr) => Matches.pure e.negated
      refine Matches.bind ?_ fun _ => matches_askRows _ _ _
      exact matches_filter h ⟨h'.1, negated⟩

theorem matches_listContains (root : Bool) (values : List Value) (h : Matches item item') :
    Matches (listContains root values item) (listContains root values item') :=
  h.bind fun _ => matches_answer _ _

theorem matches_contains (root : Bool) (h : Matches source source') (x : Matches item item') :
    Matches (contains ctx root source item) (contains ctx root source' item') := by
  unfold contains
  refine (matches_sequence ctx h).bind fun p => ?_
  split
  · exact x.bind fun _ => matches_answer _ _
  · refine (Matches.mint _).bind fun y => matches_ask _ _ (matches_rebind _) (.some ⟨rfl, ?_⟩)
    exact (matches_param y).bind fun _ => x.bind fun _ => .pure _

theorem matches_union (kind : SetKind) (h : Matches left left') (h' : Matches right right') :
    Matches (union ctx kind left right) (union ctx kind left' right') := by
  unfold union
  refine (matches_sequence ctx h).bind fun p => (matches_sequence ctx h').bind fun q =>
    (matches_selectOver _ _ _ _).bind fun _ => (matches_selectOver _ _ _ _).bind fun _ => ?_
  dsimp only
  split
  · exact .throwBind _ _ _
  · exact (Matches.mint _).bind fun _ => (Matches.mint _).bind fun _ => .pure _

theorem matches_membership (negate : Bool) (h : Matches left left') (h' : Matches right right')
    (constants : Option (List Value)) :
    Matches (membership ctx negate left right constants) (membership ctx negate left' right' constants) := by
  unfold membership
  refine (Matches.mint _).bind fun x => (Matches.mint _).bind fun y => ?_
  have same : BodiesMatch (some ⟨[y], do return .equals (← param y) (← param x)⟩)
      (some ⟨[y], do return .equals (← param y) (← param x)⟩) :=
    .some ⟨rfl, (matches_param y).bind fun _ => (matches_param x).bind fun _ => .pure _⟩
  refine Matches.bind ?_ fun _ => (matches_layer _ _ _).bind fun _ => .pure _
  cases constants with
  | none =>
    exact matches_filter h ⟨rfl, .ite _ ((matches_ask false .some h' same).bind fun _ => .pure _)
      (matches_ask false .some h' same)⟩
  | some values =>
    have occurs := matches_askList .some values same
    exact matches_filter h ⟨rfl, .ite _ (occurs.bind fun _ => .pure _) occurs⟩

theorem matches_check (operator entity : String) (table : Table) (h : BodyMatches body body') :
    Matches (check ctx operator entity table body) (check ctx operator entity table body') :=
  (Matches.minting _).bind fun _ => matches_apply h _ _

theorem matches_insert (entity : String) (h : Matches item item') :
    Matches (insert ctx entity item) (insert ctx entity item') :=
  h.bind fun _ => (Matches.minting _).bind fun _ => matches_rebind_command _

theorem matches_update (entity : String) (h : Matches item item') (condition : BodiesMatch b b') :
    Matches (update ctx entity item b) (update ctx entity item' b') := by
  unfold update
  refine h.bind fun _ => (Matches.minting _).bind fun c => (matches_rebind_command c).bind fun c => ?_
  cases condition with
  | none => cases c <;> exact .pure _
  | some h =>
    cases c with
    | update => exact (matches_check _ _ _ h).bind fun _ => .pure _
    | _ => exact .pure _

theorem matches_insertOrUpdate (entity : String) (h : Matches item item') (condition : BodiesMatch b b') :
    Matches (insertOrUpdate ctx entity item b) (insertOrUpdate ctx entity item' b') := by
  unfold insertOrUpdate
  exact h.bind fun _ => (Matches.minting _).bind fun _ => (Matches.minting _).bind fun _ =>
    (Matches.mint _).bind fun _ => (matches_update _ (matches_rebind _) condition).bind fun _ =>
    (matches_insert _ (matches_rebind _)).bind fun _ => .pure _

theorem matches_delete (entity : String) {i i' : Option (Binding Expr)} (h : Option.Rel Matches i i')
    (predicate : BodiesMatch b b') : Matches (delete ctx entity i b) (delete ctx entity i' b') := by
  unfold delete
  refine Matches.bind ?_ fun _ => (Matches.minting _).bind fun c => (matches_rebind_command c).bind fun c => ?_
  · cases h with
    | none => exact .pure _
    | some h => exact h.map
  · cases predicate with
    | none => cases c <;> exact .pure _
    | some h =>
      cases c with
      | delete => exact (matches_check _ _ _ h).bind fun _ => .pure _
      | _ => exact .pure _

theorem matches_batch {items items' : List (Binding Expr)} (h : List.Forall₂ Matches items items')
    (operation : BodyMatches body body') : Matches (batch items body) (batch items' body') := by
  unfold batch
  rw [operation.1]
  cases body'.params with
  | nil => exact .throw _
  | cons item _ =>
    refine Matches.bind ?_ fun _ => operation.2.bind fun bound => ?_
    · induction h with
      | nil => exact .pure _
      | cons first _ ih =>
        rw [List.mapM_cons, List.mapM_cons]
        exact first.bind fun _ => ih.bind fun _ => .pure _
    · cases bound <;> first | exact .pure _ | exact .throw _

section Operators

variable {op : Operator Expr} {f f' k k' : (e : Expr) → e ∈ op.exprs → Binding Expr}

theorem body_mem {o : Option (Lambda Expr)} {l : Lambda Expr} (h : l ∈ o) : l.body ∈ o.toList.map (·.body) :=
  List.mem_map_of_mem (Option.mem_toList.mpr h)

variable (k k') in
/-- The lambdas that an operator may leave out are bound alike, like the others. -/
theorem bodiesMatch_attach (bind : ∀ e h, Matches (f e h) (f' e h)) (o : Option (Lambda Expr))
    (given : ∀ l ∈ o, l.body ∈ op.exprs) :
    BodiesMatch
      ((o.attach.map fun l => (⟨l.1.params, l.1.body, f l.1.body (given l.1 l.2),
        k l.1.body (given l.1 l.2)⟩ : Lambda Operand)).map (·.toBody))
      ((o.attach.map fun l => (⟨l.1.params, l.1.body, f' l.1.body (given l.1 l.2),
        k' l.1.body (given l.1 l.2)⟩ : Lambda Operand)).map (·.toBody)) := by
  cases o with
  | none => exact .none
  | some _ => exact .some (bodyMatches _ (bind _ _))

/-- An operator that is no ordering is bound alike from operands that match. -/
theorem matches_operator {root : Bool} (unordered : op.isOrdering = false)
    (later later' : Lambda Expr → Binding Expr)
    (bind : ∀ e h, Matches (f e h) (f' e h)) (bindPeeled : ∀ e h, Matches (k e h) (k' e h)) :
    Matches (Operator.bind ctx root later (op.mapMem fun e h => ⟨e, f e h, k e h⟩))
      (Operator.bind ctx root later' (op.mapMem fun e h => ⟨e, f' e h, k' e h⟩)) := by
  have bodies := bodiesMatch_attach k k' bind
  have constants (e : Expr) (h : e ∈ op.exprs) : Operand.constants? ⟨e, f e h, k e h⟩
      = Operand.constants? ⟨e, f' e h, k' e h⟩ := rfl
  cases op with
  | orderBy | thenBy => cases unordered
  | table entity => exact (Matches.minting _).bind fun _ => .pure _
  | filter source predicate =>
    exact (matches_filter (bind _ _) (bodyMatches _ (bind _ _))).bind fun _ => .pure _
  | map source selector => exact (matches_map (bind _ _) (bodyMatches _ (bind _ _))).bind fun _ => .pure _
  | flatMap source collection result =>
    exact (matches_flatMap (bind _ _) (bodyMatches _ (.ite _ (bindPeeled _ _) (bind _ _))) _
      (bodies _ fun _ h => .tail _ (.tail _ (body_mem h)))).bind fun _ => .pure _
  | join outer inner outerKey innerKey result =>
    exact (matches_join (bind _ _) (bind _ _) (bodyMatches _ (bind _ _)) (bodyMatches _ (bind _ _))
      (bodyMatches _ (bind _ _))).bind fun _ => .pure _
  | groupJoin outer inner outerKey innerKey result =>
    exact (matches_groupJoin (bind _ _) (bind _ _) (bodyMatches _ (bind _ _)) (bodyMatches _ (bind _ _))
      (bodyMatches _ (bind _ _))).bind fun _ => .pure _
  | groupBy source key selector result =>
    exact (matches_groupBy (bind _ _) (bodyMatches _ (bind _ _))
      (bodies _ fun _ h => .tail _ (.tail _ (List.mem_map_of_mem (List.mem_append_left _ (Option.mem_toList.mpr h)))))
      (bodies _ fun _ h => .tail _ (.tail _ (List.mem_map_of_mem (List.mem_append_right _
        (Option.mem_toList.mpr h)))))).bind fun _ => .pure _
  | distinct | reverse => exact (matches_clause (bind _ _) _).bind fun _ => .pure _
  | take | skip => exact (bind _ _).bind fun _ => (matches_clause (bind _ _) _).bind fun _ => .pure _
  | cast => exact (matches_sequence ctx (bind _ _)).bind fun _ => .pure _
  | defaultIfEmpty => exact (matches_defaultIfEmpty (bind _ _)).bind fun _ => .pure _
  | element source pick predicate =>
    exact (matches_element _ (bind _ _) _ (bodies _ fun _ h => .tail _ (body_mem h))).bind
      fun _ => .pure _
  | aggregate source kind argument =>
    exact .ite _
      (matches_aggregate _ (bindPeeled _ _) _ _ (bodies _ fun _ h => .tail _ (body_mem h)))
      (matches_aggregate _ (bind _ _) _ _ (bodies _ fun _ h => .tail _ (body_mem h)))
  | any source predicate =>
    simp only [Operator.bind, Operator.mapMem]
    rw [constants source (.head _)]
    cases Operand.constants? _ with
    | none => exact matches_ask _ _ (bind _ _) (bodies _ fun _ h => .tail _ (body_mem h))
    | some _ =>
      exact (matches_askList _ _ (bodies _ fun _ h => .tail _ (body_mem h))).bind fun _ =>
        matches_answer _ _
  | all source predicate =>
    have body : BodiesMatch (some _) (some _) :=
      .some (bodyMatches predicate.params (bind predicate.body (.tail _ (.head _))))
    simp only [Operator.bind, Operator.mapMem]
    rw [constants source (.head _)]
    cases Operand.constants? _ with
    | none => exact matches_ask _ _ (bind _ _) body
    | some _ => exact (matches_askList _ _ body).bind fun _ => matches_answer _ _
  | contains source item =>
    simp only [Operator.bind, Operator.mapMem]
    rw [constants source (.head _)]
    cases Operand.constants? _ with
    | none => exact matches_contains _ (bind _ _) (bind _ _)
    | some _ => exact matches_listContains _ _ (bind _ _)
  | setOp kind left right =>
    cases kind with
    | union | concat => exact matches_union _ (bind _ _) (bind _ _)
    | intersect | except =>
      simp only [Operator.bind, Operator.mapMem]
      rw [constants right (.tail _ (.head _))]
      exact matches_membership _ (bind _ _) (bind _ _) _
  | insert entity item => exact (matches_insert _ (bind _ _)).bind fun _ => .pure _
  | update entity item check =>
    exact (matches_update _ (bind _ _) (bodies _ fun _ h => .tail _ (body_mem h))).bind
      fun _ => .pure _
  | insertOrUpdate entity item check =>
    exact (matches_insertOrUpdate _ (bind _ _) (bodies _ fun _ h => .tail _ (body_mem h))).bind
      fun _ => .pure _
  | delete entity item predicate =>
    refine (matches_delete _ ?_ (bodies _ fun _ h => List.mem_append_right _ (body_mem h))).bind fun _ => .pure _
    cases item with
    | none => exact .none
    | some _ => exact .some (bind _ _)
  | batch items operation =>
    refine (matches_batch ?_ (bodyMatches _ (bind _ _))).bind fun _ => .pure _
    rw [List.map_map, List.map_map, List.forall₂_map_left_iff, List.forall₂_map_right_iff, List.forall₂_same]
    exact fun _ _ => bind _ _

end Operators

end Binding

end ObjectQuery
