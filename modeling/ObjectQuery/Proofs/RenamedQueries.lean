import ObjectQuery.Proofs.Following
import ObjectQuery.Proofs.QueryScopes

/-!
Queries under other names. When the parameters of the lambdas of a query are given other names, so that
every variable still stands for what it stood for, the query is read as the same tree over other
numbers, whatever numbers are at hand.
-/

namespace ObjectQuery

mutual

def Expr.mapParams (ρ : Param → Param) : Expr → Expr
  | .param p => .param (ρ p)
  | .member target name => .member (target.mapParams ρ) name
  | .binary op left right => .binary op (left.mapParams ρ) (right.mapParams ρ)
  | .unary op operand => .unary op (operand.mapParams ρ)
  | .cond test onTrue onFalse =>
    .cond (test.mapParams ρ) (onTrue.mapParams ρ) (onFalse.mapParams ρ)
  | .call function args => .call function (mapParamsAll ρ args)
  | .construct typeName fields => .construct typeName (mapParamsFields ρ fields)
  | .lambda l => .lambda (l.mapParams ρ)
  | .operator op => .operator (op.mapParams ρ)
  | e => e
termination_by structural e => e

def mapParamsAll (ρ : Param → Param) : List Expr → List Expr
  | [] => []
  | e :: rest => e.mapParams ρ :: mapParamsAll ρ rest
termination_by structural es => es

def mapParamsFields (ρ : Param → Param) : List (Field Expr) → List (Field Expr)
  | [] => []
  | ⟨name, e⟩ :: rest => ⟨name, e.mapParams ρ⟩ :: mapParamsFields ρ rest
termination_by structural fs => fs

def mapParamsOption (ρ : Param → Param) : Option Expr → Option Expr
  | none => none
  | some e => some (e.mapParams ρ)
termination_by structural e => e

def Lambda.mapParams (ρ : Param → Param) : Lambda Expr → Lambda Expr
  | ⟨params, body⟩ => ⟨params.map ρ, body.mapParams ρ⟩
termination_by structural l => l

def Lambda.mapParamsOption (ρ : Param → Param) : Option (Lambda Expr) → Option (Lambda Expr)
  | none => none
  | some l => some (l.mapParams ρ)
termination_by structural l => l

def Operator.mapParams (ρ : Param → Param) : Operator Expr → Operator Expr
  | .table entity => .table entity
  | .filter source predicate => .filter (source.mapParams ρ) (predicate.mapParams ρ)
  | .map source selector => .map (source.mapParams ρ) (selector.mapParams ρ)
  | .flatMap source collection result =>
    .flatMap (source.mapParams ρ) (collection.mapParams ρ) (Lambda.mapParamsOption ρ result)
  | .join outer inner outerKey innerKey result =>
    .join (outer.mapParams ρ) (inner.mapParams ρ) (outerKey.mapParams ρ) (innerKey.mapParams ρ)
      (result.mapParams ρ)
  | .groupJoin outer inner outerKey innerKey result =>
    .groupJoin (outer.mapParams ρ) (inner.mapParams ρ) (outerKey.mapParams ρ) (innerKey.mapParams ρ)
      (result.mapParams ρ)
  | .orderBy source key direction => .orderBy (source.mapParams ρ) (key.mapParams ρ) direction
  | .thenBy source key direction => .thenBy (source.mapParams ρ) (key.mapParams ρ) direction
  | .groupBy source key selector result =>
    .groupBy (source.mapParams ρ) (key.mapParams ρ) (Lambda.mapParamsOption ρ selector)
      (Lambda.mapParamsOption ρ result)
  | .distinct source => .distinct (source.mapParams ρ)
  | .take source count => .take (source.mapParams ρ) (count.mapParams ρ)
  | .skip source count => .skip (source.mapParams ρ) (count.mapParams ρ)
  | .reverse source => .reverse (source.mapParams ρ)
  | .cast source typeName => .cast (source.mapParams ρ) typeName
  | .defaultIfEmpty source => .defaultIfEmpty (source.mapParams ρ)
  | .element source pick predicate =>
    .element (source.mapParams ρ) pick (Lambda.mapParamsOption ρ predicate)
  | .aggregate source kind argument =>
    .aggregate (source.mapParams ρ) kind (Lambda.mapParamsOption ρ argument)
  | .any source predicate => .any (source.mapParams ρ) (Lambda.mapParamsOption ρ predicate)
  | .all source predicate => .all (source.mapParams ρ) (predicate.mapParams ρ)
  | .contains source item => .contains (source.mapParams ρ) (item.mapParams ρ)
  | .setOp kind left right => .setOp kind (left.mapParams ρ) (right.mapParams ρ)
  | .insert entity item => .insert entity (item.mapParams ρ)
  | .update entity item check => .update entity (item.mapParams ρ) (Lambda.mapParamsOption ρ check)
  | .insertOrUpdate entity item check =>
    .insertOrUpdate entity (item.mapParams ρ) (Lambda.mapParamsOption ρ check)
  | .delete entity item predicate =>
    .delete entity (mapParamsOption ρ item) (Lambda.mapParamsOption ρ predicate)
  | .batch items operation => .batch (mapParamsAll ρ items) (operation.mapParams ρ)
termination_by structural op => op

end

namespace Language

inductive Refers (name name' : String) : List String → List String → Prop
  | here {names names' : List String} : Refers name name' (name :: names) (name' :: names')
  | there {other other' : String} {names names' : List String} : other ≠ name → other' ≠ name' →
    Refers name name' names names' → Refers name name' (other :: names) (other' :: names')
  | table : name = name' → Refers name name' [] []

mutual

/-- The same term under other names of lambda parameters, where `names` and `names'` are the names in
sight, and every variable stands for the same. An initialiser without a name is no variable, and what a
cast is given stays as it is. -/
inductive Term.Alpha : List String → List String → Term → Term → Prop
  | literal {names names' : List String} (l : Literal) : Term.Alpha names names' (.literal l) (.literal l)
  | variable {names names' : List String} {name name' : String} : Refers name name' names names' →
    Term.Alpha names names' (.variable name) (.variable name')
  | list {names names' : List String} {items items' : List Term} :
    AlphaAll names names' items items' → Term.Alpha names names' (.list items) (.list items')
  | get {names names' : List String} {target target' : Term} (member : String) :
    Term.Alpha names names' target target' →
    Term.Alpha names names' (.get target member) (.get target' member)
  | cast {names names' : List String} {target target' : Term} (args : List Term) :
    Term.Alpha names names' target target' →
    Term.Alpha names names' (.method target "Cast" args) (.method target' "Cast" args)
  | method {names names' : List String} {target target' : Term} {name : String} {args args' : List Term} :
    name ≠ "Cast" → Term.Alpha names names' target target' → AlphaAll names names' args args' →
    Term.Alpha names names' (.method target name args) (.method target' name args')
  | function {names names' : List String} (name : String) {args args' : List Term} :
    AlphaAll names names' args args' →
    Term.Alpha names names' (.function name args) (.function name args')
  | lambda {names names' params params' : List String} {body body' : Term} :
    params.length = params'.length → Term.Alpha (params ++ names) (params' ++ names') body body' →
    Term.Alpha names names' (.lambda params body) (.lambda params' body')
  | construct {names names' : List String} (typeName : Option String)
    {fields fields' : List (Option String × Term)} : AlphaFields names names' fields fields' →
    Term.Alpha names names' (.construct typeName fields) (.construct typeName fields')
  | apply {names names' : List String} (op : Op) {operands operands' : List Term} :
    AlphaAll names names' operands operands' →
    Term.Alpha names names' (.apply op operands) (.apply op operands')
  | cond {names names' : List String} {test test' onTrue onTrue' onFalse onFalse' : Term} :
    Term.Alpha names names' test test' → Term.Alpha names names' onTrue onTrue' →
    Term.Alpha names names' onFalse onFalse' →
    Term.Alpha names names' (.cond test onTrue onFalse) (.cond test' onTrue' onFalse')

inductive AlphaAll : List String → List String → List Term → List Term → Prop
  | nil {names names' : List String} : AlphaAll names names' [] []
  | cons {names names' : List String} {t t' : Term} {ts ts' : List Term} : t.Alpha names names' t' →
    AlphaAll names names' ts ts' → AlphaAll names names' (t :: ts) (t' :: ts')

inductive AlphaFields :
    List String → List String → List (Option String × Term) → List (Option String × Term) → Prop
  | nil {names names' : List String} : AlphaFields names names' [] []
  | cons {names names' : List String} {given : Option String} {t t' : Term}
    {fs fs' : List (Option String × Term)} : (given = none → ∀ name, t ≠ .variable name) →
    t.Alpha names names' t' → AlphaFields names names' fs fs' →
    AlphaFields names names' ((given, t) :: fs) ((given, t') :: fs')

end

structure Names.Linked (ρ : Param → Param) (ns ns' : List String) (names names' : Names) : Prop where
  fst : names.map (·.1) = ns
  fst' : names'.map (·.1) = ns'
  snd : names'.map (·.2) = names.map fun x => ρ x.2

theorem Names.Linked.node {ρ : Param → Param} {ns ns' : List String} {names names' : Names}
    (linked : Linked ρ ns ns' names names') {name name' : String} (refers : Refers name name' ns ns') :
    names'.node name' = (names.node name).mapParams ρ := by
  obtain ⟨fst, fst', snd⟩ := linked
  induction refers generalizing names names' with
  | here =>
    obtain ⟨⟨_, p⟩, names, rfl, rfl, rfl⟩ := List.map_eq_cons_iff.mp fst
    obtain ⟨⟨_, p'⟩, names', rfl, rfl, rfl⟩ := List.map_eq_cons_iff.mp fst'
    simp only [List.map_cons, List.cons.injEq] at snd
    simp [Names.node, snd.1, Expr.mapParams]
  | there left right _ ih =>
    obtain ⟨⟨other, p⟩, names, rfl, rfl, rfl⟩ := List.map_eq_cons_iff.mp fst
    obtain ⟨⟨other', p'⟩, names', rfl, rfl, rfl⟩ := List.map_eq_cons_iff.mp fst'
    simp only [List.map_cons, List.cons.injEq] at snd
    have apart : (name == other) = false := beq_false_of_ne (Ne.symm left)
    have apart' : (name' == other') = false := beq_false_of_ne (Ne.symm right)
    simpa [Names.node, List.lookup_cons, apart, apart'] using ih rfl rfl snd.2
  | table same =>
    subst same
    rw [List.map_eq_nil_iff.mp fst, List.map_eq_nil_iff.mp fst']
    rfl

def shift (n n' : Nat) (p : Param) : Param := ⟨p.id - n + n'⟩

theorem shift_add (n n' k : Nat) : shift n n' ⟨n + k⟩ = ⟨n' + k⟩ := by
  simp [shift, Nat.add_comm]

/-- The first lowering succeeds where the second one does, with a related result, and both mint as many
numbers: the first one has used up as many from `n'` on as the second one from `n` on. -/
def Lockstep (n n' : Nat) {α β : Type} (R : α → β → Prop) (x : Lower α) (y : Lower β) : Prop :=
  ∀ k, Follows (fun r r' => R r.1 r'.1 ∧ ∃ k', r.2 = ⟨n' + k'⟩ ∧ r'.2 = ⟨n + k'⟩)
    (x.run ⟨n' + k⟩) (y.run ⟨n + k⟩)

namespace Lockstep

variable {n n' : Nat} {α β γ δ : Type} {R : α → β → Prop} {S : γ → δ → Prop}

protected theorem pure {a : α} {b : β} (h : R a b) : Lockstep n n' R (Pure.pure a) (Pure.pure b) :=
  fun k => .pure ⟨h, k, rfl, rfl⟩

theorem error (x : Lower α) (e : Error) : Lockstep n n' R x (throw e : Lower β) :=
  fun _ => .error _ e

protected theorem bind {x : Lower α} {y : Lower β} {f : α → Lower γ} {g : β → Lower δ}
    (h : Lockstep n n' R x y) (next : ∀ a b, R a b → Lockstep n n' S (f a) (g b)) :
    Lockstep n n' S (x >>= f) (y >>= g) := by
  intro k
  rw [StateT.run_bind, StateT.run_bind]
  refine (h k).bind ?_
  rintro ⟨a, _⟩ ⟨b, _⟩ ⟨hab, k', rfl, rfl⟩
  exact next a b hab k'

end Lockstep

section Step

variable {n n' : Nat}

abbrev SameExpr (n n' : Nat) (x y : Lower Expr) : Prop :=
  Lockstep n n' (fun e' e => e' = e.mapParams (shift n n')) x y

structure Argument.Renamed (n n' : Nat) (a' a : Argument) : Prop where
  asExpr : SameExpr n n' a'.asExpr a.asExpr
  asLambda : ∀ operator params, Lockstep n n' (fun l' l => l' = l.mapParams (shift n n'))
    (a'.asLambda operator params) (a.asLambda operator params)
  pairs : (∃ x y body, a'.term = .lambda [x, y] body) ↔ ∃ x y body, a.term = .lambda [x, y] body

variable {args args' : List Argument} {name : String}

theorem step_oneArgument (renamed : List.Forall₂ (Argument.Renamed n n') args' args) :
    Lockstep n n' (Argument.Renamed n n') (oneArgument name args') (oneArgument name args) := by
  obtain _ | ⟨here, _ | ⟨_, _⟩⟩ := renamed
  · exact .error _ _
  · exact .pure here
  · exact .error _ _

theorem step_oneLambda (renamed : List.Forall₂ (Argument.Renamed n n') args' args) {params : Nat}
    {f f' : Lambda Expr → Lower Expr}
    (next : ∀ l, SameExpr n n' (f' (l.mapParams (shift n n'))) (f l)) :
    SameExpr n n' (do f' (← (← oneArgument name args').asLambda name params))
      (do f (← (← oneArgument name args).asLambda name params)) :=
  (step_oneArgument renamed).bind fun _ _ here => (here.asLambda name params).bind fun _ l hl => hl ▸ next l

theorem step_oneExpr (renamed : List.Forall₂ (Argument.Renamed n n') args' args)
    {f f' : Expr → Lower Expr} (next : ∀ e, SameExpr n n' (f' (e.mapParams (shift n n'))) (f e)) :
    SameExpr n n' (do f' (← (← oneArgument name args').asExpr))
      (do f (← (← oneArgument name args).asExpr)) :=
  (step_oneArgument renamed).bind fun _ _ here => here.asExpr.bind fun _ e he => he ▸ next e

theorem step_optionalLambda (renamed : List.Forall₂ (Argument.Renamed n n') args' args)
    {f f' : Option (Lambda Expr) → Lower Expr}
    (next : ∀ l, SameExpr n n' (f' (Lambda.mapParamsOption (shift n n') l)) (f l)) :
    SameExpr n n' (do f' (← optionalLambda name args')) (do f (← optionalLambda name args)) := by
  refine Lockstep.bind (R := fun l' l => l' = Lambda.mapParamsOption (shift n n') l) ?_
    fun _ l hl => hl ▸ next l
  obtain _ | ⟨here, _ | ⟨_, _⟩⟩ := renamed
  · exact .pure rfl
  · exact (here.asLambda name 1).bind fun _ l hl => .pure (hl ▸ rfl)
  · exact .error _ _

theorem step_noArguments (renamed : List.Forall₂ (Argument.Renamed n n') args' args) {expected : String}
    {x y : Lower Expr} (next : SameExpr n n' x y) :
    SameExpr n n' (do checkArity name args' 0 0 expected; x) (do checkArity name args 0 0 expected; y) := by
  refine Lockstep.bind (R := fun _ _ => True) ?_ fun _ _ _ => next
  obtain _ | ⟨_, _⟩ := renamed
  · exact .pure trivial
  · exact .error _ _

theorem step_asExprs (renamed : List.Forall₂ (Argument.Renamed n n') args' args) :
    Lockstep n n' (fun es' es => es' = mapParamsAll (shift n n') es)
      (args'.mapM fun a => a.asExpr : Lower (List Expr)) (args.mapM fun a => a.asExpr) := by
  induction renamed with
  | nil => exact .pure rfl
  | cons here _ ih =>
    rw [List.mapM_cons, List.mapM_cons]
    refine here.asExpr.bind fun _ e he => ih.bind fun _ es hes => .pure ?_
    rw [he, hes, mapParamsAll]

theorem step_callMethod (renamed : List.Forall₂ (Argument.Renamed n n') args' args) (source : Expr) :
    SameExpr n n' (callMethod (source.mapParams (shift n n')) name args') (callMethod source name args) :=
  (step_asExprs renamed).bind fun _ es hes => .pure (by rw [hes, Expr.mapParams, mapParamsAll])

theorem isOperator_mapParams (ρ : Param → Param) (e : Expr) :
    isOperator (e.mapParams ρ) = isOperator e := by
  cases e <;> rfl

theorem isCollection_mapParams (ρ : Param → Param) (e : Expr) :
    isCollection (e.mapParams ρ) = isCollection e := by
  cases e <;> rfl

theorem step_otherMethod (renamed : List.Forall₂ (Argument.Renamed n n') args' args)
    (other : name ≠ "Cast") (source : Expr) :
    SameExpr n n' (otherMethod (source.mapParams (shift n n')) name args')
      (otherMethod source name args) := by
  unfold otherMethod
  split
  -- One case for each name, in the order of the definition.
  · exact step_oneLambda renamed fun _ => .pure rfl
  · exact step_oneLambda renamed fun _ => .pure rfl
  · obtain _ | ⟨first, _ | ⟨second, _ | ⟨_, _⟩⟩⟩ := renamed
    · exact .error _ _
    · exact (first.asLambda _ _).bind fun _ _ hl => .pure (hl ▸ rfl)
    · exact (first.asLambda _ _).bind fun _ _ hl => (second.asLambda _ _).bind fun _ _ hl' =>
        .pure (hl ▸ hl' ▸ rfl)
    · exact .error _ _
  · obtain _ | ⟨first, _ | ⟨second, _ | ⟨third, _ | ⟨fourth, _ | ⟨_, _⟩⟩⟩⟩⟩ := renamed
    case cons.cons.cons.cons.nil =>
      exact first.asExpr.bind fun _ _ he => (second.asLambda _ _).bind fun _ _ hl =>
        (third.asLambda _ _).bind fun _ _ hl' => (fourth.asLambda _ _).bind fun _ _ hr =>
        .pure (he ▸ hl ▸ hl' ▸ hr ▸ rfl)
    all_goals exact .error _ _
  · obtain _ | ⟨first, _ | ⟨second, _ | ⟨third, _ | ⟨fourth, _ | ⟨_, _⟩⟩⟩⟩⟩ := renamed
    case cons.cons.cons.cons.nil =>
      exact first.asExpr.bind fun _ _ he => (second.asLambda _ _).bind fun _ _ hl =>
        (third.asLambda _ _).bind fun _ _ hl' => (fourth.asLambda _ _).bind fun _ _ hr =>
        .pure (he ▸ hl ▸ hl' ▸ hr ▸ rfl)
    all_goals exact .error _ _
  · obtain _ | ⟨first, _ | ⟨second, _ | ⟨_, _⟩⟩⟩ := renamed
    · exact .error _ _
    · exact (first.asLambda _ _).bind fun _ _ hl => .pure (hl ▸ rfl)
    · refine (first.asLambda _ _).bind fun _ _ hl => ?_
      subst hl
      have pairs := second.pairs
      split
      · rename_i pair
        obtain ⟨_, _, _, pair'⟩ := pairs.mp ⟨_, _, _, pair⟩
        rw [pair']
        exact (second.asLambda _ _).bind fun _ _ hl => .pure (hl ▸ rfl)
      · rename_i single
        split
        · rename_i pair
          obtain ⟨_, _, _, pair'⟩ := pairs.mpr ⟨_, _, _, pair⟩
          exact absurd pair' (single _ _ _)
        · exact (second.asLambda _ _).bind fun _ _ hl => .pure (hl ▸ rfl)
    · exact .error _ _
  · exact step_noArguments renamed (.pure rfl)
  · exact step_noArguments renamed (.pure rfl)
  · exact step_noArguments renamed (.pure rfl)
  · exact step_oneExpr renamed fun _ => .pure rfl
  · exact step_oneExpr renamed fun _ => .pure rfl
  · exact absurd rfl other
  · exact step_optionalLambda renamed fun _ => .pure rfl
  · exact step_oneLambda renamed fun _ => .pure rfl
  · rw [isCollection_mapParams]
    split
    · exact step_oneExpr renamed fun _ => .pure rfl
    · exact step_callMethod renamed source
  · exact step_callMethod renamed source

/-- A cast only looks at the text of its argument. -/
theorem step_cast (terms : args'.map (·.term) = args.map (·.term)) (source : Expr) :
    SameExpr n n' (method (source.mapParams (shift n n')) "Cast" args') (method source "Cast" args) := by
  change SameExpr n n' (otherMethod _ "Cast" args') (otherMethod source "Cast" args)
  unfold otherMethod
  refine Lockstep.bind (R := fun a' a => a'.term = a.term) ?_ fun a' a same => ?_
  · obtain _ | ⟨a', _ | ⟨_, _⟩⟩ := args' <;> obtain _ | ⟨a, _ | ⟨_, _⟩⟩ := args <;>
      simp only [List.map_cons, List.map_nil, List.cons.injEq, reduceCtorEq, and_false, and_true] at terms
    · exact .error _ _
    · exact .pure terms
    · exact .error _ _
  · rw [same]
    split
    · exact .pure rfl
    · exact .pure rfl
    · exact .error _ _

/-- A method call on the same receiver and arguments, over other parameters. -/
theorem step_method (renamed : List.Forall₂ (Argument.Renamed n n') args' args) (other : name ≠ "Cast")
    (source : Expr) :
    SameExpr n n' (method (source.mapParams (shift n n')) name args') (method source name args) := by
  unfold method
  split
  · refine step_oneLambda renamed fun _ => ?_
    split <;> exact .pure rfl
  split
  · exact step_optionalLambda renamed fun _ => .pure rfl
  split
  · exact step_optionalLambda renamed fun _ => .pure rfl
  split
  · rw [isOperator_mapParams]
    split
    · exact step_oneExpr renamed fun _ => .pure rfl
    · exact step_otherMethod renamed other source
  · exact step_otherMethod renamed other source

theorem step_freshParams {params params' : List String} (lengths : params.length = params'.length) :
    Lockstep n n' (fun ids' ids => ids.length = params.length ∧ ids' = ids.map (shift n n'))
      (params'.mapM fun _ => Supply.freshParam : Mint (List Param))
      (params.mapM fun _ => Supply.freshParam : Mint (List Param)) := by
  intro k
  change Follows _ (Except.ok ((params'.mapM fun _ => Supply.freshParam : Mint (List Param)).run ⟨n' + k⟩))
    (Except.ok ((params.mapM fun _ => Supply.freshParam : Mint (List Param)).run ⟨n + k⟩))
  rw [run_freshParams, run_freshParams, lengths]
  refine Follows.pure ⟨⟨by simp, ?_⟩, k + params'.length, by simp [Nat.add_assoc], by simp [Nat.add_assoc]⟩
  rw [List.range'_eq_map_range, List.range'_eq_map_range, List.map_map, List.map_map, List.map_map]
  refine List.map_congr_left fun i _ => ?_
  change Param.mk (n' + k + i) = shift n n' ⟨n + k + i⟩
  rw [Nat.add_assoc, Nat.add_assoc, shift_add]

theorem negative_mapParams (ρ : Param → Param) (e : Expr) :
    negative (e.mapParams ρ) = (negative e).mapParams ρ := by
  cases e with
  | const v => cases v <;> rfl
  | _ => rfl

theorem AlphaAll.length_eq {ns ns' : List String} {ts ts' : List Term} (h : AlphaAll ns ns' ts ts') :
    ts.length = ts'.length := by
  induction ts generalizing ts' with
  | nil =>
    cases h
    rfl
  | cons t rest ih =>
    obtain _ | ⟨_, h⟩ := h
    rw [List.length_cons, List.length_cons, ih h]

/-- The parameters of one more lambda are in sight. -/
theorem Names.Linked.push {ρ : Param → Param} {ns ns' params params' : List String} {names names' : Names}
    {ids : List Param} (linked : Linked ρ ns ns' names names') (lengths : params.length = params'.length)
    (count : ids.length = params.length) :
    Linked ρ (params ++ ns) (params' ++ ns') (params.zip ids ++ names)
      (params'.zip (ids.map ρ) ++ names') where
  fst := by rw [List.map_append, List.map_fst_zip (by omega), linked.fst]
  fst' := by rw [List.map_append, List.map_fst_zip (by simp; omega), linked.fst']
  snd := by
    rw [List.map_append, List.map_append, List.map_snd_zip (by simp; omega), linked.snd]
    congr 1
    rw [← Function.comp_def ρ, ← List.map_map, List.map_snd_zip (by omega)]

theorem term_lowerArguments (names : Names) (ts : List Term) :
    (lowerArguments names ts).map (·.term) = ts := by
  induction ts with
  | nil => rfl
  | cons t rest ih => rw [lowerArguments, List.map_cons, ih]

theorem Term.Alpha.pairs {ns ns' : List String} {t t' : Term} (alpha : t.Alpha ns ns' t') :
    (∃ x y body, t' = .lambda [x, y] body) ↔ ∃ x y body, t = .lambda [x, y] body := by
  cases alpha with
  | @lambda _ _ params params' _ _ lengths _ =>
    constructor
    · rintro ⟨x, y, body, same⟩
      cases same
      obtain ⟨x', y', rfl⟩ := List.length_eq_two.mp lengths
      exact ⟨_, _, _, rfl⟩
    · rintro ⟨x, y, body, same⟩
      cases same
      obtain ⟨x', y', rfl⟩ := List.length_eq_two.mp lengths.symm
      exact ⟨_, _, _, rfl⟩
  | _ => simp

/-- An initialiser has the same name, since it is not named after a variable. -/
theorem step_fieldName {ns ns' : List String} : (given : Option String) → (t : Term) → {t' : Term} →
    t.Alpha ns ns' t' → (given = none → ∀ name, t ≠ .variable name) →
    Lockstep n n' (fun name' name => name' = name) (fieldName given t') (fieldName given t)
  | some _, _, _, _, _ => .pure rfl
  | none, .get _ _, _, .get _ _, _ => .pure rfl
  | none, .variable name, _, _, named => absurd rfl (named rfl name)
  | none, .literal _, _, _, _ | none, .list _, _, _, _ | none, .method _ _ _, _, _, _
  | none, .function _ _, _, _, _ | none, .lambda _ _, _, _, _ | none, .construct _ _, _, _, _
  | none, .apply _ _, _, _, _ | none, .cond _ _ _, _, _, _ => .error _ _

mutual

theorem step_lower {ns ns' : List String} {names names' : Names}
    (linked : Names.Linked (shift n n') ns ns' names names') : (t : Term) → {t' : Term} →
    t.Alpha ns ns' t' → SameExpr n n' (lower names' t') (lower names t)
  | .literal l, _, .literal _ => .pure rfl
  | .variable name, _, .variable refers => by
    rw [lower_variable, lower_variable]
    exact .pure (linked.node refers)
  | .list items, _, .list all => by
    exact (step_constants linked items all).bind fun _ _ hvs => .pure (hvs ▸ rfl)
  | .get target member, _, .get _ alpha => by
    exact (step_lower linked target alpha).bind fun _ _ he => .pure (he ▸ rfl)
  | .method target _ args, _, .cast _ alpha => by
    refine (step_lower linked target alpha).bind fun _ source hsource => ?_
    subst hsource
    exact step_cast (by rw [term_lowerArguments, term_lowerArguments]) source
  | .method target name args, _, .method other alpha all => by
    refine (step_lower linked target alpha).bind fun _ source hsource => ?_
    subst hsource
    exact step_method (step_arguments linked args all) other source
  | .function name args, _, .function _ all => by
    rw [lower, lower, all.length_eq]
    split
    · exact (step_all linked args all).bind fun _ _ hes => .pure (hes ▸ rfl)
    · exact .error _ _
  | .lambda params body, _, .lambda _ _ => .error _ _
  | .construct typeName fields, _, .construct _ all => by
    exact (step_fields linked fields all).bind fun _ _ hfs => .pure (hfs ▸ rfl)
  | .apply op operands, _, .apply _ all => step_apply linked op operands all
  | .cond test onTrue onFalse, _, .cond htest htrue hfalse => by
    exact (step_lower linked test htest).bind fun _ _ he =>
      (step_lower linked onTrue htrue).bind fun _ _ he' =>
      (step_lower linked onFalse hfalse).bind fun _ _ he'' => .pure (he ▸ he' ▸ he'' ▸ rfl)
termination_by structural t => t

theorem step_all {ns ns' : List String} {names names' : Names}
    (linked : Names.Linked (shift n n') ns ns' names names') : (ts : List Term) → {ts' : List Term} →
    AlphaAll ns ns' ts ts' → Lockstep n n' (fun es' es => es' = mapParamsAll (shift n n') es)
      (lowerAll names' ts') (lowerAll names ts)
  | [], _, .nil => .pure rfl
  | t :: rest, _, .cons alpha all =>
    (step_lower linked t alpha).bind fun _ _ he => (step_all linked rest all).bind fun _ _ hes =>
      .pure (he ▸ hes ▸ rfl)
termination_by structural ts => ts

theorem step_constants {ns ns' : List String} {names names' : Names}
    (linked : Names.Linked (shift n n') ns ns' names names') : (ts : List Term) → {ts' : List Term} →
    AlphaAll ns ns' ts ts' → Lockstep n n' (fun vs' vs => vs' = vs)
      (lowerConstants names' ts') (lowerConstants names ts)
  | [], _, .nil => .pure rfl
  | t :: rest, _, .cons alpha all => by
    refine (step_lower linked t alpha).bind fun _ e he => Lockstep.bind (R := fun v' v => v' = v) ?_
      fun _ _ hv => (step_constants linked rest all).bind fun _ _ hvs => .pure (hv ▸ hvs ▸ rfl)
    subst he
    cases e <;> first | exact .pure rfl | exact .error _ _
termination_by structural ts => ts

theorem step_fields {ns ns' : List String} {names names' : Names}
    (linked : Names.Linked (shift n n') ns ns' names names') : (fs : List (Option String × Term)) →
    {fs' : List (Option String × Term)} → AlphaFields ns ns' fs fs' →
    Lockstep n n' (fun fields' fields => fields' = mapParamsFields (shift n n') fields)
      (lowerFields names' fs') (lowerFields names fs)
  | [], _, .nil => .pure rfl
  | (given, t) :: rest, _, .cons named alpha all => by
    refine Lockstep.bind (R := fun name' name => name' = name) ?_ fun _ _ hname =>
      (step_lower linked t alpha).bind fun _ _ he => (step_fields linked rest all).bind fun _ _ hfs =>
        .pure (hname ▸ he ▸ hfs ▸ rfl)
    exact step_fieldName given t alpha named
termination_by structural fs => fs

theorem step_apply {ns ns' : List String} {names names' : Names}
    (linked : Names.Linked (shift n n') ns ns' names names') (op : Op) : (ts : List Term) →
    {ts' : List Term} → AlphaAll ns ns' ts ts' →
    SameExpr n n' (lowerApply names' op ts') (lowerApply names op ts)
  | [], _, .nil => .error _ _
  | [a], _, .cons alpha .nil => by
    unfold lowerApply
    split
    · exact (step_lower linked a alpha).bind fun _ _ he => .pure (he ▸ rfl)
    · exact (step_lower linked a alpha).bind fun _ e he => .pure (he ▸ negative_mapParams _ e)
    · exact .error _ _
  | [a, b], _, .cons alpha (.cons alpha' .nil) => by
    unfold lowerApply
    split
    · exact (step_lower linked a alpha).bind fun _ _ he => (step_lower linked b alpha').bind fun _ _ he' =>
        .pure (he ▸ he' ▸ rfl)
    · exact .error _ _
  | _ :: _ :: _ :: _, _, .cons _ (.cons _ (.cons _ _)) => .error _ _
termination_by structural ts => ts

theorem step_lambda {ns ns' : List String} {names names' : Names}
    (linked : Names.Linked (shift n n') ns ns' names names') : (t : Term) → {t' : Term} →
    t.Alpha ns ns' t' → ∀ operator count, Lockstep n n' (fun l' l => l' = l.mapParams (shift n n'))
      (lowerLambda names' t' operator count) (lowerLambda names t operator count)
  | .lambda params body, _, .lambda lengths alpha, operator, count => by
    rw [lowerLambda, lowerLambda, lengths]
    split
    · refine (step_freshParams lengths).bind ?_
      rintro _ ids ⟨size, rfl⟩
      exact (step_lower (linked.push lengths size) body alpha).bind fun _ _ he => .pure (he ▸ rfl)
    · exact .error _ _
  | .literal _, _, _, _, _ | .variable _, _, _, _, _ | .list _, _, _, _, _ | .get _ _, _, _, _, _
  | .method _ _ _, _, _, _, _ | .function _ _, _, _, _, _ | .construct _ _, _, _, _, _
  | .apply _ _, _, _, _, _ | .cond _ _ _, _, _, _, _ => .error _ _
termination_by structural t => t

theorem step_arguments {ns ns' : List String} {names names' : Names}
    (linked : Names.Linked (shift n n') ns ns' names names') : (ts : List Term) → {ts' : List Term} →
    AlphaAll ns ns' ts ts' →
    List.Forall₂ (Argument.Renamed n n') (lowerArguments names' ts') (lowerArguments names ts)
  | [], _, .nil => .nil
  | t :: rest, _, .cons alpha all =>
    .cons ⟨step_lower linked t alpha, step_lambda linked t alpha, alpha.pairs⟩
      (step_arguments linked rest all)
termination_by structural ts => ts

end

end Step

theorem shift_injective {n n' : Nat} {p q : Param} (hp : n ≤ p.id) (hq : n ≤ q.id)
    (same : shift n n' p = shift n n' q) : p = q := by
  obtain ⟨i⟩ := p
  obtain ⟨j⟩ := q
  have same : i - n + n' = j - n + n' := Param.mk.inj same
  have hp : n ≤ i := hp
  have hq : n ≤ j := hq
  rw [Param.mk.injEq]
  omega

/-- Reading a query binds every variable where it should be bound: the parameters of its lambdas are new
and differ from each other, every parameter is used under the lambda that binds it, which is the innermost
one with the name of the variable, and the query under other names is read as the same tree over other
parameters. -/
theorem lower_scoped {t : Term} {s s' : Supply} {e : Expr} (h : (lower [] t).run s = .ok (e, s')) :
    (Part.expr e).binders.Nodup
      ∧ (∀ p ∈ (Part.expr e).binders, s.next ≤ p.id ∧ p.id < s'.next)
      ∧ (∀ u ∈ (Part.expr e).uses [], ∀ p, u.node = .param p → ∃ ids ∈ u.frames, p ∈ ids)
      ∧ List.Forall₂ Mention.Becomes (t.mentions []) ((Part.expr e).uses [])
      ∧ ∀ t', t.Alpha [] [] t' → ∀ supply, ∃ ρ supply',
        (∀ p ∈ (Part.expr e).binders, ∀ q ∈ (Part.expr e).binders, ρ p = ρ q → p = q)
          ∧ (lower [] t').run supply = .ok (e.mapParams ρ, supply') := by
  have made := made_lower .nil t h
  refine ⟨made.binders_nodup, made.binders_fresh, made.bound, made.uses_one, fun t' alpha supply => ?_⟩
  have linked : Names.Linked (shift s.next supply.next) [] [] [] [] := ⟨rfl, rfl, rfl⟩
  obtain ⟨⟨e', supply'⟩, run, same, -⟩ := step_lower linked t alpha 0 _ h
  refine ⟨shift s.next supply.next, supply', fun p hp q hq => ?_, same ▸ run⟩
  exact shift_injective (made.binders_fresh p hp).1 (made.binders_fresh q hq).1

end Language

namespace Sample

open ObjectQuery.Language

def orderCounts (customer order : String) : Term :=
  .method (.variable "Customers") "Select" [.lambda [customer]
    (.method
      (.method (.get (.variable customer) "Orders") "Where" [.lambda [order]
        (.apply .equal [.get (.variable order) "CustomerID", .get (.variable customer) "CustomerID"])])
      "Count" [])]

/-- The two parameters may exchange their names. -/
theorem orderCounts_renamed :
    ∃ e, (lower [] (orderCounts "c" "o")).run ⟨0⟩ = .ok (e, ⟨2⟩) ∧ (Part.expr e).binders.Nodup
      ∧ ∃ ρ supply', (lower [] (orderCounts "o" "c")).run ⟨7⟩ = .ok (e.mapParams ρ, supply') := by
  have run : ∃ e, (lower [] (orderCounts "c" "o")).run ⟨0⟩ = .ok (e, ⟨2⟩) := ⟨_, rfl⟩
  obtain ⟨e, run⟩ := run
  have alpha : (orderCounts "c" "o").Alpha [] [] (orderCounts "o" "c") := by
    have outer : Refers "c" "o" ["c"] ["o"] := .here
    have inner : Refers "o" "c" ["o", "c"] ["c", "o"] := .here
    have around : Refers "c" "o" ["o", "c"] ["c", "o"] := .there (by decide) (by decide) .here
    have test := Term.Alpha.apply .equal (.cons (.get "CustomerID" (.variable inner))
      (.cons (.get "CustomerID" (.variable around)) .nil))
    exact .method (by decide) (.variable (.table rfl)) (.cons (.lambda rfl (.method (by decide)
      (.method (by decide) (.get _ (.variable outer)) (.cons (.lambda rfl test) .nil)) .nil)) .nil)
  obtain ⟨nodup, -, -, -, renamed⟩ := lower_scoped run
  obtain ⟨ρ, supply', -, run'⟩ := renamed _ alpha ⟨7⟩
  exact ⟨e, run, nodup, ρ, supply', run'⟩

end Sample

end ObjectQuery
