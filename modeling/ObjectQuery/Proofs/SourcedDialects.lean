import ObjectQuery.Proofs.CountedRows
import ObjectQuery.Proofs.Groupings

/-!
Dialects that need a source in every select. Only the root of a query is bound differently there: below it
every operator is bound alike, and so are the rows of which a question at the root is asked. The question
itself becomes a count in place of a search.
-/

namespace ObjectQuery

def Context.sourced (ctx : Context) : Context :=
  { ctx with dialect := { ctx.dialect with allowsSelectWithoutSource := false } }

namespace Binding

theorem toSequence_sourced (ctx : Context) : toSequence ctx.sourced = toSequence ctx := by
  funext e
  induction e using toSequence.induct ctx with
  | case1 => rfl
  | case2 _ _ ih => exact ih
  | case3 _ _ ih => exact ih
  | case4 | case5 => rfl
  | case6 _ projection grouping outerJoined member =>
    rw [toSequence.eq_5 _ _ projection grouping outerJoined member,
      toSequence.eq_5 _ _ projection grouping outerJoined member]

variable (ctx : Context)

theorem sequence_sourced : sequence ctx.sourced = sequence ctx := by
  funext source
  simp only [sequence, toSequence_sourced]

theorem filter_sourced : filter ctx.sourced = filter ctx := by
  funext source predicate
  simp only [filter, sequence_sourced]
  rfl

theorem ask_sourced : ask ctx.sourced false = ask ctx false := by
  funext quantifier source predicate
  simp only [ask, sequence_sourced, filter_sourced]
  rfl

theorem contains_sourced : contains ctx.sourced false = contains ctx false := by
  funext source item
  simp only [contains, sequence_sourced, ask_sourced, Bool.not_false, Bool.true_or]

theorem membership_sourced : membership ctx.sourced = membership ctx := by
  funext negate left right constants
  simp only [membership, filter_sourced, ask_sourced]
  rfl

/-- Below the root no operator is bound differently. -/
theorem bind_sourced (bindLater : Lambda Expr → Binding Expr) (op : Operator Operand) :
    Operator.bind ctx.sourced false bindLater op = Operator.bind ctx false bindLater op := by
  cases op with
  | table | thenBy | insert | update | insertOrUpdate | delete | batch => rfl
  | filter => simp only [Operator.bind, filter_sourced]
  | cast => simp only [Operator.bind, sequence_sourced]
  | map | flatMap | join | groupJoin | orderBy | groupBy | distinct | take | skip | reverse | defaultIfEmpty
  | element | aggregate =>
    simp only [Operator.bind, map, flatMap, join, groupJoin, orderBy, groupBy, clause, defaultIfEmpty, element,
      aggregate, sequence_sourced, filter_sourced]
    rfl
  | any | all => simp only [Operator.bind, ask_sourced]
  | contains => simp only [Operator.bind, contains_sourced]
  | setOp kind left right =>
    cases kind <;> simp only [Operator.bind, union, sequence_sourced, membership_sourced] <;> rfl

end Binding

variable (ctx : Context)

mutual

/-- Below the root a dialect that needs sources binds alike. -/
theorem Expr.bindAt_sourced (fuel : Nat) (e : Expr) :
    e.bindAt ctx.sourced fuel false = e.bindAt ctx fuel false := by
  have parts : e.traverse (fun c _ => c.bindAt ctx.sourced fuel false) (fun s _ => s.bindAt ctx.sourced fuel)
        (fun p _ => p.bindAt ctx.sourced fuel)
      = e.traverse (fun c _ => c.bindAt ctx fuel false) (fun s _ => s.bindAt ctx fuel)
        (fun p _ => p.bindAt ctx fuel) := by
    congr
    · funext c h
      exact Expr.bindAt_sourced fuel c
    · funext s h
      exact Select.bindAt_sourced fuel s
    · funext p h
      exact Projection.bindAt_sourced fuel p
  cases e with
  | param p => rw [Expr.bindAt, Expr.bindAt]
  | member target name => rw [Expr.bindAt, Expr.bindAt, Expr.bindAt_sourced fuel target]
  | operator op =>
    have operands : (op.mapMem fun e _ => (⟨e, e.bindAt ctx.sourced fuel false,
          e.peeled.bindAt ctx.sourced fuel false⟩ : Operand))
        = op.mapMem fun e _ => ⟨e, e.bindAt ctx fuel false, e.peeled.bindAt ctx fuel false⟩ := by
      congr
      funext e h
      rw [Expr.bindAt_sourced fuel e, Expr.bindAt_sourced fuel e.peeled]
    have later : ∀ less < fuel, (fun l : Lambda Expr => l.body.bindAt ctx.sourced less false)
        = fun l => l.body.bindAt ctx less false := by
      intro less h
      funext l
      exact Expr.bindAt_sourced less l.body
    cases fuel with
    | zero => rw [Expr.bindAt, Expr.bindAt, operands, Binding.bind_sourced]
    | succ less =>
      rw [Expr.bindAt, Expr.bindAt, operands, later less (Nat.lt_succ_self _), Binding.bind_sourced]
  | _ => rw [Expr.bindAt, Expr.bindAt, parts] <;> simp
termination_by (fuel, (Part.expr e).weight)
decreasing_by
  · exact Prod.Lex.right _ (Part.weight_lt ‹_›)
  · exact Prod.Lex.right _ (Part.weight_lt ‹_›)
  · exact Prod.Lex.right _ (Part.weight_lt ‹_›)
  · exact Prod.Lex.right _ (Part.weight_lt (by simp [Part.parts]))
  · exact Prod.Lex.right _ (Operator.weight_lt ‹_›)
  · exact Prod.Lex.right _ (Nat.lt_of_le_of_lt (Expr.sizeOf_peeled_le _) (Operator.weight_lt ‹_›))
  · exact Prod.Lex.left _ _ ‹_›

theorem Select.bindAt_sourced (fuel : Nat) (s : Select Expr) : s.bindAt ctx.sourced fuel = s.bindAt ctx fuel := by
  rw [Select.bindAt, Select.bindAt]
  congr
  funext e h
  exact Expr.bindAt_sourced fuel e
termination_by (fuel, (Part.select s).weight)
decreasing_by exact Prod.Lex.right _ (Part.weight_lt ‹_›)

theorem Projection.bindAt_sourced (fuel : Nat) (p : Projection Expr) :
    p.bindAt ctx.sourced fuel = p.bindAt ctx fuel := by
  rw [Projection.bindAt, Projection.bindAt]
  congr
  · funext e h
    exact Expr.bindAt_sourced fuel e
  · funext s h
    exact Select.bindAt_sourced fuel s
termination_by (fuel, (Part.projection p).weight)
decreasing_by all_goals exact Prod.Lex.right _ (Part.weight_lt ‹_›)

end

namespace Binding

def asked (ctx : Context) (quantifier : Quantifier) (source : Binding Expr) (predicate : Option Body) :
    Binding (Projection Expr) :=
  match predicate, quantifier with
  | none, _ => sequence ctx source
  | some body, .some => filter ctx source body
  | some body, .all => filter ctx source { body with bind := do return .negated (← body.bind) }

variable {quantifier : Quantifier} {source : Binding Expr} {predicate : Option Body}

theorem ask_eq (ctx : Context) (root : Bool) : ask ctx root quantifier source predicate
    = (do askRows ctx root quantifier (← asked ctx quantifier source predicate).select) := by
  cases predicate <;> cases quantifier <;> rfl

theorem asked_sourced (ctx : Context) : asked ctx.sourced quantifier source predicate
    = asked ctx quantifier source predicate := by
  cases predicate <;> cases quantifier <;> simp only [asked, sequence_sourced, filter_sourced]

theorem askRows_holding {ctx : Context} (sourceless : ctx.dialect.allowsSelectWithoutSource = true)
    (s : Select Expr) : askRows ctx true quantifier s
      = (do return .projection (.holding (← Supply.freshAlias) (quantifier.holds s))) := by
  simp only [askRows, sourceless]
  cases quantifier <;> rfl

theorem askRows_counts (ctx : Context) (s : Select Expr) :
    askRows ctx.sourced true quantifier s = return .projection (quantifier.counts s) := by
  cases quantifier <;> rfl

/-- A question is answered by a row that holds the answer, or from a count of the same rows. -/
theorem ask_run {ctx : Context} (sourceless : ctx.dialect.allowsSelectWithoutSource = true) {s s' : BindState}
    {bound : Expr} (h : (ask ctx true quantifier source predicate).run s = .ok (bound, s')) :
    ∃ rel rows s'', bound = .projection (.holding rel (quantifier.holds rows))
      ∧ (ask ctx.sourced true quantifier source predicate).run s
        = .ok (.projection (quantifier.counts rows), s'') := by
  rw [ask_eq, StateT.run_bind] at h
  obtain ⟨⟨rows, s''⟩, found, h⟩ := bind_eq_ok.mp h
  rw [askRows_holding sourceless] at h
  refine ⟨_, rows.select, s'', (congrArg Prod.fst (Except.ok.inj h)).symm, ?_⟩
  rw [ask_eq, asked_sourced, StateT.run_bind, found, ok_bind, askRows_counts]
  rfl

end Binding

open Binding

inductive Operator.Asks : Operator Expr → Quantifier → Prop where
  | any (source : Expr) (predicate : Option (Lambda Expr)) : Asks (.any source predicate) .some
  | all (source : Expr) (predicate : Lambda Expr) : Asks (.all source predicate) .all

variable {ctx} {op : Operator Expr} {quantifier : Quantifier} {supply supply' : Supply} {bound : Expr}

/-- A question is asked of the rows of its source; where the source is a list of constants, it does not
depend on the dialect. -/
theorem Operator.Asks.bindAt_eq (asks : op.Asks quantifier) (ctx : Context) (fuel : Nat) :
    (Expr.operator op).bindAt ctx.sourced fuel true = (Expr.operator op).bindAt ctx fuel true
      ∨ ∃ source predicate, (Expr.operator op).bindAt ctx fuel true = ask ctx true quantifier source predicate
        ∧ (Expr.operator op).bindAt ctx.sourced fuel true = ask ctx.sourced true quantifier source predicate := by
  obtain ⟨_, bound⟩ := Expr.bindAt_operator ctx fuel true op
  obtain ⟨_, boundSourced⟩ := Expr.bindAt_operator ctx.sourced fuel true op
  simp only [Expr.bindAt_sourced] at boundSourced
  rw [bound, boundSourced]
  cases asks with
  | any source predicate =>
    simp only [Operator.mapMem, Operator.bind]
    split
    · exact .inl rfl
    · exact .inr ⟨_, _, rfl, rfl⟩
  | all source predicate =>
    simp only [Operator.mapMem, Operator.bind]
    split
    · exact .inl rfl
    · exact .inr ⟨_, _, rfl, rfl⟩

/-- Where a dialect needs a source, a question is bound to a count of the rows of which the other dialect
asks whether there are any; a question about constants is bound alike. -/
theorem Operator.Asks.bind_sourced (asks : op.Asks quantifier)
    (sourceless : ctx.dialect.allowsSelectWithoutSource = true)
    (h : ((Expr.operator op).bind ctx).run supply = .ok (bound, supply')) :
    ∃ bound' supply'', ((Expr.operator op).bind ctx.sourced).run supply = .ok (bound', supply'')
      ∧ (bound' = bound ∨ ∃ rel s, bound = .projection (.holding rel (quantifier.holds s))
        ∧ bound' = .projection (quantifier.counts s)) := by
  have run : ∃ s, ((Expr.operator op).bindAt ctx (Part.expr (.operator op)).extent true).run (start supply)
      = .ok (bound, s) := by
    rw [Expr.bind_run] at h
    split at h
    · rename_i found
      obtain ⟨rfl, -⟩ := Prod.mk.inj (Except.ok.inj h)
      exact ⟨_, found⟩
    · cases h
  obtain ⟨s, run⟩ := run
  obtain alike | ⟨source, predicate, direct, sourced⟩ := asks.bindAt_eq ctx (Part.expr (.operator op)).extent
  · exact ⟨bound, _, Expr.bind_of_run (alike ▸ run), .inl rfl⟩
  · rw [direct] at run
    obtain ⟨rel, rows, _, holds, counts⟩ := ask_run sourceless run
    exact ⟨_, _, Expr.bind_of_run (sourced ▸ counts), .inr ⟨rel, rows, holds, rfl⟩⟩

/-- Over rows that can be counted, a question has the same answer where a dialect needs a source. -/
theorem Operator.Asks.execute_sourced (asks : op.Asks quantifier)
    (sourceless : ctx.dialect.allowsSelectWithoutSource = true)
    (h : ((Expr.operator op).bind ctx).run supply = .ok (bound, supply'))
    (countable : ∀ rel s, bound = .projection (.holding rel (quantifier.holds s)) → s.Countable) :
    ∃ bound' supply'', ((Expr.operator op).bind ctx.sourced).run supply = .ok (bound', supply'')
      ∧ ∀ tables v, bound.execute tables = .ok v → bound'.execute tables = .ok v := by
  obtain ⟨bound', supply'', run, alike | ⟨rel, s, holds, counts⟩⟩ := asks.bind_sourced sourceless h
  · exact ⟨bound', supply'', run, fun _ _ found => alike ▸ found⟩
  · refine ⟨bound', supply'', run, fun _ _ found => ?_⟩
    rw [holds] at found
    rw [counts]
    exact execute_counts (countable rel s holds) found

/-- The rows of a table can be counted. -/
theorem Mapping.Entity.countable_rows (e : Mapping.Entity) (rel table : Alias) :
    (e.rows rel table).select.Countable where
  groupBy := rfl
  aggregates := (Select.flat_forwarding (by simp)).aggregates
  orderBy := fun o (h : o ∈ []) => by cases h
  skip := rfl
  take := rfl

/-- Whether a table has rows is answered alike. -/
theorem Expr.any_table_sourced (sourceless : ctx.dialect.allowsSelectWithoutSource = true) {name : String}
    {e : Mapping.Entity} (resolved : ctx.mapping.resolve name = .ok e) (supply : Supply) :
    let any := Expr.operator (.any (.operator (.table name)) none)
    ∃ bound s bound' s', (any.bind ctx).run supply = .ok (bound, s)
      ∧ (any.bind ctx.sourced).run supply = .ok (bound', s')
      ∧ ∀ tables v, bound.execute tables = .ok v → bound'.execute tables = .ok v := by
  intro any
  have asks : Operator.Asks (.any (.operator (.table name)) none) .some := .any _ _
  obtain ⟨n⟩ := supply
  obtain ⟨_, operator⟩ := Expr.bindAt_operator ctx (Part.expr any).extent true (.any (.operator (.table name)) none)
  have rows : (sequence ctx ((Expr.operator (.table name)).bindAt ctx (Part.expr any).extent false)).run
        (start ⟨n⟩) = .ok (e.rows ⟨n + 1⟩ ⟨n⟩, start ⟨n + 2⟩) :=
    sequence_run (table_run resolved false rfl)
  have run : (any.bindAt ctx (Part.expr any).extent true).run (start ⟨n⟩)
      = .ok (.projection (.holding ⟨n + 2⟩ (.existsIn (e.rows ⟨n + 1⟩ ⟨n⟩).select)), start ⟨n + 3⟩) := by
    rw [operator]
    refine yields.bind rows (?_ : yields.gives _ (askRows ctx true .some (e.rows ⟨n + 1⟩ ⟨n⟩).select) _ _)
    rw [askRows_holding sourceless]
    rfl
  have bound := Expr.bind_of_run run
  obtain ⟨bound', s', sourced, agree⟩ := asks.execute_sourced sourceless bound fun rel s same => by
    have rows : Quantifier.some.holds (e.rows ⟨n + 1⟩ ⟨n⟩).select = Quantifier.some.holds s := by
      injection same with same
      injection same with selects
      injection (Select.mk.inj selects).2.1 with column
      exact congrArg ColumnDecl.expr column
    injection rows with rows
    exact rows ▸ e.countable_rows _ _
  exact ⟨_, _, bound', s', bound, sourced, agree⟩

end ObjectQuery
