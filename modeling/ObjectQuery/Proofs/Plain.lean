import ObjectQuery.Proofs.Evaluation
import ObjectQuery.Proofs.Traversal
import ObjectQuery.Tree.Same

/-!
Plain expressions: constants without floats, columns, operators, calls and constructed objects, with
no subquery inside. Passes walk over them without a trace, at most putting something else in place of
their columns, and their values depend on nothing but those of their columns.
-/

namespace ObjectQuery

inductive Value.Exact : Value → Prop
  | null : Exact .null
  | bool (b : Bool) : Exact (.bool b)
  | int (n : Int) : Exact (.int n)
  | text (s : String) : Exact (.text s)
  | list {items : List Value} : (∀ v ∈ items, Exact v) → Exact (.list items)

theorem Value.eq_of_sameList {as bs : List Value}
    (same : ∀ a ∈ as, ∀ b ∈ bs, Value.same a b = true → a = b) (h : Value.sameList as bs = true) :
    as = bs := by
  induction as generalizing bs with
  | nil =>
    cases bs with
    | nil => rfl
    | cons _ _ => simp [Value.sameList] at h
  | cons a as ih =>
    cases bs with
    | nil => simp [Value.sameList] at h
    | cons b bs =>
      simp only [Value.sameList, Bool.and_eq_true] at h
      rw [same a (by simp) b (by simp) h.1,
        ih (fun a ha b hb => same a (by simp [ha]) b (by simp [hb])) h.2]

theorem Value.Exact.eq_of_same {a b : Value} (h : a.Exact) (hab : Value.same a b = true) :
    a = b := by
  induction h generalizing b with
  | list _ ih =>
    cases b with
    | list items =>
      exact congrArg _ (eq_of_sameList (fun a ha _ _ => ih a ha) (by simpa [Value.same] using hab))
    | _ => simp [Value.same] at hab
  | _ => cases b <;> simp_all [Value.same]

theorem Value.Exact.eq_of_same_right {a b : Value} (h : b.Exact) (hab : Value.same a b = true) :
    a = b := by
  induction h generalizing a with
  | list _ ih =>
    cases a with
    | list items =>
      exact congrArg _ (eq_of_sameList (fun _ _ b hb => ih b hb) (by simpa [Value.same] using hab))
    | _ => simp [Value.same] at hab
  | _ => cases a <;> simp_all [Value.same]

inductive Plain (members : Prop) (P : Column → Prop) : Expr → Prop
  | const {v : Value} : v.Exact → Plain members P (.const v)
  | column {c : Column} : P c → Plain members P (.column c)
  | binary {op : BinaryOp} {left right : Expr} :
    Plain members P left → Plain members P right → Plain members P (.binary op left right)
  | unary {op : UnaryOp} {operand : Expr} :
    Plain members P operand → Plain members P (.unary op operand)
  | cond {test onTrue onFalse : Expr} : Plain members P test → Plain members P onTrue →
    Plain members P onFalse → Plain members P (.cond test onTrue onFalse)
  | call {function : String} {args : List Expr} :
    (∀ a ∈ args, Plain members P a) → Plain members P (.call function args)
  | construct {typeName : Option String} {fields : List (Field Expr)} :
    (∀ f ∈ fields, Plain members P f.expr) → Plain members P (.construct typeName fields)
  | entity {name : String} {e : Expr} : Plain members P e → Plain members P (.entity name e)
  | isNull {e : Expr} : Plain members P e → Plain members P (.isNull e)
  | member {target : Expr} {name : String} :
    members → Plain members P target → Plain members P (.member target name)

def Expr.replace (σ : Column → Expr) (e : Expr) : Expr :=
  e.substitute fun c => some (σ c)

namespace Expr

variable (σ : Column → Expr)

@[simp] theorem replace_column (c : Column) : (Expr.column c).replace σ = σ c := by
  simp [replace, substitute]

@[simp] theorem replace_const (v : Value) : (Expr.const v).replace σ = .const v := by
  simp [replace, substitute, traverse]

@[simp] theorem replace_binary (op : BinaryOp) (a b : Expr) :
    (Expr.binary op a b).replace σ = .binary op (a.replace σ) (b.replace σ) := by
  simp [replace, substitute, traverse]

@[simp] theorem replace_unary (op : UnaryOp) (a : Expr) :
    (Expr.unary op a).replace σ = .unary op (a.replace σ) := by
  simp [replace, substitute, traverse]

@[simp] theorem replace_cond (a b c : Expr) :
    (Expr.cond a b c).replace σ = .cond (a.replace σ) (b.replace σ) (c.replace σ) := by
  simp [replace, substitute, traverse]

@[simp] theorem replace_call (f : String) (args : List Expr) :
    (Expr.call f args).replace σ = .call f (args.map (replace σ)) := by
  simp [replace, substitute, traverse]

@[simp] theorem replace_construct (t : Option String) (fields : List (Field Expr)) :
    (Expr.construct t fields).replace σ
      = .construct t (fields.map fun f => ⟨f.name, f.expr.replace σ⟩) := by
  simp [replace, substitute, traverse]

@[simp] theorem replace_entity (n : String) (e : Expr) :
    (Expr.entity n e).replace σ = .entity n (e.replace σ) := by
  simp [replace, substitute, traverse]

@[simp] theorem replace_isNull (e : Expr) : (Expr.isNull e).replace σ = .isNull (e.replace σ) := by
  simp [replace, substitute, traverse]

@[simp] theorem replace_member (e : Expr) (n : String) :
    (Expr.member e n).replace σ = .member (e.replace σ) n := by
  simp [replace, substitute, traverse]

end Expr

namespace Plain

variable {members members' : Prop} {P Q : Column → Prop} {e : Expr} {σ : Column → Expr}

theorem mono (h : Plain members P e) (hm : members → members') (hc : ∀ c, P c → Q c) :
    Plain members' Q e := by
  induction h with
  | const hv => exact .const hv
  | column h => exact .column (hc _ h)
  | binary _ _ hl hr => exact .binary hl hr
  | unary _ h => exact .unary h
  | cond _ _ _ ht hl hr => exact .cond ht hl hr
  | call _ h => exact .call h
  | construct _ h => exact .construct h
  | entity _ h => exact .entity h
  | isNull _ h => exact .isNull h
  | member h _ ht => exact .member (hm h) ht

theorem replace (h : Plain members P e) (hσ : ∀ c, P c → Plain members Q (σ c)) :
    Plain members Q (e.replace σ) := by
  induction h with
  | const hv => simpa using Plain.const hv
  | column h => simpa using hσ _ h
  | binary _ _ hl hr => simpa using Plain.binary hl hr
  | unary _ h => simpa using Plain.unary h
  | cond _ _ _ ht hl hr => simpa using Plain.cond ht hl hr
  | call _ h =>
    rw [Expr.replace_call]
    refine .call fun a ha => ?_
    obtain ⟨a, hm, rfl⟩ := List.mem_map.mp ha
    exact h a hm
  | construct _ h =>
    rw [Expr.replace_construct]
    refine .construct fun f hf => ?_
    obtain ⟨f, hm, rfl⟩ := List.mem_map.mp hf
    exact h f hm
  | entity _ h => simpa using Plain.entity h
  | isNull _ h => simpa using Plain.isNull h
  | member h _ ht => simpa using Plain.member h ht

theorem replace_congr {τ : Column → Expr} (h : Plain members P e) (hσ : ∀ c, P c → σ c = τ c) :
    e.replace σ = e.replace τ := by
  induction h with
  | const _ => simp
  | column h => simpa using hσ _ h
  | binary _ _ hl hr => simp [hl, hr]
  | unary _ h => simp [h]
  | cond _ _ _ ht hl hr => simp [ht, hl, hr]
  | call _ h => simpa using h
  | construct _ h => simpa using h
  | entity _ h => simp [h]
  | isNull _ h => simp [h]
  | member _ _ h => simp [h]

theorem replace_self (h : Plain members P e) : e.replace .column = e := by
  induction h with
  | const _ => simp
  | column h => simp
  | binary _ _ hl hr => simp [hl, hr]
  | unary _ h => simp [h]
  | cond _ _ _ ht hl hr => simp [ht, hl, hr]
  | call _ h =>
    rw [Expr.replace_call, List.map_congr_left h, List.map_id']
  | construct _ h =>
    have fields := List.map_congr_left fun f hf => congrArg (Field.mk f.name) (h f hf)
    rw [Expr.replace_construct, fields, List.map_id']
  | entity _ h => simp [h]
  | isNull _ h => simp [h]
  | member _ _ h => simp [h]

/-- A constant comes from a constant, or from a column. -/
theorem of_replace_eq_const (h : Plain members P e) {v : Value} (hv : e.replace σ = .const v) :
    e = .const v ∨ ∃ c, e = .column c ∧ P c ∧ σ c = .const v := by
  cases h with
  | const _ => exact .inl (by simpa using hv)
  | column hc => exact .inr ⟨_, rfl, hc, by simpa using hv⟩
  | _ => simp at hv

theorem exprs_of_mem {p : Part} (h : Plain members P e) (hp : p ∈ (Part.expr e).parts) :
    ∃ c, p = .expr c ∧ Plain members P c := by
  cases h with
  | const _ | column _ => simp [Part.parts] at hp
  | call h =>
    obtain ⟨a, ha, rfl⟩ := List.mem_map.mp hp
    exact ⟨a, rfl, h a ha⟩
  | construct h =>
    obtain ⟨f, hf, rfl⟩ := List.mem_map.mp hp
    exact ⟨f.expr, rfl, h f hf⟩
  | _ =>
    simp only [Part.parts, List.mem_cons, List.not_mem_nil, or_false] at hp
    grind

/-- A walk that finds nothing at plain nodes finds nothing in a plain expression. -/
theorem gather_eq_nil {α : Type} {visit : Part → List α} {enters : Part → Bool}
    (h : Plain members P e) (hv : ∀ e, Plain members P e → visit (.expr e) = []) :
    (Part.expr e).gather visit enters = [] := by
  have below : ∀ (p : Part) (e : Expr), p = .expr e → Plain members P e →
      p.gather visit enters = [] := by
    intro p
    induction p using Part.gather.induct with
    | case1 p ih =>
      rintro e rfl plain
      rw [Part.gather, hv e plain]
      split
      · simp only [List.nil_append, List.flatMap_eq_nil_iff]
        rintro ⟨q, hq⟩ -
        obtain ⟨c, rfl, hc⟩ := plain.exprs_of_mem hq
        exact ih _ hq c rfl hc
      · rfl
  exact below _ e rfl h

theorem eq_of_sameExprs {as bs : List Expr} (h : ∀ a ∈ as, ∀ {b}, a.same b = true → a = b)
    (same : sameExprs as bs = true) : as = bs := by
  induction as generalizing bs with
  | nil => cases bs <;> simp_all [sameExprs]
  | cons a as ih =>
    cases bs with
    | nil => simp [sameExprs] at same
    | cons b bs =>
      simp only [sameExprs, Bool.and_eq_true] at same
      rw [h a (by simp) same.1, ih (fun a ha => h a (by simp [ha])) same.2]

theorem eq_of_sameFields {as bs : List (Field Expr)}
    (h : ∀ a ∈ as, ∀ {b}, a.expr.same b = true → a.expr = b)
    (same : sameFields as bs = true) : as = bs := by
  induction as generalizing bs with
  | nil => cases bs <;> simp_all [sameFields]
  | cons a as ih =>
    cases bs with
    | nil => simp [sameFields] at same
    | cons b bs =>
      obtain ⟨n, a⟩ := a
      obtain ⟨n', b⟩ := b
      simp only [sameFields, Bool.and_eq_true, beq_iff_eq] at same
      have head : a = b := h ⟨n, a⟩ (by simp) same.1.2
      rw [same.1.1, head, ih (fun a ha => h a (by simp [ha])) same.2]

/-- Trees that compare equal are equal. -/
theorem eq_of_same {e' : Expr} (h : Plain members P e) (same : e.same e' = true) : e = e' := by
  induction h generalizing e' with
  | const hv =>
    cases e' <;> simp only [Expr.same, Bool.false_eq_true] at same
    rw [hv.eq_of_same same]
  | column _ =>
    cases e' <;> simp only [Expr.same, Bool.false_eq_true, beq_iff_eq] at same
    rw [same]
  | binary _ _ hl hr =>
    cases e' <;> simp only [Expr.same, Bool.and_eq_true, Bool.false_eq_true, beq_iff_eq] at same
    rw [same.1.1, hl same.1.2, hr same.2]
  | unary _ h =>
    cases e' <;> simp only [Expr.same, Bool.and_eq_true, Bool.false_eq_true, beq_iff_eq] at same
    rw [same.1, h same.2]
  | cond _ _ _ ht hl hr =>
    cases e' <;> simp only [Expr.same, Bool.and_eq_true, Bool.false_eq_true] at same
    rw [ht same.1.1, hl same.1.2, hr same.2]
  | call _ h =>
    cases e' <;> simp only [Expr.same, Bool.and_eq_true, Bool.false_eq_true, beq_iff_eq] at same
    rw [same.1, eq_of_sameExprs h same.2]
  | construct _ h =>
    cases e' <;> simp only [Expr.same, Bool.and_eq_true, Bool.false_eq_true, beq_iff_eq] at same
    rw [same.1, eq_of_sameFields h same.2]
  | entity _ h =>
    cases e' <;> simp only [Expr.same, Bool.and_eq_true, Bool.false_eq_true, beq_iff_eq] at same
    rw [same.1, h same.2]
  | isNull _ h =>
    cases e' <;> simp only [Expr.same, Bool.false_eq_true] at same
    rw [h same]
  | member _ _ h =>
    cases e' <;> simp only [Expr.same, Bool.and_eq_true, Bool.false_eq_true, beq_iff_eq] at same
    rw [h same.1, same.2]

/-- A pass that goes on into every node but a column, and puts something in place of that. -/
theorem walk {m : Type → Type} [Monad m] [LawfulMonad m] {st : Type} (Y : Yields m st) {s : st}
    (pass : Expr → m Expr) (onSelect : Select Expr → m (Select Expr))
    (onProjection : Projection Expr → m (Projection Expr)) (h : Plain members P e)
    (onColumn : ∀ c, P c → Y.gives s (pass (.column c)) (σ c) s)
    (onNode : ∀ e, Plain members P e → (∀ c, e ≠ .column c) →
      Y.gives s (e.traverse (fun c _ => pass c) (fun s _ => onSelect s) fun p _ => onProjection p)
        (e.replace σ) s →
      Y.gives s (pass e) (e.replace σ) s) :
    Y.gives s (pass e) (e.replace σ) s := by
  have node : ∀ e, Plain members P e → (∀ c, e ≠ .column c) →
      (∀ c, Part.expr c ∈ (Part.expr e).parts → Y.gives s (pass c) (c.replace σ) s) →
      Y.gives s (pass e) (e.replace σ) s := by
    intro e plain inner below
    refine onNode e plain inner ?_
    rw [Expr.replace, Expr.substitute.eq_2 _ _ inner]
    refine e.traverse_gives Y (fun c hc => below c hc) (fun q hq => ?_) (fun q hq => ?_)
    · obtain ⟨c, hc, -⟩ := plain.exprs_of_mem hq
      cases hc
    · obtain ⟨c, hc, -⟩ := plain.exprs_of_mem hq
      cases hc
  induction h with
  | column hc => simpa using onColumn _ hc
  | const hv => exact node _ (.const hv) (by simp) (by simp [Part.parts])
  | binary pl pr hl hr =>
    refine node _ (.binary pl pr) (by simp) fun c hc => ?_
    simp only [Part.parts, List.mem_cons, Part.expr.injEq, List.not_mem_nil, or_false] at hc
    rcases hc with rfl | rfl <;> assumption
  | unary pe h => exact node _ (.unary pe) (by simp) (by simpa [Part.parts] using h)
  | cond pt pl pr ht hl hr =>
    refine node _ (.cond pt pl pr) (by simp) fun c hc => ?_
    simp only [Part.parts, List.mem_cons, Part.expr.injEq, List.not_mem_nil, or_false] at hc
    rcases hc with rfl | rfl | rfl <;> assumption
  | call pa h => exact node _ (.call pa) (by simp) (by simpa [Part.parts] using h)
  | construct pf h => exact node _ (.construct pf) (by simp) (by simpa [Part.parts] using h)
  | entity pe h => exact node _ (.entity pe) (by simp) (by simpa [Part.parts] using h)
  | isNull pe h => exact node _ (.isNull pe) (by simp) (by simpa [Part.parts] using h)
  | member hm pe h => exact node _ (.member hm pe) (by simp) (by simpa [Part.parts] using h)

/-- A pass that goes on into every node leaves a plain expression as it is. -/
theorem walk_self {m : Type → Type} [Monad m] [LawfulMonad m] {st : Type} (Y : Yields m st) {s : st}
    (pass : Expr → m Expr) (onSelect : Select Expr → m (Select Expr))
    (onProjection : Projection Expr → m (Projection Expr)) (h : Plain members P e)
    (onNode : ∀ e, Plain members P e →
      Y.gives s (e.traverse (fun c _ => pass c) (fun s _ => onSelect s) fun p _ => onProjection p)
        e s → Y.gives s (pass e) e s) :
    Y.gives s (pass e) e s := by
  have step := h.walk Y pass onSelect onProjection (σ := .column)
    (fun c hc => onNode _ (.column hc) (Y.pure _ _))
    fun e he _ h => by
      rw [he.replace_self] at h ⊢
      exact onNode e he h
  rwa [h.replace_self] at step

end Plain

def Alike {ε α : Type} (x y : Except ε α) : Prop := x.toOption = y.toOption

namespace Alike

variable {ε α β γ : Type}

theorem refl (x : Except ε α) : Alike x x := rfl

theorem error (e e' : ε) : Alike (.error e : Except ε α) (.error e') := rfl

theorem bind {x y : Except ε α} {f g : α → Except ε β} (hx : Alike x y)
    (hf : ∀ a, Alike (f a) (g a)) : Alike (x >>= f) (y >>= g) := by
  cases x with
  | error e =>
    cases y with
    | error e' => rfl
    | ok b => simp [Alike, Except.toOption] at hx
  | ok a =>
    cases y with
    | error e' => simp [Alike, Except.toOption] at hx
    | ok b =>
      obtain rfl : a = b := by simpa [Alike, Except.toOption] using hx
      exact hf a

theorem mapM {l : List α} {f : α → Except ε γ} {g : β → Except ε γ} {h : α → β}
    (hf : ∀ a ∈ l, Alike (g (h a)) (f a)) : Alike ((l.map h).mapM g) (l.mapM f) := by
  induction l with
  | nil => rfl
  | cons a rest ih =>
    rw [List.map_cons, List.mapM_cons, List.mapM_cons]
    exact (hf a (by simp)).bind fun _ =>
      (ih fun b hb => hf b (by simp [hb])).bind fun _ => refl _

def Runs {σ : Type} (x y : StateT σ (Except ε) α) : Prop := ∀ s, Alike (x.run s) (y.run s)

theorem Runs.bind {σ : Type} {x y : StateT σ (Except ε) α} {f g : α → StateT σ (Except ε) β}
    (hx : Runs x y) (hf : ∀ a, Runs (f a) (g a)) : Runs (x >>= f) (y >>= g) := fun s => by
  rw [StateT.run_bind, StateT.run_bind]
  exact (hx s).bind fun p => hf p.1 p.2

theorem Runs.lift {σ : Type} {x y : Except ε α} (h : Alike x y) :
    Runs (liftM x : StateT σ (Except ε) α) (liftM y) := fun _ => h.bind fun _ => refl _

theorem Runs.mapM {σ : Type} {l : List α} {f : α → StateT σ (Except ε) γ}
    {g : β → StateT σ (Except ε) γ} {h : α → β} (hf : ∀ a ∈ l, Runs (g (h a)) (f a)) :
    Runs ((l.map h).mapM g) (l.mapM f) := by
  induction l with
  | nil => exact fun s => refl _
  | cons a rest ih =>
    rw [List.map_cons, List.mapM_cons, List.mapM_cons]
    exact (hf a (by simp)).bind fun _ =>
      (ih fun b hb => hf b (by simp [hb])).bind fun _ _ => refl _

end Alike

namespace Plain

open Eval

variable {members : Prop} {P : Column → Prop} {e : Expr} {σ : Column → Expr} {tables : Tables}
  {scope scope' : Scope}

/-- The value of a plain expression depends on those of its columns only. -/
theorem scalar_replace (h : Plain members P e)
    (hσ : ∀ c, P c → Alike (scalar tables (σ c) scope') (scope.column c)) :
    Alike (scalar tables (e.replace σ) scope') (scalar tables e scope) := by
  induction h with
  | const _ =>
    rw [Expr.replace_const, scalar, scalar]
    exact Alike.refl _
  | column hc =>
    rw [Expr.replace_column, scalar.eq_2]
    exact hσ _ hc
  | binary _ _ hl hr =>
    rw [Expr.replace_binary, scalar, scalar]
    exact hl.bind fun _ => hr.bind fun _ => Alike.refl _
  | unary _ h =>
    rw [Expr.replace_unary, scalar, scalar]
    exact h.bind fun _ => Alike.refl _
  | cond _ _ _ ht hl hr =>
    rw [Expr.replace_cond, scalar, scalar]
    refine ht.bind fun _ => (Alike.refl _).bind fun b => ?_
    cases b
    · exact hr
    · exact hl
  | call _ h =>
    rw [Expr.replace_call, scalar_call, scalar_call]
    exact (Alike.mapM h).bind fun _ => Alike.refl _
  | construct _ h =>
    rw [Expr.replace_construct, scalar_construct, scalar_construct]
    exact Alike.error _ _
  | entity _ h =>
    rw [Expr.replace_entity, scalar_entity, scalar_entity]
    exact Alike.error _ _
  | isNull _ h =>
    rw [Expr.replace_isNull, scalar, scalar]
    exact h.bind fun _ => Alike.refl _
  | member _ _ h =>
    rw [Expr.replace_member, scalar_member, scalar_member]
    exact Alike.error _ _

/-- So does the object that it builds. -/
theorem client_replace (h : Plain members P e)
    (plain : ∀ c, P c → (∃ c', σ c = .column c') ∨ ∃ v, σ c = .const v)
    (hσ : ∀ c, P c → Alike (scalar tables (σ c) scope') (scope.column c)) :
    Alike.Runs (client tables (e.replace σ) scope') (client tables e scope) := by
  have value : ∀ {a b : Expr}, isValue a = true → isValue b = true →
      Alike (scalar tables a scope') (scalar tables b scope) →
      Alike.Runs (client tables a scope') (client tables b scope) := by
    intro a b ha hb h
    rw [client_value ha, client_value hb]
    exact (Alike.Runs.lift h).bind fun _ _ => Alike.refl _
  induction h with
  | const hv =>
    have h : Plain members P (.const _) := .const hv
    exact value (by simp [isValue]) rfl (h.scalar_replace hσ)
  | column hc =>
    have h : Plain members P (.column _) := .column hc
    refine value ?_ rfl (h.scalar_replace hσ)
    rcases plain _ hc with ⟨c', h⟩ | ⟨v, h⟩ <;> simp [h, isValue]
  | binary hl hr _ _ =>
    exact value (by simp [isValue]) rfl ((Plain.binary hl hr).scalar_replace hσ)
  | unary h _ => exact value (by simp [isValue]) rfl ((Plain.unary h).scalar_replace hσ)
  | call h _ => exact value (by simp [isValue]) rfl ((Plain.call h).scalar_replace hσ)
  | isNull h _ => exact value (by simp [isValue]) rfl ((Plain.isNull h).scalar_replace hσ)
  | cond ht _ _ _ hl hr =>
    rw [Expr.replace_cond, client, client]
    refine (Alike.Runs.lift (ht.scalar_replace hσ)).bind fun _ =>
      (Alike.Runs.lift (Alike.refl _)).bind fun b => ?_
    cases b
    · exact hr
    · exact hl
  | construct _ h =>
    rw [Expr.replace_construct, client_construct, client_construct]
    exact (Alike.Runs.mapM fun f hf => (h f hf).bind fun _ _ => Alike.refl _).bind
      fun _ _ => Alike.refl _
  | entity _ h =>
    rw [Expr.replace_entity, client, client]
    exact h
  | member _ _ h =>
    rw [Expr.replace_member, client, client]
    exact h.bind fun _ _ => Alike.refl _

end Plain

end ObjectQuery
