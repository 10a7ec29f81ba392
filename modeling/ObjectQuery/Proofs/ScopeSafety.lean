import ObjectQuery.Proofs.FlatSelects
import ObjectQuery.Proofs.Scoping

/-!
What a tree reads is there. A tree in which every column reads an alias that is in sight may fail in many
ways when it is run, but never because no row stands for an alias.
-/

namespace ObjectQuery

def Grounded {α : Type} (x : Except EvalError α) : Prop := ∀ a, x ≠ .error (.danglingAlias a)

namespace Grounded

variable {α β : Type} {x : Except EvalError α}

theorem ok (a : α) : Grounded (.ok a : Except EvalError α) := by
  rintro _ ⟨⟩

theorem unsupported (what : String) : Grounded (.error (.unsupported what) : Except EvalError α) := by
  rintro _ ⟨⟩

theorem bind {f : α → Except EvalError β} (h : Grounded x) (next : ∀ a, x = .ok a → Grounded (f a)) :
    Grounded (x >>= f) := by
  cases hx : x with
  | ok a => exact next a hx
  | error e =>
    intro a failed
    exact h a (hx.trans (congrArg _ (Except.error.inj failed)))

/-- The next step never fails so, whatever it is given. -/
theorem andThen {f : α → Except EvalError β} (h : Grounded x) (next : ∀ a, Grounded (f a)) :
    Grounded (x >>= f) := h.bind fun a _ => next a

theorem mapM {l : List α} {f : α → Except EvalError β} (h : ∀ a ∈ l, Grounded (f a)) : Grounded (l.mapM f) := by
  induction l with
  | nil => exact ok _
  | cons a rest ih =>
    rw [List.mapM_cons]
    exact (h a (by simp)).andThen fun b => (ih fun a ha => h a (by simp [ha])).andThen fun bs => ok _

theorem filterM {l : List α} {f : α → Except EvalError Bool} (h : ∀ a ∈ l, Grounded (f a)) :
    Grounded (l.filterM f) := by
  have walked : ∀ kept, Grounded (l.filterAuxM f kept) := by
    induction l with
    | nil => exact fun kept => ok _
    | cons a rest ih =>
      intro kept
      rw [List.filterAuxM]
      exact (h a (by simp)).andThen fun b => ih (fun a ha => h a (by simp [ha])) _
  exact (walked []).andThen fun kept => ok _

theorem foldlM {l : List α} {f : β → α → Except EvalError β} (h : ∀ b a, Grounded (f b a)) (b : β) :
    Grounded (l.foldlM f b) := by
  induction l generalizing b with
  | nil => exact ok _
  | cons a rest ih =>
    rw [List.foldlM_cons]
    exact (h b a).andThen ih

end Grounded

namespace Value

theorem grounded_truth (v : Value) : Grounded v.truth := by
  cases v <;> rintro _ ⟨⟩

theorem grounded_asInt (v : Value) : Grounded v.asInt := by
  cases v <;> rintro _ ⟨⟩

theorem grounded_compare (v w : Value) : Grounded (compare v w) := by
  cases v <;> cases w <;> rintro _ ⟨⟩

theorem grounded_checked (n : Int) : Grounded (checked n) := by
  unfold checked
  split <;> rintro _ ⟨⟩

theorem grounded_arithmeticInt (op : BinaryOp) (m n : Int) : Grounded (arithmeticInt op m n) := by
  unfold arithmeticInt
  split
  case h_1 | h_2 | h_3 => exact grounded_checked _
  · split
    · rintro _ ⟨⟩
    · exact grounded_checked _
  · split
    · rintro _ ⟨⟩
    · split
      · rintro _ ⟨⟩
      · exact grounded_checked _
  · rintro _ ⟨⟩

theorem grounded_arithmeticFloat (op : BinaryOp) (v w : Value) (x y : Float) :
    Grounded (arithmeticFloat op v w x y) := by
  unfold arithmeticFloat
  split <;> try split
  all_goals rintro _ ⟨⟩

theorem grounded_arithmetic (op : BinaryOp) (v w : Value) : Grounded (arithmetic op v w) := by
  unfold arithmetic
  split
  · rintro _ ⟨⟩
  · rintro _ ⟨⟩
  · exact grounded_arithmeticInt op _ _
  · split
    · rintro _ ⟨⟩
    · split
      · exact grounded_arithmeticFloat op _ _ _ _
      · rintro _ ⟨⟩

theorem grounded_binary (op : BinaryOp) (v w : Value) : Grounded (binary op v w) := by
  unfold binary
  split
  case h_1 | h_2 =>
    exact (grounded_truth v).andThen fun _ => (grounded_truth w).andThen fun _ => .ok _
  · rintro _ ⟨⟩
  · split
    · exact (grounded_compare v w).andThen fun _ => .ok _
    · exact grounded_arithmetic op v w

theorem grounded_unary (op : UnaryOp) (v : Value) : Grounded (unary op v) := by
  unfold unary
  split
  case h_2 => exact (grounded_truth v).andThen fun _ => .ok _
  case h_3 => exact grounded_checked _
  all_goals rintro _ ⟨⟩

theorem grounded_call (name : String) (args : List Value) : Grounded (call name args) := by
  unfold call
  split
  · rintro _ ⟨⟩
  · split
    case h_10 => exact grounded_checked _
    all_goals rintro _ ⟨⟩

theorem grounded_isIn (v : Value) (candidates : List Value) : Grounded (isIn v candidates) := by
  have walked : ∀ sawNull, Grounded (isInFrom v sawNull candidates) := by
    induction candidates with
    | nil => exact fun _ => .ok _
    | cons c rest ih =>
      intro sawNull
      rw [isInFrom]
      refine (grounded_compare v c).andThen fun o => ?_
      split
      · exact .ok _
      · exact ih _
      · exact ih _
  unfold isIn
  split
  · rintro _ ⟨⟩
  · split
    · rintro _ ⟨⟩
    · exact walked false

theorem grounded_extreme (wanted : Ordering) (values : List Value) : Grounded (extreme wanted values) := by
  unfold extreme
  split
  · rintro _ ⟨⟩
  · refine .foldlM (fun best v => (grounded_compare v best).andThen fun o => ?_) _
    split <;> exact .ok _

theorem grounded_sum (values : List Value) : Grounded (sum values) := by
  unfold sum
  split
  · exact .foldlM (fun total v => grounded_arithmetic .add total v) _
  · refine Grounded.andThen (.foldlM (fun total v => ?_) _) fun _ => .ok _
    split <;> rintro _ ⟨⟩

theorem grounded_aggregate (kind : AggregateKind) (values : List Value) : Grounded (aggregate kind values) := by
  unfold aggregate
  split
  · rintro _ ⟨⟩
  · rintro _ ⟨⟩
  · split
    · rintro _ ⟨⟩
    · split
      case h_1 | h_2 => exact grounded_extreme _ _
      case h_3 =>
        refine (grounded_sum values).andThen fun total => ?_
        split <;> exact .ok _
      case h_4 => exact grounded_sum values

end Value

def Scope.Provides (σ : Scope) (visible : List Alias) : Prop := ∀ a ∈ visible, a ∈ σ.rows.map (·.1)

namespace Scope.Provides

variable {σ : Scope} {visible seen : List Alias}

theorem nil (σ : Scope) : σ.Provides [] := fun _ h => absurd h List.not_mem_nil

theorem mono (h : σ.Provides visible) (sub : seen ⊆ visible) : σ.Provides seen := fun a ha => h a (sub ha)

theorem extend (h : σ.Provides visible) (f : Frame) : (σ.extend f).Provides (f.map (·.1) ++ visible) := by
  intro a ha
  simp only [Scope.extend, List.map_append, List.map_reverse, List.mem_append, List.mem_reverse]
  exact (List.mem_append.mp ha).imp id (h a)

theorem bind (h : σ.Provides visible) (rel : Alias) (row : Row) : (σ.bind rel row).Provides (rel :: visible) :=
  h.extend [(rel, some row)]

theorem under (h : σ.Provides visible) (f : Frame) : (σ.extend f).Provides visible :=
  (h.extend f).mono (List.subset_append_right _ _)

theorem column (h : σ.Provides visible) {c : Column} (seen : c.rel ∈ visible) : Grounded (σ.column c) := by
  obtain ⟨⟨a, row⟩, inRows, rfl⟩ := List.mem_map.mp (h c.rel seen)
  unfold Scope.column
  split
  · rename_i missing
    rw [List.lookup_eq_none_iff] at missing
    exact absurd (missing _ inRows) (by simp)
  · rintro _ ⟨⟩
  · split <;> rintro _ ⟨⟩

end Scope.Provides

namespace Eval

variable {tables : Tables}

theorem aliases_nullFrame (source : Option Expr) :
    (nullFrame source).map (·.1) = (source.map Expr.declares).getD [] := by
  simp [nullFrame, Function.comp_def]

def Frame.Names (aliases : List Alias) (f f' : Frame) : Prop := f = f' ∧ f.map (·.1) = aliases

theorem frames_names (s : Select Expr) (σ : Scope) :
    Follows (List.Forall₂ (Frame.Names s.sourceAliases)) (frames tables s σ) (frames tables s σ) :=
  fun fs run => ⟨fs, run, List.forall₂_same.mpr fun f hf => ⟨rfl, aliases_of_frames run f hf⟩⟩

theorem inner_eq {aliases : List Alias} {σ τ τ' : Scope} (h : Inner (Frame.Names aliases) σ σ τ τ') : τ = τ' := by
  cases h with
  | frame hf => rw [hf.1]
  | group hf hg => rw [hf.1, eq_of_forall₂ hg fun _ _ h => h.1]

theorem inner_provides {aliases visible : List Alias} {σ τ τ' : Scope} (h : σ.Provides visible)
    (inner : Inner (Frame.Names aliases) σ σ τ τ') : τ.Provides (aliases ++ visible) := by
  cases inner with
  | frame hf => exact hf.2 ▸ h.extend _
  | group hf _ => exact hf.2 ▸ h.extend _

/-- In the scopes of its rows a select sees its source. -/
theorem rowScopes_provides {s : Select Expr} {σ : Scope} {visible : List Alias} (h : σ.Provides visible)
    {τs : List Scope} (run : rowScopes tables s σ = .ok τs) : ∀ τ ∈ τs, τ.Provides (s.sourceAliases ++ visible) := by
  have follows : Follows (List.Forall₂ (Inner (Frame.Names s.sourceAliases) σ σ)) (rowScopes tables s σ)
      (rowScopes tables s σ) :=
    rowScopes_follows (Select.Shaped.refl s).akin.toAkinClauses (frames_names s σ) ⟨rfl, aliases_nullFrame _⟩
      (fun _ => rfl) fun c _ c' hc τ τ' inner => by
        rw [hc, inner_eq inner]
        exact Follows.refl _
  obtain ⟨τs', -, related⟩ := follows τs run
  intro τ hτ
  obtain ⟨τ', -, inner⟩ := exists_of_forall₂_right related τ hτ
  exact inner_eq inner ▸ inner_provides h inner

/-- A scope sees the same rows when it is numbered. -/
theorem numbered_provides {s : Select Expr} {visible : List Alias} {τs τs' : List Scope}
    (h : ∀ τ ∈ τs, τ.Provides visible) (run : numbered s (fun e _ => scalar tables e) τs = .ok τs') :
    ∀ τ ∈ τs', τ.Provides visible := by
  have orders : Option.Rel (List.Forall₂ fun o o' => o.direction = o'.direction ∧ ∀ τ τ' : Scope,
      (τ = τ' ∧ τ.Provides visible) → Follows Eq (scalar tables o.expr τ) (scalar tables o'.expr τ'))
      (s.columns.findSome? fun d => d.expr.rowOrders?) (s.columns.findSome? fun d => d.expr.rowOrders?) :=
    optionRel_refl_mem fun os _ => forall₂_refl_mem fun o _ => ⟨rfl, fun τ τ' h => by
      rw [h.1]
      exact Follows.refl _⟩
  have follows := numbered_follows (fun τ τ' n h => ⟨by rw [h.1], h.2⟩) orders
    (List.forall₂_same.mpr fun τ hτ => ⟨rfl, h τ hτ⟩)
  obtain ⟨_, -, related⟩ := follows τs' run
  intro τ hτ
  obtain ⟨_, -, rfl, provides⟩ := exists_of_forall₂_right related τ hτ
  exact provides

section Selects

variable {s : Select Expr} {σ : Scope} {visible : List Alias} (provides : σ.Provides visible)
  (clauses : ∀ e ∈ s.clauses, ∀ τ : Scope, τ.Provides (s.sourceAliases ++ visible) → Grounded (scalar tables e τ))
include provides clauses

theorem grounded_rowScopes (sources : ∀ e ∈ s.source, Grounded (source tables e σ)) :
    Grounded (rowScopes tables s σ) := by
  have met : Grounded (frames tables s σ) := by
    unfold frames
    split
    · exact .ok _
    · rename_i e given
      exact sources e given
  refine met.bind fun fs run => ?_
  have sees : ∀ f ∈ fs, (σ.extend f).Provides (s.sourceAliases ++ visible) := fun f hf =>
    aliases_of_frames run f hf ▸ provides.extend f
  have passed : Grounded (filtered s (fun e _ => scalar tables e) σ fs) := by
    rw [filtered_eq]
    split
    · exact .ok _
    · rename_i e filter
      refine .filterM fun f hf => (clauses e (by simp [Select.clauses, filter]) _ (sees f hf)).andThen fun v => ?_
      exact (Value.grounded_truth v).andThen fun _ => .ok _
  refine passed.bind fun fs' kept => ?_
  have sub : ∀ f ∈ fs', f ∈ fs := by
    rw [filtered_eq] at kept
    split at kept
    · exact Except.ok.inj kept ▸ fun f hf => hf
    · exact mem_of_filterM kept
  rw [scopes_eq]
  split
  · refine Grounded.andThen (.mapM fun f hf => Grounded.andThen (.mapM fun e he => ?_) fun _ => .ok _) fun _ => .ok _
    exact clauses e (by simp [Select.clauses, he]) _ (sees f (sub f hf))
  · exact .ok _

theorem grounded_select (sources : ∀ e ∈ s.source, Grounded (source tables e σ))
    (orders : ∀ d ∈ s.columns, ∀ os ∈ d.expr.rowOrders?, ∀ o ∈ os, ∀ τ : Scope,
      τ.Provides (s.sourceAliases ++ visible) → Grounded (scalar tables o.expr τ))
    (counts : ∀ e, e ∈ s.skip ∨ e ∈ s.take → Grounded (scalar tables e σ)) :
    Grounded (select tables s σ) := by
  rw [select_eq_rowScopes]
  refine (grounded_rowScopes provides clauses sources).bind fun τs run => ?_
  have sees := rowScopes_provides provides run
  have numbering : ∀ os ∈ s.columns.findSome? (fun d => d.expr.rowOrders?), ∀ o ∈ os, ∀ τ : Scope,
      τ.Provides (s.sourceAliases ++ visible) → Grounded (scalar tables o.expr τ) := by
    intro os found
    obtain ⟨d, hd, asked⟩ := List.exists_of_findSome?_eq_some found
    exact orders d hd os asked
  have ranked : Grounded (numbered s (fun e _ => scalar tables e) τs) := by
    rw [numbered_eq]
    split
    · exact .ok _
    · rename_i os asked
      refine Grounded.andThen (.mapM fun τ hτ => Grounded.andThen (.mapM fun o ho => ?_) fun _ => .ok _) fun _ => .ok _
      exact numbering os asked o ho τ (sees τ hτ)
  refine ranked.bind fun τs' numbers => ?_
  have sees' := numbered_provides sees numbers
  refine Grounded.andThen (.mapM fun τ hτ => ?_) fun produced => ?_
  · rw [produce_eq]
    refine Grounded.andThen (.mapM fun d hd => ?_) fun row => Grounded.andThen (.mapM fun o ho => ?_) fun _ => .ok _
    · have inColumns : d.expr ∈ s.clauses := List.mem_append_right _ (List.mem_map_of_mem hd)
      exact (clauses _ inColumns τ (sees' τ hτ)).andThen fun _ => .ok _
    · have inOrders : o.expr ∈ s.clauses :=
        List.mem_append_left _ (List.mem_append_left _ (List.mem_append_right _ (List.mem_map_of_mem ho)))
      exact clauses _ inOrders τ (sees' τ hτ)
  · have page : ∀ (e : Expr) (f : Int → List Row), e ∈ s.skip ∨ e ∈ s.take →
        Grounded (do return f (← (← scalar tables e σ).asInt)) := fun e f count =>
      (counts e count).andThen fun v => v.grounded_asInt.andThen fun _ => .ok _
    rw [skipped_eq]
    refine Grounded.andThen ?_ fun rows => ?_
    · split
      · exact .ok _
      · rename_i e skip
        exact page e _ (.inl skip)
    · rw [taken_eq]
      split
      · exact .ok _
      · rename_i e take
        exact page e _ (.inr take)

end Selects

structure SafeExpr (tables : Tables) (e : Expr) (σ : Scope) : Prop where
  value : Grounded (scalar tables e σ)
  frames : Grounded (source tables e σ)
  orders : ∀ os ∈ e.rowOrders?, ∀ o ∈ os, Grounded (scalar tables o.expr σ)
  object : ∀ joined, Grounded ((client tables e σ).run joined)

structure SafeProjection (tables : Tables) (p : Projection Expr) (σ : Scope) : Prop where
  rows : Grounded (select tables p.select σ)
  object : ∀ row joined, Grounded ((client tables p.projector (σ.bind p.select.rel row)).run joined)

def Safe (tables : Tables) (visible : List Alias) (p : Part) : Prop :=
  ∀ σ : Scope, σ.Provides visible → match p with
    | .expr e => SafeExpr tables e σ
    | .select s => Grounded (select tables s σ)
    | .projection p => SafeProjection tables p σ

theorem grounded_onlyValue (rows : List Row) : Grounded (onlyValue rows) := by
  unfold onlyValue
  split <;> rintro _ ⟨⟩

section Nodes

variable {e : Expr} {σ : Scope} {visible : List Alias}

/-- The parts that see just what the node sees. -/
theorem grounded_scalar (column : ∀ c, e = .column c → c.rel ∈ visible)
    (values : ∀ c, (visible, Part.expr c) ∈ (Part.expr e).views visible →
      ∀ τ : Scope, τ.Provides visible → Grounded (scalar tables c τ))
    (rows : ∀ s, (visible, Part.select s) ∈ (Part.expr e).views visible → Grounded (select tables s σ))
    (provides : σ.Provides visible) : Grounded (scalar tables e σ) := by
  have value : ∀ c, (visible, Part.expr c) ∈ (Part.expr e).views visible → Grounded (scalar tables c σ) :=
    fun c hc => values c hc σ provides
  cases e with
  | const v =>
    rw [scalar]
    exact .ok v
  | column c =>
    rw [scalar]
    exact provides.column (column c rfl)
  | binary op a b =>
    rw [scalar]
    exact (value a (by simp [Part.views, Part.parts])).andThen fun v =>
      (value b (by simp [Part.views, Part.parts])).andThen fun w => v.grounded_binary op w
  | unary op a =>
    rw [scalar]
    exact (value a (by simp [Part.views, Part.parts])).andThen fun v => v.grounded_unary op
  | cond a b c =>
    rw [scalar]
    refine (value a (by simp [Part.views, Part.parts])).andThen fun v =>
      Grounded.andThen (v.grounded_truth.andThen fun _ => .ok _) fun holds => ?_
    split
    · exact value b (by simp [Part.views, Part.parts])
    · exact value c (by simp [Part.views, Part.parts])
  | call f args =>
    rw [scalar_call]
    exact Grounded.andThen (.mapM fun a ha => value a (by simp [Part.views, Part.parts, ha])) fun vs =>
      Value.grounded_call f vs
  | isNull a =>
    rw [scalar]
    exact (value a (by simp [Part.views, Part.parts])).andThen fun _ => .ok _
  | between a b c =>
    rw [scalar]
    exact (value a (by simp [Part.views, Part.parts])).andThen fun v =>
      (value b (by simp [Part.views, Part.parts])).andThen fun lower =>
      (value c (by simp [Part.views, Part.parts])).andThen fun upper =>
      (v.grounded_binary _ lower).andThen fun above => (v.grounded_binary _ upper).andThen fun below =>
        above.grounded_binary _ below
  | inValues a items =>
    rw [scalar_inValues]
    refine (value a (by simp [Part.views, Part.parts])).andThen fun v =>
      Grounded.andThen (.mapM fun c hc => ?_) fun vs => v.grounded_isIn _
    refine (value c (by simp [Part.views, Part.parts, hc])).andThen fun w => ?_
    split <;> exact .ok _
  | inSelect a s =>
    rw [scalar]
    exact (value a (by simp [Part.views, Part.parts])).andThen fun v =>
      (rows s (by simp [Part.views, Part.parts])).andThen fun _ => v.grounded_isIn _
  | existsIn s =>
    rw [scalar]
    exact (rows s (by simp [Part.views, Part.parts])).andThen fun _ => .ok _
  | scalar s =>
    rw [scalar]
    exact (rows s (by simp [Part.views, Part.parts])).andThen grounded_onlyValue
  | groupAggregate n owner a s =>
    rw [scalar]
    exact (rows s (by simp [Part.views, Part.parts])).andThen grounded_onlyValue
  | aggregate kind a distinct =>
    rw [scalar]
    split
    · rintro _ ⟨⟩
    · split
      · split <;> rintro _ ⟨⟩
      · rename_i frames _ a
        refine Grounded.andThen (.mapM fun f hf => ?_) fun vs => Value.grounded_aggregate _ _
        exact values a (by simp [Part.views, Part.parts]) _ (provides.under f)
  | rowNumber os =>
    rw [scalar]
    split <;> rintro _ ⟨⟩
  | _ =>
    simp only [Eval.scalar]
    exact .unsupported _

theorem grounded_source (frames : ∀ c seen, (seen, Part.expr c) ∈ (Part.expr e).views visible →
      ∀ τ : Scope, τ.Provides seen → Grounded (source tables c τ))
    (values : ∀ c seen, (seen, Part.expr c) ∈ (Part.expr e).views visible →
      ∀ τ : Scope, τ.Provides seen → Grounded (scalar tables c τ))
    (rows : ∀ s, (visible, Part.select s) ∈ (Part.expr e).views visible → Grounded (select tables s σ))
    (provides : σ.Provides visible) : Grounded (source tables e σ) := by
  cases e with
  | table t =>
    rw [source]
    split <;> rintro _ ⟨⟩
  | select s =>
    rw [source]
    exact (rows s (by simp [Part.views, Part.parts])).andThen fun _ => .ok _
  | setOp rel kind s t =>
    rw [source]
    exact (rows s (by simp [Part.views, Part.parts])).andThen fun _ =>
      (rows t (by simp [Part.views, Part.parts])).andThen fun _ => .ok _
  | join kind a b on =>
    have left := frames a visible (by simp [Part.views]) σ provides
    have joined : ∀ f g, f.map (·.1) = a.declares → (∀ f ∈ g, f.map (·.1) = b.declares) →
        Grounded (joinFrame tables kind b on σ f g) := by
      intro f gs hf hgs
      refine Grounded.andThen (.filterM fun g hg => ?_) fun matched => ?_
      · unfold meets
        split
        · exact .ok _
        · rename_i c
          refine (values c (a.declares ++ b.declares ++ visible) (by simp [Part.views]) _ ?_).andThen fun v =>
            v.grounded_truth.andThen fun _ => .ok _
          refine ((provides.extend f).extend g).mono ?_
          rw [hf, hgs g hg]
          intro x
          simp only [List.mem_append]
          tauto
      · split <;> exact .ok _
    cases apply : kind.isApply with
    | true =>
      have right := frames b (a.declares ++ visible) (by simp [Part.views, apply])
      rw [source_apply apply]
      refine left.bind fun fs run => Grounded.andThen (.mapM fun f hf => ?_) fun _ => .ok _
      have names := aliases_of_source a run f hf
      exact (right _ (names ▸ provides.extend f)).bind fun gs run' => joined f gs names (aliases_of_source b run')
    | false =>
      have right := frames b visible (by simp [Part.views, apply])
      rw [source_join apply]
      refine left.bind fun fs run => (right σ provides).bind fun gs run' =>
        Grounded.andThen (.mapM fun f hf => ?_) fun _ => .ok _
      exact joined f gs (aliases_of_source a run f hf) (aliases_of_source b run')
  | _ =>
    simp only [source]
    exact .unsupported _

end Nodes

def GroundedRun {α : Type} (act : Client α) : Prop := ∀ joined, Grounded (act.run joined)

namespace GroundedRun

variable {α β : Type}

theorem pure (a : α) : GroundedRun (Pure.pure a) := fun _ => .ok _

theorem lift {x : Result α} (h : Grounded x) : GroundedRun (liftM x : Client α) := fun _ =>
  h.andThen fun _ => .ok _

theorem bind {act : Client α} {next : α → Client β} (h : GroundedRun act) (rest : ∀ a, GroundedRun (next a)) :
    GroundedRun (act >>= next) := by
  intro joined
  rw [StateT.run_bind]
  exact (h joined).andThen fun r => rest r.1 r.2

theorem mapM {l : List α} {f : α → Client β} (h : ∀ a ∈ l, GroundedRun (f a)) : GroundedRun (l.mapM f) := by
  induction l with
  | nil => exact .pure _
  | cons a rest ih =>
    rw [List.mapM_cons]
    exact (h a (by simp)).bind fun _ => (ih fun a ha => h a (by simp [ha])).bind fun _ => .pure _

end GroundedRun

theorem grounded_picked (pick : Option Pick) (values : List ClientValue) : Grounded (picked pick values) := by
  unfold picked
  split
  · rintro _ ⟨⟩
  · split
    · rintro _ ⟨⟩
    · split
      · rintro _ ⟨⟩
      · split <;> rintro _ ⟨⟩

theorem grounded_project {p : Projection Expr} {σ : Scope} (rows : Grounded (select tables p.select σ))
    (objects : ∀ row, GroundedRun (client tables p.projector (σ.bind p.select.rel row))) :
    GroundedRun (project tables p σ) := by
  rw [project_eq]
  exact (GroundedRun.lift rows).bind fun rows => (GroundedRun.mapM fun row _ => objects row).bind fun values =>
    .lift (grounded_picked _ _)

theorem grounded_client {e : Expr} {σ : Scope} (visible : List Alias) (value : Grounded (scalar tables e σ))
    (values : ∀ c, (visible, Part.expr c) ∈ (Part.expr e).views visible →
      Grounded (scalar tables c σ) ∧ GroundedRun (client tables c σ))
    (projections : ∀ p, e = .projection p → GroundedRun (project tables p σ))
    (joins : ∀ p outer inner, e = .clientJoin p outer inner → GroundedRun (joinedRows tables p inner)) :
    GroundedRun (client tables e σ) := by
  cases e with
  | construct typeName fields =>
    have inParts : ∀ f ∈ fields, (visible, Part.expr f.expr)
        ∈ (Part.expr (.construct typeName fields)).views visible := fun f hf =>
      List.mem_map_of_mem (Expr.field_mem hf)
    rw [client_construct]
    exact (GroundedRun.mapM fun f hf => (values f.expr (inParts f hf)).2.bind fun _ => .pure _).bind
      fun _ => .pure _
  | entity name a =>
    simp only [client]
    exact (values a (by simp [Part.views, Part.parts])).2
  | outerJoined test a =>
    simp only [client]
    refine (GroundedRun.lift (values test (by simp [Part.views, Part.parts])).1).bind fun v => ?_
    split
    · exact .pure _
    · exact (values a (by simp [Part.views, Part.parts])).2
  | cond a b c =>
    simp only [client]
    refine (GroundedRun.lift (values a (by simp [Part.views, Part.parts])).1).bind fun v =>
      (GroundedRun.lift (v.grounded_truth.andThen fun _ => .ok _)).bind fun holds => ?_
    split
    · exact (values b (by simp [Part.views, Part.parts])).2
    · exact (values c (by simp [Part.views, Part.parts])).2
  | grouping a b =>
    simp only [client]
    exact (values a (by simp [Part.views, Part.parts])).2.bind fun _ =>
      (values b (by simp [Part.views, Part.parts])).2.bind fun _ => .pure _
  | member a name =>
    simp only [client]
    refine (values a (by simp [Part.views, Part.parts])).2.bind fun v => ?_
    split
    · exact .pure _
    · split
      · exact .pure _
      · rintro _ _ ⟨⟩
  | projection p =>
    simp only [client]
    exact projections p rfl
  | clientJoin p outer inner =>
    have keys : ∀ k ∈ outer, Grounded (scalar tables k σ) := fun k hk => (values k (by simp [Part.views, hk])).1
    have finish := fun joined : JoinedRows => (GroundedRun.mapM fun k hk => .lift (keys k hk)).bind fun key =>
      .lift (grounded_picked p.pick ((joined.filter fun r => Value.keysEqual r.1 key).map (·.2)))
    simp only [client]
    refine GroundedRun.bind (fun _ => .ok _) fun known => ?_
    split
    · exact (GroundedRun.pure _).bind finish
    · exact (joins p outer inner rfl).bind fun joined => GroundedRun.bind (fun _ => .ok _) fun _ =>
        (GroundedRun.pure _).bind finish
  | _ =>
    simp only [client]
    exact (GroundedRun.lift value).bind fun _ => .pure _

end Eval

def Part.StandsAlone : Part → Prop
  | .select s => ∀ e, e ∈ s.skip ∨ e ∈ s.take → (Part.expr e).InScope []
  | .expr (.clientJoin p _ inner) =>
    (Part.projection p).InScope [] ∧ ∀ k ∈ inner, (Part.expr k).InScope [p.select.rel]
  | _ => True

namespace Eval

theorem grounded_joinedRows {p : Projection Expr} {inner : List Expr} (rows : SafeProjection tables p .root)
    (keys : ∀ k ∈ inner, ∀ row, Grounded (scalar tables k (Scope.root.bind p.select.rel row))) :
    GroundedRun (joinedRows tables p inner) := by
  rw [joinedRows]
  refine (GroundedRun.lift rows.rows).bind fun found => .mapM fun row _ => ?_
  exact (GroundedRun.mapM fun k hk => .lift (keys k hk row)).bind fun key =>
    GroundedRun.bind (rows.object row) fun v => .pure _

theorem safe {p : Part} (alone : p.Every Part.StandsAlone) {visible : List Alias} (sees : p.InScope visible) :
    Safe tables visible p := by
  induction alone generalizing visible with
  | @node p here _ ih =>
    obtain ⟨column, views⟩ := Part.inScope_iff.mp sees
    have parts : ∀ q seen, (seen, q) ∈ p.views visible → Safe tables seen q := fun q seen hv =>
      ih q ((Part.views_perm visible p).mem_iff.mp (List.mem_map_of_mem hv)) (views _ hv)
    intro σ provides
    cases p with
    | expr e =>
      have value : Grounded (scalar tables e σ) :=
        grounded_scalar (fun c hc => column c (congrArg _ hc)) (fun c hc τ hτ => (parts _ _ hc τ hτ).value)
          (fun s hs => parts _ _ hs σ provides) provides
      refine ⟨value, ?_, ?_, ?_⟩
      · exact grounded_source (fun c seen hc τ hτ => (parts _ _ hc τ hτ).frames)
          (fun c seen hc τ hτ => (parts _ _ hc τ hτ).value) (fun s hs => parts _ _ hs σ provides) provides
      · cases e with
        | rowNumber orders =>
          rintro os ⟨⟩ o ho
          exact (parts (.expr o.expr) visible (by simpa [Part.views, Part.parts] using ⟨o, ho, rfl⟩) σ provides).value
        | _ => rintro _ ⟨⟩
      · refine grounded_client visible value (fun c hc => ?_) (fun p hp => ?_) fun p outer inner he => ?_
        · exact ⟨(parts _ _ hc σ provides).value, (parts _ _ hc σ provides).object⟩
        · obtain rfl := hp
          have safe := parts (.projection p) visible (by simp [Part.views, Part.parts]) σ provides
          exact grounded_project safe.rows safe.object
        · obtain rfl := he
          refine grounded_joinedRows (ih (.projection p) (by simp [Part.parts]) here.1 .root (.nil _)) fun k hk row => ?_
          exact (ih (.expr k) (by simp [Part.parts, hk]) (here.2 k hk) _ (Scope.Provides.bind (.nil _) _ row)).value
    | select s =>
      have clause : ∀ e ∈ s.clauses, Safe tables (s.sourceAliases ++ visible) (.expr e) := fun e he => by
        refine parts _ _ (List.mem_append_left _ (List.mem_map_of_mem ?_))
        simp only [Select.readers, Select.clauses, List.mem_append] at he ⊢
        tauto
      refine grounded_select provides (fun e he τ hτ => (clause e he τ hτ).value) (fun e he => ?_)
        (fun d hd os asked o ho τ hτ => ?_) fun e he => ?_
      · exact (parts (.expr e) visible (by simp [Part.views, Option.mem_def.mp he]) σ provides).frames
      · have inColumns : d.expr ∈ s.clauses := List.mem_append_right _ (List.mem_map_of_mem hd)
        exact (clause _ inColumns τ hτ).orders os asked o ho
      · have inParts : Part.expr e ∈ (Part.select s).parts := he.elim Select.skip_mem Select.take_mem
        exact (ih _ inParts (here e he) σ (.nil σ)).value
    | projection p =>
      have rows := parts (.select p.select) visible (by simp [Part.views]) σ provides
      have objects := parts (.expr p.projector) (p.select.rel :: visible) (by simp [Part.views])
      exact ⟨rows, fun row => (objects _ (provides.bind _ row)).object⟩

end Eval

/-- Where every column reads an alias in sight, the run does not fail for an alias without a row. -/
theorem Expr.grounded_execute {e : Expr} (sees : (Part.expr e).InScope [])
    (alone : (Part.expr e).Every Part.StandsAlone) (tables : Tables) : Grounded (e.execute tables) := by
  have whole : Eval.Safe tables [] (.expr e) := Eval.safe alone sees
  have safe := (whole .root (.nil _)).object []
  cases e with
  | command c => rintro _ ⟨⟩
  | _ => exact safe.andThen fun _ => .ok _

end ObjectQuery
