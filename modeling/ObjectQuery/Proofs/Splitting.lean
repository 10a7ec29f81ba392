import ObjectQuery.Columns
import ObjectQuery.Proofs.Members
import ObjectQuery.Proofs.Naming
import ObjectQuery.Proofs.Nodes

/-!
Splitting a plain shape into columns of a new select. The columns compute parts of the shape under
names of their own, none of them is a constant, and what is left of the shape reads nothing but
them and has the same members. With client affinity the columns only forward columns.
-/

namespace ObjectQuery

open RowNumbers

variable {P : Column → Prop} {e : Expr}

theorem nominate_column {c : Column} {affinity : Affinity} {sources : List Alias} {nested : Bool}
    (h : c.rel ∈ sources) : ((Expr.column c).nominate affinity sources nested).chosen = true := by
  rw [Expr.nominate, if_pos (by simpa using h)]

theorem ne_const_of_chosen {affinity : Affinity} {sources : List Alias} {nested : Bool}
    (chosen : (e.nominate affinity sources nested).chosen = true) (v : Value) : e ≠ .const v := by
  rintro rfl
  rw [Expr.nominate] at chosen
  cases chosen

theorem allowsParent_of_chosen {n : Nomination} (h : n.chosen = true) : n.allowsParent = true := by
  simp [Nomination.allowsParent, h]

/-- Why a parent may take an expression into its own column. -/
theorem nominate_cases {affinity : Affinity} {sources : List Alias} {nested : Bool}
    (h : (e.nominate affinity sources nested).allowsParent = true) :
    (∃ v, e = .const v) ∨ (∃ c, e = .column c ∧ c.rel ∈ sources)
    ∨ (∃ n owner inGroup fallback, e = .groupAggregate n owner inGroup fallback ∧ nested = false
      ∧ ∀ a ∈ (Part.select fallback).free, a ∈ sources)
    ∨ ((∀ n owner inGroup fallback, e ≠ .groupAggregate n owner inGroup fallback)
      ∧ e.mustBeColumn = true ∧ nested = false ∧ ∀ a ∈ e.free, a ∈ sources)
    ∨ (e.canBeColumn = true ∧ ∀ c, Part.expr c ∈ (Part.expr e).parts →
        (c.nominate affinity sources nested).allowsParent = true) := by
  rw [Expr.nominate.eq_def] at h
  split at h
  · split at h
    · rename_i c inside
      exact .inr (.inl ⟨c, rfl, by simpa using inside⟩)
    · cases h
  · rename_i v
    exact .inl ⟨v, rfl⟩
  · split at h
    · rename_i free
      simp only [Bool.and_eq_true, Bool.not_eq_true', List.all_eq_true, List.contains_iff_mem] at free
      exact .inr (.inr (.inl ⟨_, _, _, _, rfl, free⟩))
    · cases h
  · rename_i single
    refine .inr (.inr (.inr ?_))
    split at h
    · rename_i must
      split at h
      · rename_i free
        simp only [Bool.and_eq_true, Bool.not_eq_true', List.all_eq_true, List.contains_iff_mem] at free
        exact .inl ⟨single, must, free⟩
      · cases h
    · split at h
      · rename_i can
        simp only [Bool.and_eq_true, List.all_eq_true] at can
        exact .inr ⟨can.1.1, fun c hc => can.2 ⟨.expr c, hc⟩ (List.mem_attach _ _)⟩
      · cases h

theorem exists_expr_of_canBeColumn (can : e.canBeColumn = true) {q : Part}
    (hq : q ∈ (Part.expr e).parts) : ∃ c, q = .expr c := by
  cases e with
  | const _ => cases hq
  | call _ args | inValues _ args =>
    simp only [Part.parts, List.mem_cons, List.mem_map] at hq
    grind
  | binary _ _ _ | unary _ _ | cond _ _ _ | isNull _ | between _ _ _ =>
    simp only [Part.parts, List.mem_cons, List.not_mem_nil, or_false] at hq
    grind
  | _ => cases can

/-- A part that becomes a column is no object. -/
theorem Reaches.of_chosen {affinity : Affinity} {sources : List Alias} {nested : Bool}
    {path : List String} (h : Reaches e path)
    (chosen : (e.nominate affinity sources nested).chosen = true) : path = [] := by
  cases path with
  | nil => rfl
  | cons name path =>
    rw [h.nominate_eq] at chosen
    cases chosen

/-- With client affinity, what a plain expression computes is left to the client. -/
theorem Plain.eq_column_of_chosen (h : Plain False P e) {sources : List Alias} {nested : Bool}
    (chosen : (e.nominate .client sources nested).chosen = true) : ∃ c, e = .column c := by
  cases h with
  | column => exact ⟨_, rfl⟩
  | member impossible => exact impossible.elim
  | const =>
    rw [Expr.nominate] at chosen
    cases chosen
  | _ =>
    rw [Expr.nominate] at chosen <;> try simp
    simp [Expr.mustBeColumn] at chosen

namespace Split

structure Columns (affinity : Affinity) (P : Column → Prop) (columns : List (ColumnDecl Expr)) :
    Prop where
  plain : ∀ d ∈ columns, Plain False P d.expr
  computed : ∀ d ∈ columns, ∀ v, d.expr ≠ .const v
  nodup : (columns.map (·.name)).Nodup
  named : (∀ c, P c → c.name ≠ columnName) → ∀ d ∈ columns, d.name ≠ columnName
  bare : affinity = .client → ∀ d ∈ columns, ∃ c, d.expr = .column c

def Reads (rel : Alias) (columns : List (ColumnDecl Expr)) (c : Column) : Prop :=
  c.rel = rel ∧ c.name ∈ columns.map (·.name)

theorem Reads.mono {rel : Alias} {columns columns' : List (ColumnDecl Expr)} {c : Column}
    (h : Reads rel columns c) (sub : columns ⊆ columns') : Reads rel columns' c :=
  ⟨h.1, List.map_subset _ sub h.2⟩

theorem Columns.append {affinity : Affinity} {columns : List (ColumnDecl Expr)}
    (h : Columns affinity P columns) (bare : affinity = .client → ∃ c, e = .column c)
    (plain : Plain False P e) (computed : ∀ v, e ≠ .const v) {name : String}
    (free : name ∉ columns.map (·.name))
    (named : (∀ c, P c → c.name ≠ columnName) → name ≠ columnName) :
    Columns affinity P (columns ++ [ColumnDecl.of name e]) where
  plain d hd := by
    rcases List.mem_append.mp hd with hd | hd
    · exact h.plain d hd
    · rw [List.mem_singleton.mp hd]
      exact plain
  computed d hd := by
    rcases List.mem_append.mp hd with hd | hd
    · exact h.computed d hd
    · rw [List.mem_singleton.mp hd]
      exact computed
  nodup := by
    rw [List.map_append, List.nodup_append]
    refine ⟨h.nodup, by simp, fun a ha b hb => ?_⟩
    rintro rfl
    rw [List.map_singleton, List.mem_singleton] at hb
    rw [hb] at ha
    exact free ha
  named ordinary d hd := by
    rcases List.mem_append.mp hd with hd | hd
    · exact h.named ordinary d hd
    · rw [List.mem_singleton.mp hd]
      exact named ordinary
  bare client d hd := by
    rcases List.mem_append.mp hd with hd | hd
    · exact h.bare client d hd
    · rw [List.mem_singleton.mp hd]
      exact bare client

def growing (affinity : Affinity) (P : Column → Prop) : Yields (StateM State) State where
  gives s x a s' := x.run s = (a, s')
    ∧ (Columns affinity P s.columns → Columns affinity P s'.columns)
    ∧ s.columns ⊆ s'.columns
  pure _ _ := ⟨rfl, id, List.Subset.refl _⟩
  bind := by
    rintro α β s s' s'' x f a b ⟨hx, cx, ux⟩ ⟨hf, cf, uf⟩
    refine ⟨?_, fun h => cf (cx h), List.Subset.trans ux uf⟩
    rw [StateT.run_bind, hx]
    exact hf

/-- How an expression is turned into a reference to a column: to one that computes it already, or to
a new one under a name that is free. -/
theorem column_cases (split : Split) (state : State) (e : Expr) :
    (∃ d, state.columns.find? (·.expr == e) = some d
      ∧ (split.column e).run state = (.column ⟨split.rel, d.name, d.type⟩, state))
    ∨ ∃ name next, (split.column e).run state = (.column ⟨split.rel, name, e.columnType⟩,
        ⟨state.columns ++ [ColumnDecl.of name e], next⟩)
      ∧ name ∉ state.columns.map (·.name)
      ∧ ((∀ c, e = .column c → c.name ≠ columnName) → name ≠ columnName) := by
  cases found : state.columns.find? (·.expr == e) with
  | some d =>
    refine .inl ⟨d, rfl, ?_⟩
    simp only [column, bind_pure_comp, StateT.run_bind, StateT.run_get, pure_bind, found]
    rfl
  | none =>
    right
    simp only [column, bind_pure_comp, StateT.run_bind, StateT.run_get, pure_bind, found]
    -- The name is that of the column that is forwarded, or a number.
    by_cases forwards : ∃ c, e = .column c
    · obtain ⟨c, rfl⟩ := forwards
      obtain ⟨_, -, free⟩ := Names.available_spec (state.columns.map (·.name)) c.name
      exact ⟨_, _, rfl, free, fun ordinary => Names.available_ne (ordinary c rfl)⟩
    · refine ⟨_, Names.nextNumber (state.columns.map (·.name)) state.next + 1, ?_,
        Names.nextNumber_not_mem (state.columns.map (·.name)) state.next,
        fun _ => Names.append_toString_ne_columnName _ _⟩
      cases e with
      | column c => exact absurd ⟨c, rfl⟩ forwards
      | _ => rfl

def growth (fits : ColumnDecl Expr → Prop) : Growth State where
  le s s' := ∃ added, s'.columns = s.columns ++ added
    ∧ ((s.columns.map (·.name)).Nodup → (s'.columns.map (·.name)).Nodup)
    ∧ ∀ d ∈ added, fits d
  refl s := ⟨[], by simp, id, by simp⟩
  trans := by
    rintro s s' s'' ⟨added, columns, names, fits⟩ ⟨more, columns', names', fits'⟩
    refine ⟨added ++ more, by rw [columns', columns, List.append_assoc], fun h => names' (names h),
      fun d hd => (List.mem_append.mp hd).elim (fits d) (fits' d)⟩

/-- An expression becomes a reference to a column that computes it. -/
theorem declared_makes (split : Split) {fits : ColumnDecl Expr → Prop}
    (exact : (Part.expr e).Every Part.Exact) (new : ∀ name, fits (ColumnDecl.of name e)) :
    (Yields.ofState State).Makes (growth fits) (fun s e' =>
      ∃ d ∈ s.columns, d.expr = e ∧ ∃ type, e' = .column ⟨split.rel, d.name, type⟩)
      (split.column e) := by
  intro s
  rcases column_cases split s e with ⟨d, found, run⟩ | ⟨name, next, run, free, -⟩
  · refine ⟨_, _, run, (growth fits).refl s, ?_⟩
    rintro s' ⟨added, grown, -⟩
    have same : (d.expr == e) = true := by simpa using List.find?_some found
    refine ⟨d, ?_, Expr.eq_of_same exact same, _, rfl⟩
    rw [grown]
    exact List.mem_append_left _ (List.mem_of_find?_eq_some found)
  · refine ⟨_, _, run, ⟨[ColumnDecl.of name e], rfl, fun names => ?_, by simpa using new name⟩, ?_⟩
    · rw [List.map_append, List.nodup_append]
      refine ⟨names, by simp, fun a ha b hb => ?_⟩
      rintro rfl
      rw [List.map_singleton, List.mem_singleton] at hb
      rw [hb] at ha
      exact free ha
    · rintro s' ⟨added, grown, -⟩
      refine ⟨ColumnDecl.of name e, ?_, rfl, _, rfl⟩
      rw [grown]
      simp

def nests : Expr → Bool
  | .projection _ | .clientJoin .. => true
  | _ => false

theorem expr_eq (split : Split) (nested : Bool) (e : Expr) :
    split.expr nested e = if (e.nominate split.affinity split.sources nested).chosen then split.column e
      else e.traverse (fun c _ => split.expr (nested || nests e) c) (fun s _ => split.select s)
        fun p _ => split.projection (nested || nests e) p := by
  rw [Split.expr.eq_def]
  rfl

/-- An expression that becomes a column is read from that column. -/
theorem column_run (split : Split) (state : State) (plain : Plain False P e) (computed : ∀ v, e ≠ .const v)
    (bare : split.affinity = .client → ∃ c, e = .column c) :
    ∃ c state', (growing split.affinity P).gives state (split.column e) (.column c) state'
      ∧ Reads split.rel state'.columns c := by
  rcases column_cases split state e with ⟨d, found, run⟩ | ⟨name, next, run, free, named⟩
  · exact ⟨_, state, ⟨run, id, List.Subset.refl _⟩, rfl,
      List.mem_map_of_mem (List.mem_of_find?_eq_some found)⟩
  · have named : (∀ c, P c → c.name ≠ columnName) → name ≠ columnName := by
      refine fun ordinary => named ?_
      rintro c rfl
      cases plain with
      | column hc => exact ordinary c hc
    refine ⟨_, _, ⟨run, fun h => h.append bare plain computed free named,
      List.subset_append_left _ _⟩, rfl, ?_⟩
    simp [ColumnDecl.of]

/-- A walk over a list, each item of which is walked in some state on the way. -/
theorem mapM_growing {affinity : Affinity} {α β : Type} {act : α → StateM State β} {Q : α → β → State → Prop}
    (mono : ∀ {a b s s'}, Q a b s → s.columns ⊆ s'.columns → Q a b s') {l : List α}
    (h : ∀ a ∈ l, ∀ s, ∃ b s', (growing affinity P).gives s (act a) b s' ∧ Q a b s') (s : State) :
    ∃ bs s', (growing affinity P).gives s (l.mapM act) bs s' ∧ List.Forall₂ (fun a b => Q a b s') l bs := by
  induction l generalizing s with
  | nil => exact ⟨[], s, (growing affinity P).pure _ _, .nil⟩
  | cons a rest ih =>
    obtain ⟨b, s₁, hb, qb⟩ := h a (by simp) s
    obtain ⟨bs, s₂, hbs, qbs⟩ := ih (fun a ha => h a (by simp [ha])) s₁
    refine ⟨b :: bs, s₂, ?_, .cons (mono qb hbs.2.2) qbs⟩
    rw [List.mapM_cons]
    exact (growing affinity P).bind hb ((growing affinity P).bind hbs ((growing affinity P).pure _ _))

theorem fieldNamed?_of_forall₂ {R : Expr → Expr → Prop} {fields fields' : List (Field Expr)}
    (h : List.Forall₂ (fun f f' => f'.name = f.name ∧ R f.expr f'.expr) fields fields')
    {name : String} (found : fieldNamed? name fields = some e) :
    ∃ e', fieldNamed? name fields' = some e' ∧ R e e' := by
  simp only [fieldNamed?] at found ⊢
  induction h with
  | nil => cases found
  | @cons f f' _ _ head _ ih =>
    rw [List.find?_cons] at found ⊢
    rw [head.1]
    cases same : f.name == name with
    | true =>
      rw [same] at found
      obtain rfl := Option.some.inj found
      exact ⟨_, rfl, head.2⟩
    | false =>
      rw [same] at found
      exact ih found

structure Left (rel : Alias) (e e' : Expr) (s : State) : Prop where
  plain : Plain False (Reads rel s.columns) e'
  reaches : ∀ {path}, Reaches e path → Reaches e' path

theorem Left.mono {rel : Alias} {e e' : Expr} {s s' : State} (h : Left rel e e' s)
    (sub : s.columns ⊆ s'.columns) : Left rel e e' s' :=
  ⟨h.plain.mono id fun _ hc => hc.mono sub, h.reaches⟩

/-- A walk over a plain expression. -/
theorem expr_run (split : Split) (plain : Plain False P e) (inside : ∀ c, P c → c.rel ∈ split.sources) (s : State) :
    ∃ e' s', (growing split.affinity P).gives s (split.expr false e) e' s' ∧ Left split.rel e e' s' := by
  -- A node is a column, or its parts are walked.
  have node : ∀ {e : Expr} {s : State}, Plain False P e →
      (∃ e' s', (growing split.affinity P).gives s (e.traverse (fun c _ => split.expr false c)
          (fun q _ => split.select q) fun p _ => split.projection false p) e' s'
        ∧ Left split.rel e e' s') →
      (∀ p, e ≠ .projection p) → (∀ p a b, e ≠ .clientJoin p a b) →
      ∃ e' s', (growing split.affinity P).gives s (split.expr false e) e' s' ∧ Left split.rel e e' s' := by
    intro e s plain walked noProjection noClientJoin
    cases chosen : (e.nominate split.affinity split.sources false).chosen with
    | true =>
      obtain ⟨c, s', run, reads⟩ := column_run split s plain
        (ne_const_of_chosen chosen) fun client => plain.eq_column_of_chosen (client ▸ chosen)
      refine ⟨.column c, s', ?_, .column reads, fun h => ?_⟩
      · rw [Split.expr.eq_3 _ _ _ noProjection noClientJoin, if_pos chosen]
        exact run
      · rw [h.of_chosen chosen]
        exact .here
    | false =>
      obtain ⟨e', s', run, left⟩ := walked
      refine ⟨e', s', ?_, left⟩
      rw [Split.expr.eq_3 _ _ _ noProjection noClientJoin, if_neg (by simp [chosen])]
      exact run
  induction plain generalizing s with
  | @column c hc =>
    obtain ⟨c', s', run, reads⟩ := column_run split s (.column hc)
      (by simp : ∀ v, Expr.column c ≠ .const v)
      fun _ => ⟨c, rfl⟩
    refine ⟨.column c', s', ?_, .column reads, fun h => ?_⟩
    · rw [Split.expr.eq_3 _ _ _ (by simp) (by simp), if_pos (nominate_column (inside c hc))]
      exact run
    · cases h
      exact .here
  | const hv =>
    refine node (.const hv) ⟨_, s, (growing split.affinity P).pure _ _, .const hv, id⟩ (by simp) (by simp)
  | binary pl pr hl hr =>
    obtain ⟨l', s₁, run₁, left₁⟩ := hl s
    obtain ⟨r', s₂, run₂, left₂⟩ := hr s₁
    refine node (.binary pl pr) ⟨_, s₂, (growing split.affinity P).bind run₁ ((growing split.affinity P).bind run₂
      ((growing split.affinity P).pure _ _)), .binary (left₁.mono run₂.2.2).plain left₂.plain, fun h => ?_⟩
      (by simp) (by simp)
    cases h
    exact .here
  | unary pe he =>
    obtain ⟨e', s₁, run₁, left₁⟩ := he s
    refine node (.unary pe) ⟨_, s₁, (growing split.affinity P).bind run₁ ((growing split.affinity P).pure _ _),
      .unary left₁.plain, fun h => ?_⟩ (by simp) (by simp)
    cases h
    exact .here
  | isNull pe he =>
    obtain ⟨e', s₁, run₁, left₁⟩ := he s
    refine node (.isNull pe) ⟨_, s₁, (growing split.affinity P).bind run₁ ((growing split.affinity P).pure _ _),
      .isNull left₁.plain, fun h => ?_⟩ (by simp) (by simp)
    cases h
    exact .here
  | entity pe he =>
    obtain ⟨e', s₁, run₁, left₁⟩ := he s
    refine node (.entity pe) ⟨_, s₁, (growing split.affinity P).bind run₁ ((growing split.affinity P).pure _ _),
      .entity left₁.plain, fun h => ?_⟩ (by simp) (by simp)
    cases h with
    | here => exact .here
    | entity h => exact .entity (left₁.reaches h)
  | member impossible => exact impossible.elim
  | @cond test onTrue onFalse pt pl pr ht hl hr =>
    obtain ⟨t', s₁, run₁, left₁⟩ := ht s
    obtain ⟨l', s₂, run₂, left₂⟩ := hl s₁
    obtain ⟨r', s₃, run₃, left₃⟩ := hr s₂
    have null : ∀ {s s' : State} {e' : Expr},
        (growing split.affinity P).gives s (split.expr false .null) e' s' → e' = .null := by
      intro s s' e' run
      have walk : (split.expr false .null).run s = (.null, s) := by
        rw [Expr.null, Split.expr.eq_3 _ _ _ (by simp) (by simp), Expr.nominate,
          if_neg (by simp)]
        rfl
      exact (congrArg Prod.fst (run.1.symm.trans walk))
    refine node (.cond pt pl pr) ⟨_, s₃, (growing split.affinity P).bind run₁ ((growing split.affinity P).bind run₂
      ((growing split.affinity P).bind run₃ ((growing split.affinity P).pure _ _))),
      .cond ((left₁.mono run₂.2.2).mono run₃.2.2).plain (left₂.mono run₃.2.2).plain left₃.plain,
      fun h => ?_⟩ (by simp) (by simp)
    cases h with
    | here => exact .here
    | cond hl hr => exact .cond (left₂.reaches hl) (left₃.reaches hr)
    | condNull hl =>
      rw [null run₃]
      exact .condNull (left₂.reaches hl)
    | nullCond hr =>
      rw [null run₂]
      exact .nullCond (left₃.reaches hr)
  | @call function args pa ha =>
    obtain ⟨args', s₁, run₁, left₁⟩ := mapM_growing (Q := fun a a' s => Left split.rel a a' s)
      (fun h sub => h.mono sub) (fun a ha' s => ha a ha' s) s
    refine node (.call pa) ⟨.call function args', s₁, ?_, .call fun a' ha' => ?_, fun h => ?_⟩
      (by simp) (by simp)
    · simp only [Expr.traverse, List.mapM_subtype, List.unattach_attach]
      exact (growing split.affinity P).bind run₁ ((growing split.affinity P).pure _ _)
    · obtain ⟨a, _, left⟩ := exists_of_forall₂_right left₁ _ ha'
      exact left.plain
    · cases h
      exact .here
  | @construct typeName fields pf hf =>
    have each : ∀ f ∈ fields, ∀ s, ∃ f' s', (growing split.affinity P).gives s (do
        return { f with expr := ← split.expr false f.expr }) f' s'
        ∧ (f'.name = f.name ∧ Left split.rel f.expr f'.expr s') := by
      intro f hf' s
      obtain ⟨e', s₁, run₁, left₁⟩ := hf f hf' s
      exact ⟨⟨f.name, e'⟩, s₁, (growing split.affinity P).bind run₁ ((growing split.affinity P).pure _ _), rfl, left₁⟩
    obtain ⟨fields', s₁, run₁, left₁⟩ := mapM_growing
      (Q := fun (f f' : Field Expr) s => f'.name = f.name ∧ Left split.rel f.expr f'.expr s)
      (fun h sub => ⟨h.1, h.2.mono sub⟩) each s
    refine node (.construct pf) ⟨.construct typeName fields', s₁, ?_, .construct fun f' hf' => ?_,
      fun h => ?_⟩ (by simp) (by simp)
    · simp only [Expr.traverse, List.mapM_subtype, List.unattach_attach]
      exact (growing split.affinity P).bind run₁ ((growing split.affinity P).pure _ _)
    · obtain ⟨f, _, _, left⟩ := exists_of_forall₂_right left₁ _ hf'
      exact left.plain
    · cases h with
      | here => exact .here
      | construct found reaches =>
        obtain ⟨e', found', left⟩ :=
          fieldNamed?_of_forall₂ (R := fun e e' => Left split.rel e e' s₁) left₁ found
        exact .construct found' (left.reaches reaches)

end Split

/-- A split gives what its walk makes. -/
theorem Expr.split_of_makes {affinity : Affinity} {sources : List Alias} {rel : Alias}
    {fits : ColumnDecl Expr → Prop} {Q : Split.State → Expr → Prop}
    (makes : (Yields.ofState Split.State).Makes (Split.growth fits) Q
      (Split.expr ⟨affinity, rel, sources⟩ false e)) (existing : List (ColumnDecl Expr)) :
    ∃ next, (Split.growth fits).le ⟨existing, 0⟩ ⟨(e.split affinity existing rel sources).columns, next⟩
      ∧ Q ⟨(e.split affinity existing rel sources).columns, next⟩
        (e.split affinity existing rel sources).projector := by
  obtain ⟨e', s', run, grown, later⟩ := makes ⟨existing, 0⟩
  have parts : e.split affinity existing rel sources = ⟨e', s'.columns⟩ := by
    have run : (Split.expr ⟨affinity, rel, sources⟩ false e).run ⟨existing, 0⟩ = (e', s') := run
    rw [Expr.split, run]
  rw [parts]
  exact ⟨s'.next, grown, later s' ((Split.growth fits).refl s')⟩

/-- Splitting a plain expression. -/
theorem split_spec (plain : Plain False P e) (affinity : Affinity) (rel : Alias)
    (sources : List Alias) (inside : ∀ c, P c → c.rel ∈ sources) :
    Split.Columns affinity P (e.split affinity [] rel sources).columns
      ∧ Plain False (Split.Reads rel (e.split affinity [] rel sources).columns)
        (e.split affinity [] rel sources).projector
      ∧ ∀ {path}, Reaches e path → Reaches (e.split affinity [] rel sources).projector path := by
  obtain ⟨e', s', run, left⟩ := Split.expr_run ⟨affinity, rel, sources⟩ plain inside ⟨[], 0⟩
  have eq : e.split affinity [] rel sources = ⟨e', s'.columns⟩ := by
    rw [Expr.split, run.1]
  rw [eq]
  refine ⟨run.2.1 ⟨?_, ?_, ?_, ?_, ?_⟩, left.plain, left.reaches⟩ <;> simp

end ObjectQuery
