import ObjectQuery.Proofs.Following
import ObjectQuery.Proofs.Shape
import ObjectQuery.Proofs.StableSort

/-!
The evaluator is a congruence: nodes of the same shape are coupled where their parts are. The parts
may be evaluated in different scopes, as long as the frames that a source adds to them correspond.
-/

namespace ObjectQuery

def Select.clauses (s : Select Expr) : List Expr :=
  s.filter.toList ++ s.orderBy.map (·.expr) ++ s.groupBy ++ s.columns.map (·.expr)

def Expr.readFirst? : Expr → Option (Select Expr)
  | .scalar s | .inSelect _ s | .groupAggregate _ _ _ s => some s
  | _ => none

namespace Eval

variable {tables : Tables} {σ σ' : Scope} {Q : Expr → Expr → Prop}
  {QS : Select Expr → Select Expr → Prop} {QP : Projection Expr → Projection Expr → Prop}

theorem scalar_inValues (item : Expr) (values : List Expr) (scope : Scope) :
    scalar tables (.inValues item values) scope = (do
      let v ← scalar tables item scope
      let candidates ← values.mapM fun c => do
        match ← scalar tables c scope with
        | .list items => return items
        | single => return [single]
      v.isIn candidates.flatten) := by
  have same := scalar.eq_def tables (.inValues item values) scope
  simp only [List.mapM_subtype, List.unattach_attach] at same
  exact same

theorem onlyValue_congr {rows rows' : List Row} (h : rows.map Row.head = rows'.map Row.head) :
    onlyValue rows = onlyValue rows' := by
  have lengths : rows.length = rows'.length := by simpa using congrArg List.length h
  rcases rows with _ | ⟨row, _ | _⟩ <;> rcases rows' with _ | ⟨row', _ | _⟩ <;>
    simp_all [onlyValue]

/-- Nodes other than columns. -/
theorem scalar_follows {e e' : Expr} (shaped : e.Shaped Q QS QP e') (noColumn : ∀ c, e ≠ .column c)
    (hQ : ∀ c c', Q c c' → Follows Eq (scalar tables c σ) (scalar tables c' σ'))
    (rows : ∀ s s', QS s s' → Follows (fun rows rows' => rows.isEmpty = rows'.isEmpty)
      (select tables s σ) (select tables s' σ'))
    (heads : ∀ s s', e.readFirst? = some s → QS s s' →
      Follows (fun rows rows' => rows.map Row.head = rows'.map Row.head)
        (select tables s σ) (select tables s' σ'))
    (groups : ∀ kind argument distinct, e = .aggregate kind argument distinct →
      Option.Rel (List.Forall₂ fun frame frame' => ∀ c c', Q c c' →
        Follows Eq (scalar tables c (σ.extend frame)) (scalar tables c' (σ'.extend frame')))
        σ.group σ'.group)
    (numbers : ∀ orders, e = .rowNumber orders → σ.rowNumber = σ'.rowNumber) :
    Follows Eq (scalar tables e σ) (scalar tables e' σ') := by
  cases shaped with
  | column c => exact absurd rfl (noColumn c)
  | const v =>
    simp only [scalar]
    exact Follows.pure rfl
  | binary op ha hb =>
    simp only [scalar]
    exact Follows.bind_same (hQ _ _ ha) fun _ => Follows.bind_same (hQ _ _ hb) fun _ => Follows.refl _
  | unary op ha =>
    simp only [scalar]
    exact Follows.bind_same (hQ _ _ ha) fun _ => Follows.refl _
  | cond ha hb hc =>
    simp only [scalar]
    refine Follows.bind_same (hQ _ _ ha) fun v => Follows.bind_same (Follows.refl _) fun test => ?_
    cases test with
    | false => exact hQ _ _ hc
    | true => exact hQ _ _ hb
  | call function hargs =>
    simp only [scalar_call]
    exact Follows.bind_same (Follows.mapM_same hargs fun _ _ _ h => hQ _ _ h) fun _ => Follows.refl _
  | isNull ha =>
    simp only [scalar]
    exact Follows.bind_same (hQ _ _ ha) fun _ => .refl _
  | between ha hb hc =>
    simp only [scalar]
    exact Follows.bind_same (hQ _ _ ha) fun _ => Follows.bind_same (hQ _ _ hb) fun _ =>
      Follows.bind_same (hQ _ _ hc) fun _ => Follows.refl _
  | inValues ha hvalues =>
    simp only [scalar_inValues]
    refine Follows.bind_same (hQ _ _ ha) fun v => Follows.bind_same
      (Follows.mapM_same hvalues fun _ _ _ h => ?_) fun _ => Follows.refl _
    exact Follows.bind_same (hQ _ _ h) fun _ => Follows.refl _
  | inSelect ha hs =>
    simp only [scalar]
    refine Follows.bind_same (hQ _ _ ha) fun _ => Follows.bind (heads _ _ rfl hs) fun _ _ h => ?_
    rw [h]
    exact Follows.refl _
  | existsIn hs =>
    simp only [scalar]
    refine Follows.bind (rows _ _ hs) fun _ _ h => ?_
    rw [h]
    exact Follows.refl _
  | scalar hs =>
    simp only [Eval.scalar]
    refine Follows.bind (heads _ _ rfl hs) fun _ _ h => ?_
    rw [onlyValue_congr h]
    exact Follows.refl _
  | groupAggregate correlation owner ha hs =>
    simp only [Eval.scalar]
    refine Follows.bind (heads _ _ rfl hs) fun _ _ h => ?_
    rw [onlyValue_congr h]
    exact Follows.refl _
  | rowNumber horders =>
    simp only [Eval.scalar, numbers _ rfl]
    exact Follows.refl _
  | aggregate kind distinct hargument =>
    simp only [Eval.scalar]
    have groups := groups _ _ _ rfl
    revert groups
    generalize σ.group = group, σ'.group = group'
    rintro (frames | _)
    · cases hargument with
      | none =>
        simp only [frames.length_eq]
        exact Follows.refl _
      | some ha =>
        exact Follows.bind_same (Follows.mapM_same frames fun _ _ _ h => h _ _ ha) fun _ => Follows.refl _
    · exact Follows.error _ _
  | _ =>
    simp only [Eval.scalar]
    exact Follows.error _ _

inductive Inner (F : Frame → Frame → Prop) (σ σ' : Scope) : Scope → Scope → Prop
  | frame {f f' : Frame} : F f f' → Inner F σ σ' (σ.extend f) (σ'.extend f')
  | group {f f' : Frame} {g g' : List Frame} : F f f' → List.Forall₂ F g g' →
    Inner F σ σ' { σ.extend f with group := some g } { σ'.extend f' with group := some g' }

def frames (tables : Tables) (s : Select Expr) (env : Scope) : Result (List Frame) :=
  match s.source with
  | none => .ok [[]]
  | some e => source tables e env

variable {F : Frame → Frame → Prop}

section Groups

abbrev GroupsMatch (F : Frame → Frame → Prop) :
    List (List Value × List Frame) → List (List Value × List Frame) → Prop :=
  List.Forall₂ fun g g' => g.1 = g'.1 ∧ List.Forall₂ F g.2 g'.2

theorem GroupsMatch.add {groups groups' : List (List Value × List Frame)}
    (h : GroupsMatch F groups groups') (key : List Value) {f f' : Frame} (hf : F f f') :
    GroupsMatch F (addToGroup key f groups) (addToGroup key f' groups') := by
  induction h with
  | nil => exact .cons ⟨rfl, .cons hf .nil⟩ .nil
  | @cons g g' rest rest' same tail ih =>
    obtain ⟨k, frames⟩ := g
    obtain ⟨k', frames'⟩ := g'
    obtain ⟨rfl, hframes⟩ := same
    rw [addToGroup, addToGroup]
    cases Value.keysEqual k key with
    | true => exact .cons ⟨rfl, List.rel_append hframes (.cons hf .nil)⟩ tail
    | false => exact .cons ⟨rfl, hframes⟩ ih

theorem GroupsMatch.fold {keyed keyed' : List (List Value × Frame)}
    (h : List.Forall₂ (fun p p' => p.1 = p'.1 ∧ F p.2 p'.2) keyed keyed')
    {groups groups' : List (List Value × List Frame)} (before : GroupsMatch F groups groups') :
    GroupsMatch F (keyed.foldl (fun groups (key, frame) => addToGroup key frame groups) groups)
      (keyed'.foldl (fun groups (key, frame) => addToGroup key frame groups) groups') := by
  induction h generalizing groups groups' with
  | nil => exact before
  | @cons p p' rest rest' same tail ih =>
    obtain ⟨key, frame⟩ := p
    obtain ⟨key', frame'⟩ := p'
    obtain ⟨rfl, hframe⟩ := same
    exact ih (before.add key hframe)

theorem forall₂_isEmpty {α β : Type} {R : α → β → Prop} {as : List α} {bs : List β}
    (h : List.Forall₂ R as bs) : as.isEmpty = bs.isEmpty := by
  cases h <;> rfl

theorem groupScopes_match {s s' : Select Expr} (grouping : s.groupBy.isEmpty = s'.groupBy.isEmpty)
    (unmatched : F (nullFrame s.source) (nullFrame s'.source))
    {keyed keyed' : List (List Value × Frame)}
    (h : List.Forall₂ (fun p p' => p.1 = p'.1 ∧ F p.2 p'.2) keyed keyed') :
    List.Forall₂ (Inner F σ σ') (groupScopes s σ keyed) (groupScopes s' σ' keyed') := by
  have groups : GroupsMatch F (groupFrames keyed) (groupFrames keyed') := GroupsMatch.fold h .nil
  rw [groupScopes, groupScopes, forall₂_isEmpty groups, grouping]
  rw [List.forall₂_map_left_iff, List.forall₂_map_right_iff]
  have all : GroupsMatch F
      (if ((groupFrames keyed').isEmpty && s'.groupBy.isEmpty) = true then [([], [])]
        else groupFrames keyed)
      (if ((groupFrames keyed').isEmpty && s'.groupBy.isEmpty) = true then [([], [])]
        else groupFrames keyed') := by
    split
    · exact .cons ⟨rfl, .nil⟩ .nil
    · exact groups
  refine all.imp fun g g' ⟨_, hframes⟩ => .group ?_ hframes
  generalize g.2 = fs, g'.2 = fs' at hframes
  cases hframes with
  | nil => exact unmatched
  | cons hf _ => exact hf

end Groups

section Clauses

variable {s s' : Select Expr} (akin : s.AkinClauses Q s')
include akin

theorem filtered_follows {fs fs' : List Frame} (hfs : List.Forall₂ F fs fs')
    (clauses : ∀ c ∈ s.clauses, ∀ c', Q c c' → ∀ τ τ', Inner F σ σ' τ τ' →
      Follows Eq (scalar tables c τ) (scalar tables c' τ')) :
    Follows (List.Forall₂ F) (filtered s (fun e _ => scalar tables e) σ fs)
      (filtered s' (fun e _ => scalar tables e) σ' fs') := by
  rw [filtered_eq, filtered_eq]
  have inFilter : ∀ e ∈ s.filter, e ∈ s.clauses := by simp +contextual [Select.clauses]
  have hfilter := akin.filter
  generalize s.filter = filter, s'.filter = filter' at inFilter hfilter
  cases hfilter with
  | none => exact Follows.pure hfs
  | some h =>
    refine Follows.filterM hfs fun f f' hf => Follows.bind_same ?_ fun _ => Follows.refl _
    exact clauses _ (inFilter _ rfl) _ h _ _ (.frame hf)

theorem produce_follows {τ τ' : Scope}
    (clauses : ∀ c ∈ s.clauses, ∀ c', Q c c' → Follows Eq (scalar tables c τ) (scalar tables c' τ')) :
    Follows Eq (produce s (fun e _ => scalar tables e) τ)
      (produce s' (fun e _ => scalar tables e) τ') := by
  rw [produce_eq, produce_eq]
  refine Follows.bind_same (Follows.mapM_same akin.columns fun d hd d' h => ?_) fun row =>
    Follows.bind_same (Follows.mapM_same akin.orderBy fun o ho o' h => ?_) fun keys => Follows.pure rfl
  · have inColumns : d.expr ∈ s.clauses := by
      simp only [Select.clauses, List.mem_append, List.mem_map]
      exact .inr ⟨d, hd, rfl⟩
    rw [h.1]
    exact Follows.bind_same (clauses _ inColumns _ h.2) fun _ => Follows.pure rfl
  · have inOrders : o.expr ∈ s.clauses := by
      simp only [Select.clauses, List.mem_append, List.mem_map]
      exact .inl (.inl (.inr ⟨o, ho, rfl⟩))
    exact clauses _ inOrders _ h.2

theorem arrange_congr (produced : List Produced) : arrange s produced = arrange s' produced := by
  have directions : s.orderBy.map (·.direction) = s'.orderBy.map (·.direction) := by
    rw [← List.forall₂_eq_eq_eq, List.forall₂_map_left_iff, List.forall₂_map_right_iff]
    exact akin.orderBy.imp fun _ _ h => h.1
  rw [arrange, arrange, directions, akin.distinct, akin.reversed]

end Clauses

section Numbers

variable {T : Scope → Scope → Prop}

def keyRanks (directions : List Direction) (keys : List (List Value)) : List (Nat × Nat) :=
  (sortStable (fun a b => compareKeys directions a.1 b.1 == .lt) keys.zipIdx).zipIdx.map
    fun x => (x.1.2, x.2 + 1)

/-- A scope is numbered by the keys alone. -/
theorem numberScopes_eq_map (directions : List Direction) (keyed : List (List Value × Scope)) :
    numberScopes directions keyed = keyed.zipIdx.map fun x =>
      { x.1.2 with rowNumber := (keyRanks directions (keyed.map (·.1))).lookup x.2 } := by
  have indexed : (keyed.map (·.1)).zipIdx = keyed.zipIdx.map fun x => (x.1.1, x.2) := by
    rw [List.zipIdx_map]
    rfl
  have sorted : sortStable (fun a b => compareKeys directions a.1 b.1 == .lt)
      (keyed.map (·.1)).zipIdx
      = (sortStable (fun a b => compareKeys directions a.1.1 b.1.1 == .lt) keyed.zipIdx).map
          fun x => (x.1.1, x.2) := by
    rw [indexed]
    exact sortStable_map _ (fun _ _ => rfl) _
  rw [numberScopes, keyRanks, sorted, List.zipIdx_map, List.map_map]
  rfl

variable (number : ∀ τ τ' n, T τ τ' → T { τ with rowNumber := n } { τ' with rowNumber := n })
include number

theorem numberScopes_match {keyed keyed' : List (List Value × Scope)} (directions : List Direction)
    (h : List.Forall₂ (fun x x' => x.1 = x'.1 ∧ T x.2 x'.2) keyed keyed') :
    List.Forall₂ T (numberScopes directions keyed) (numberScopes directions keyed') := by
  have keys : keyed.map (·.1) = keyed'.map (·.1) := by
    rw [← List.forall₂_eq_eq_eq, List.forall₂_map_left_iff, List.forall₂_map_right_iff]
    exact h.imp fun _ _ h => h.1
  rw [numberScopes_eq_map, numberScopes_eq_map, keys]
  rw [List.forall₂_map_left_iff, List.forall₂_map_right_iff]
  generalize keyRanks directions (keyed'.map (·.1)) = ranks, 0 = start
  clear keys
  induction h generalizing start with
  | nil => exact .nil
  | cons head _ ih =>
    rw [List.zipIdx_cons, List.zipIdx_cons]
    exact .cons (number _ _ _ head.2) (ih _)

theorem numbered_follows {s s' : Select Expr}
    (orders : Option.Rel (List.Forall₂ fun o o' => o.direction = o'.direction ∧ ∀ τ τ', T τ τ' →
      Follows Eq (scalar tables o.expr τ) (scalar tables o'.expr τ'))
      (s.columns.findSome? fun d => d.expr.rowOrders?)
      (s'.columns.findSome? fun d => d.expr.rowOrders?))
    {τs τs' : List Scope} (h : List.Forall₂ T τs τs') :
    Follows (List.Forall₂ T) (numbered s (fun e _ => scalar tables e) τs)
      (numbered s' (fun e _ => scalar tables e) τs') := by
  rw [numbered_eq, numbered_eq]
  generalize s.columns.findSome? (fun d => d.expr.rowOrders?) = x,
    s'.columns.findSome? (fun d => d.expr.rowOrders?) = x' at orders
  cases orders with
  | none => exact Follows.pure h
  | @some os os' orders =>
    have directions : os.map (·.direction) = os'.map (·.direction) := by
      rw [← List.forall₂_eq_eq_eq, List.forall₂_map_left_iff, List.forall₂_map_right_iff]
      exact orders.imp fun _ _ h => h.1
    simp only [directions]
    refine Follows.bind (Follows.mapM h fun τ _ τ' hτ => ?_) fun keyed keyed' hkeyed =>
      Follows.pure (numberScopes_match number _ hkeyed)
    exact Follows.bind_same (Follows.mapM_same orders fun o _ o' ho => ho.2 τ τ' hτ) fun key =>
      Follows.pure ⟨rfl, hτ⟩

end Numbers

def rowScopes (tables : Tables) (s : Select Expr) (env : Scope) : Result (List Scope) := do
  let frames ← frames tables s env
  let frames ← filtered s (fun e _ => scalar tables e) env frames
  scopes s (fun e _ => scalar tables e) env frames

theorem select_eq_rowScopes (s : Select Expr) (env : Scope) :
    select tables s env = (do
      let scopes ← rowScopes tables s env
      let scopes ← numbered s (fun e _ => scalar tables e) scopes
      let produced ← scopes.mapM (produce s fun e _ => scalar tables e)
      let rows ← skipped s (fun e _ => scalar tables e) env (arrange s produced)
      taken s (fun e _ => scalar tables e) env rows) := by
  rw [select_eq, rowScopes, frames]
  simp only [bind_assoc]
  rfl

section Akin

variable {s s' : Select Expr} (akin : s.AkinClauses Q s')
include akin

theorem rowScopes_follows
    (sources : Follows (List.Forall₂ F) (frames tables s σ) (frames tables s' σ'))
    (unmatched : F (nullFrame s.source) (nullFrame s'.source))
    (aggregates : s.groupBy = [] → s.hasAggregates = s'.hasAggregates)
    (clauses : ∀ c ∈ s.clauses, ∀ c', Q c c' → ∀ τ τ', Inner F σ σ' τ τ' →
      Follows Eq (scalar tables c τ) (scalar tables c' τ')) :
    Follows (List.Forall₂ (Inner F σ σ')) (rowScopes tables s σ) (rowScopes tables s' σ') := by
  have grouping : s.groupBy.isEmpty = s'.groupBy.isEmpty := forall₂_isEmpty akin.groupBy
  have grouped : (!s.groupBy.isEmpty || s.hasAggregates) = (!s'.groupBy.isEmpty || s'.hasAggregates) := by
    rw [← grouping]
    cases h : s.groupBy with
    | nil => rw [aggregates h]
    | cons _ _ => rfl
  refine Follows.bind sources fun fs fs' hfs => ?_
  refine Follows.bind (filtered_follows akin hfs clauses) fun fs fs' hfs => ?_
  rw [scopes_eq, scopes_eq, grouped]
  split
  · refine Follows.bind (Follows.mapM hfs fun f _ f' hf => ?_) fun keyed keyed' h => Follows.pure
      (groupScopes_match grouping unmatched h)
    refine Follows.bind_same (Follows.mapM_same akin.groupBy fun e he e' h => ?_) fun key => Follows.pure ⟨rfl, hf⟩
    exact clauses e (by simp [Select.clauses, he]) e' h _ _ (.frame hf)
  · exact Follows.pure (List.forall₂_map_left_iff.mpr (List.forall₂_map_right_iff.mpr
      (hfs.imp fun _ _ hf => .frame hf)))

/-- Selects with related clauses; `T` relates the scopes in which these are evaluated. -/
theorem akin_follows {T : Scope → Scope → Prop}
    (sources : Follows (List.Forall₂ F) (frames tables s σ) (frames tables s' σ'))
    (unmatched : F (nullFrame s.source) (nullFrame s'.source))
    (aggregates : s.groupBy = [] → s.hasAggregates = s'.hasAggregates)
    (inner : ∀ τ τ', Inner F σ σ' τ τ' → T τ τ')
    (numbers : ∀ τs τs', List.Forall₂ T τs τs' → Follows (List.Forall₂ T)
      (numbered s (fun e _ => scalar tables e) τs) (numbered s' (fun e _ => scalar tables e) τs'))
    (clauses : ∀ c ∈ s.clauses, ∀ c', Q c c' → ∀ τ τ', T τ τ' →
      Follows Eq (scalar tables c τ) (scalar tables c' τ'))
    (pages : ∀ c ∈ s.skip.toList ++ s.take.toList, ∀ c', Q c c' →
      Follows Eq (scalar tables c σ) (scalar tables c' σ')) :
    Follows Eq (select tables s σ) (select tables s' σ') := by
  have within : ∀ c ∈ s.clauses, ∀ c', Q c c' → ∀ τ τ', Inner F σ σ' τ τ' →
      Follows Eq (scalar tables c τ) (scalar tables c' τ') :=
    fun c hc c' h τ τ' hτ => clauses c hc c' h τ τ' (inner τ τ' hτ)
  rw [select_eq_rowScopes, select_eq_rowScopes]
  refine Follows.bind (rowScopes_follows akin sources unmatched aggregates within)
    fun scopes scopes' hscopes => ?_
  refine Follows.bind (numbers _ _ (hscopes.imp inner)) fun scopes scopes' hscopes => ?_
  refine Follows.bind_same (Follows.mapM_same hscopes fun τ _ τ' hτ => ?_) fun produced => ?_
  · exact produce_follows akin fun c hc c' h => clauses c hc c' h τ τ' hτ
  rw [arrange_congr akin]
  refine Follows.bind_same ?_ fun rows => ?_
  · rw [skipped_eq, skipped_eq]
    have hskip := akin.skip
    generalize s.skip = skip, s'.skip = skip' at hskip pages
    cases hskip with
    | none => exact Follows.pure rfl
    | some h => exact Follows.bind_same (pages _ (by simp) _ h) fun _ => Follows.refl _
  · rw [taken_eq, taken_eq]
    have htake := akin.take
    generalize s.take = take, s'.take = take' at htake pages
    cases htake with
    | none => exact Follows.pure rfl
    | some h => exact Follows.bind_same (pages _ (by simp) _ h) fun _ => Follows.refl _

end Akin

/-- Selects of the same shape that number no rows. -/
theorem select_follows {s s' : Select Expr} (shaped : s.Shaped Q s')
    (sources : Follows (List.Forall₂ F) (frames tables s σ) (frames tables s' σ'))
    (unmatched : F (nullFrame s.source) (nullFrame s'.source))
    (aggregates : s.groupBy = [] → s.hasAggregates = s'.hasAggregates)
    (unnumbered : numbering? s = none) (unnumbered' : numbering? s' = none)
    (clauses : ∀ c ∈ s.clauses, ∀ c', Q c c' → ∀ τ τ', Inner F σ σ' τ τ' →
      Follows Eq (scalar tables c τ) (scalar tables c' τ'))
    (pages : ∀ c ∈ s.skip.toList ++ s.take.toList, ∀ c', Q c c' →
      Follows Eq (scalar tables c σ) (scalar tables c' σ')) :
    Follows Eq (select tables s σ) (select tables s' σ') := by
  refine akin_follows shaped.akin.toAkinClauses sources unmatched aggregates (fun _ _ h => h) ?_ clauses pages
  intro τs τs' h
  rw [numbered, numbered, unnumbered, unnumbered']
  exact Follows.pure h

section Sources

variable {G H : Frame → Frame → Prop}

theorem source_select (s : Select Expr) (env : Scope) :
    source tables (.select s) env
      = (do return (← select tables s env).map fun row => [(s.rel, some row)]) := by
  rw [source]

theorem rows_follows {s s' : Select Expr} {P : Row → Row → Prop}
    (h : Follows (List.Forall₂ P) (select tables s σ) (select tables s' σ'))
    (same : ∀ row row', P row row' → F [(s.rel, some row)] [(s'.rel, some row')]) :
    Follows (List.Forall₂ F) (source tables (.select s) σ) (source tables (.select s') σ') := by
  rw [source_select, source_select]
  refine Follows.bind h fun rows rows' hrows => Follows.pure ?_
  rw [List.forall₂_map_left_iff, List.forall₂_map_right_iff]
  exact hrows.imp same

theorem table_follows {t t' : Table} (name : t.name = t'.name)
    (same : ∀ row, F [(t.rel, some row)] [(t'.rel, some row)]) :
    Follows (List.Forall₂ F) (source tables (.table t) σ) (source tables (.table t') σ') := by
  rw [source, source, name]
  cases tables.get? t'.name with
  | none => exact Follows.error _ _
  | some rows =>
    refine Follows.pure ?_
    rw [List.forall₂_map_left_iff, List.forall₂_map_right_iff, List.forall₂_same]
    exact fun row _ => same row

theorem setOp_follows {rel rel' : Alias} {kind : SetKind} {s s' t t' : Select Expr}
    (names : s.columnNames = s'.columnNames)
    (hs : Follows Eq (select tables s σ) (select tables s' σ'))
    (ht : Follows Eq (select tables t σ) (select tables t' σ'))
    (same : ∀ row, F [(rel, some row)] [(rel', some row)]) :
    Follows (List.Forall₂ F) (source tables (.setOp rel kind s t) σ)
      (source tables (.setOp rel' kind s' t') σ') := by
  rw [source, source, names]
  refine Follows.bind_same hs fun rows => Follows.bind_same ht fun rows' => Follows.pure ?_
  rw [List.forall₂_map_left_iff, List.forall₂_map_right_iff, List.forall₂_same]
  exact fun row _ => same row

def meets (tables : Tables) (condition : Option Expr) (scope : Scope) : Result Bool :=
  match condition with
  | none => .ok true
  | some e => do holds (← scalar tables e scope)

def joinFrame (tables : Tables) (kind : JoinKind) (right : Expr) (on : Option Expr) (env : Scope)
    (frame : Frame) (rights : List Frame) : Result (List Frame) := do
  let matched ← rights.filterM fun other => meets tables on ((env.extend frame).extend other)
  if matched.isEmpty && (kind == .leftOuter || kind == .outerApply) then
    return [frame ++ nullFrame (some right)]
  else return matched.map (frame ++ ·)

theorem source_apply {kind : JoinKind} (apply : kind.isApply = true) (left right : Expr)
    (on : Option Expr) (env : Scope) :
    source tables (.join kind left right on) env = (do
      let lefts ← source tables left env
      let joined ← lefts.mapM fun frame => do
        joinFrame tables kind right on env frame (← source tables right (env.extend frame))
      return joined.flatten) := by
  rw [source]
  simp only [apply, joinFrame, if_true, pure_bind]
  cases on <;> rfl

theorem source_join {kind : JoinKind} (shared : kind.isApply = false) (left right : Expr)
    (on : Option Expr) (env : Scope) :
    source tables (.join kind left right on) env = (do
      let lefts ← source tables left env
      let rights ← source tables right env
      let joined ← lefts.mapM fun frame => joinFrame tables kind right on env frame rights
      return joined.flatten) := by
  rw [source]
  simp only [shared, joinFrame, Bool.false_eq_true, if_false, pure_bind]
  cases on <;> rfl

section Joins

variable {kind : JoinKind} {left left' right right' : Expr} {on on' : Option Expr}
  (conditions : Option.Rel (fun c c' => ∀ f f' g g', F f f' → G g g' → Follows Eq
    (scalar tables c ((σ.extend f).extend g)) (scalar tables c' ((σ'.extend f').extend g'))) on on')
  (unmatched : G (nullFrame (some right)) (nullFrame (some right')))
  (append : ∀ f f' g g', F f f' → G g g' → H (f ++ g) (f' ++ g'))
include conditions unmatched append

theorem joinFrame_follows {f f' : Frame} (hf : F f f') {rs rs' : List Frame}
    (hrs : List.Forall₂ G rs rs') :
    Follows (List.Forall₂ H) (joinFrame tables kind right on σ f rs)
      (joinFrame tables kind right' on' σ' f' rs') := by
  refine Follows.bind (Follows.filterM hrs fun g g' hg => ?_) fun ms ms' hms => ?_
  · cases conditions with
    | none => exact Follows.refl _
    | some h => exact Follows.bind_same (h f f' g g' hf hg) fun _ => Follows.refl _
  rw [forall₂_isEmpty hms]
  split
  · exact Follows.pure (.cons (append _ _ _ _ hf unmatched) .nil)
  · refine Follows.pure ?_
    rw [List.forall₂_map_left_iff, List.forall₂_map_right_iff]
    exact hms.imp fun g g' hg => append _ _ _ _ hf hg

/-- Joins of the same kind. -/
theorem join_follows
    (lefts : Follows (List.Forall₂ F) (source tables left σ) (source tables left' σ'))
    (shared : kind.isApply = false →
      Follows (List.Forall₂ G) (source tables right σ) (source tables right' σ'))
    (applied : kind.isApply = true → ∀ f f', F f f' → Follows (List.Forall₂ G)
      (source tables right (σ.extend f)) (source tables right' (σ'.extend f'))) :
    Follows (List.Forall₂ H) (source tables (.join kind left right on) σ)
      (source tables (.join kind left' right' on') σ') := by
  cases apply : kind.isApply with
  | true =>
    rw [source_apply apply, source_apply apply]
    refine Follows.bind lefts fun ls ls' hls => Follows.bind (Follows.mapM hls fun f _ f' hf => ?_) fun fss fss' h =>
      Follows.pure (List.rel_flatten h)
    exact Follows.bind (applied apply f f' hf) fun rs rs' hrs =>
      joinFrame_follows conditions unmatched append hf hrs
  | false =>
    rw [source_join apply, source_join apply]
    refine Follows.bind lefts fun ls ls' hls => Follows.bind (shared apply) fun rs rs' hrs =>
      Follows.bind (Follows.mapM hls fun f _ f' hf => ?_) fun fss fss' h => Follows.pure (List.rel_flatten h)
    exact joinFrame_follows conditions unmatched append hf hrs

end Joins

end Sources

section Objects

theorem project_eq (p : Projection Expr) (scope : Scope) :
    project tables p scope = (do
      let rows ← liftM (select tables p.select scope)
      let values ← rows.mapM fun row => client tables p.projector (scope.bind p.select.rel row)
      liftM (picked p.pick values)) := by
  rw [project]

section Under

variable {C : List (Alias × JoinedRows) → List (Alias × JoinedRows) → Prop}

theorem project_follows_under {p p' : Projection Expr} {H : Row → Row → Prop} (pick : p.pick = p'.pick)
    (selects : Follows (List.Forall₂ H) (select tables p.select σ) (select tables p'.select σ'))
    (projectors : ∀ row row', H row row' → FollowsUnder C
      (client tables p.projector (σ.bind p.select.rel row))
      (client tables p'.projector (σ'.bind p'.select.rel row'))) :
    FollowsUnder C (project tables p σ) (project tables p' σ') := by
  rw [project_eq, project_eq, pick]
  exact FollowsUnder.liftBind selects fun rows rows' h =>
    (FollowsUnder.mapM h projectors).bind fun values => .liftSame _

theorem keys_follow {keys keys' : List Expr}
    (h : List.Forall₂ (fun k k' => Follows Eq (scalar tables k σ) (scalar tables k' σ')) keys keys') :
    FollowsUnder C (keys.mapM fun k => (liftM (scalar tables k σ) : Client Value))
      (keys'.mapM fun k => liftM (scalar tables k σ')) :=
  .mapM h fun _ _ => .lift

theorem joinedRows_follows_under {p p' : Projection Expr} {inner inner' : List Expr}
    {H : Row → Row → Prop}
    (selects : Follows (List.Forall₂ H) (select tables p.select .root) (select tables p'.select .root))
    (keys : ∀ row row', H row row' → List.Forall₂ (fun k k' => Follows Eq
      (scalar tables k (Scope.root.bind p.select.rel row))
      (scalar tables k' (Scope.root.bind p'.select.rel row'))) inner inner')
    (projectors : ∀ row row', H row row' → FollowsUnder C
      (client tables p.projector (Scope.root.bind p.select.rel row))
      (client tables p'.projector (Scope.root.bind p'.select.rel row'))) :
    FollowsUnder C (joinedRows tables p inner) (joinedRows tables p' inner') := by
  rw [joinedRows, joinedRows]
  refine FollowsUnder.liftBind selects fun rows rows' h => .mapM h fun row row' hrow => ?_
  exact (keys_follow (keys row row' hrow)).bind fun key => (projectors row row' hrow).bind fun v => .pure _

structure JoinsAlike (C : List (Alias × JoinedRows) → List (Alias × JoinedRows) → Prop) (rel rel' : Alias) :
    Prop where
  found : ∀ c c', C c c' → c.lookup rel = c'.lookup rel'
  kept : ∀ c c' rows, C c c' → C ((rel, rows) :: c) ((rel', rows) :: c')

/-- Client joins that keep the same rows and look them up by the same keys. -/
theorem clientJoin_follows_under {p p' : Projection Expr} {outer outer' inner inner' : List Expr}
    (alike : JoinsAlike C p.select.rel p'.select.rel) (pick : p.pick = p'.pick)
    (joined : FollowsUnder C (joinedRows tables p inner) (joinedRows tables p' inner'))
    (keys : List.Forall₂ (fun k k' => Follows Eq (scalar tables k σ) (scalar tables k' σ')) outer outer') :
    FollowsUnder C (client tables (.clientJoin p outer inner) σ)
      (client tables (.clientJoin p' outer' inner') σ') := by
  have finish := fun rows : JoinedRows => (keys_follow (C := C) keys).bind fun key =>
    FollowsUnder.liftSame (σ := List (Alias × JoinedRows)) (picked p.pick (((rows.filter fun r =>
      Value.keysEqual r.1 key)).map (·.2)))
  simp only [client, ← pick]
  refine FollowsUnder.getBind fun c c' hc => ?_
  rw [alike.found c c' hc]
  split
  · exact (FollowsUnder.pure _).bind finish
  · refine joined.bind fun rows => ?_
    exact (FollowsUnder.modifyBoth fun c c' hc => alike.kept c c' rows hc).bind fun _ =>
      (FollowsUnder.pure rows).bind finish

/-- Projectors of the same shape. -/
theorem client_follows_under {e e' : Expr} (shaped : e.Shaped Q QS QP e')
    (value : Follows Eq (scalar tables e σ) (scalar tables e' σ'))
    (values : ∀ c c', Q c c' → Follows Eq (scalar tables c σ) (scalar tables c' σ'))
    (objects : ∀ c c', Q c c' → FollowsUnder C (client tables c σ) (client tables c' σ'))
    (projections : ∀ p p', QP p p' → FollowsUnder C (project tables p σ) (project tables p' σ'))
    (joins : ∀ p outer inner, e = .clientJoin p outer inner → ∀ p' inner', QP p p' →
      List.Forall₂ Q inner inner' → JoinsAlike C p.select.rel p'.select.rel ∧ p.pick = p'.pick
        ∧ FollowsUnder C (joinedRows tables p inner) (joinedRows tables p' inner')) :
    FollowsUnder C (client tables e σ) (client tables e' σ') := by
  cases shaped with
  | construct typeName hfields =>
    rw [client_construct, client_construct]
    refine FollowsUnder.bind (.mapM hfields fun f f' hf => ?_) fun _ => .pure _
    rw [hf.1]
    exact (objects _ _ hf.2).bind fun _ => .pure _
  | entity name ha =>
    simp only [client]
    exact objects _ _ ha
  | outerJoined ha hb =>
    simp only [client]
    refine (FollowsUnder.lift (values _ _ ha)).bind fun test => ?_
    split
    · exact .pure _
    · exact objects _ _ hb
  | cond ha hb hc =>
    simp only [client]
    refine (FollowsUnder.lift (values _ _ ha)).bind fun test =>
      (FollowsUnder.liftSame (holds test)).bind fun holds => ?_
    split
    · exact objects _ _ hb
    · exact objects _ _ hc
  | grouping ha hb =>
    simp only [client]
    exact (objects _ _ ha).bind fun _ => (objects _ _ hb).bind fun _ => .pure _
  | member name ha =>
    simp only [client]
    refine (objects _ _ ha).bind fun v => ?_
    split
    · exact .pure _
    · split
      · exact .pure _
      · exact fun _ _ _ => .error _ _
  | projection hp =>
    simp only [client]
    exact projections _ _ hp
  | @clientJoin p p' outer outer' inner inner' hp houter hinner =>
    obtain ⟨alike, pick, joined⟩ := joins _ _ _ rfl _ _ hp hinner
    exact clientJoin_follows_under alike pick joined (houter.imp fun k k' h => values k k' h)
  | _ =>
    simp only [client]
    exact (FollowsUnder.lift value).bind fun _ => .pure _

end Under

theorem project_follows {p p' : Projection Expr} {H : Row → Row → Prop}
    (rel : p.select.rel = p'.select.rel) (pick : p.pick = p'.pick)
    (selects : Follows (List.Forall₂ H) (select tables p.select σ) (select tables p'.select σ'))
    (projectors : ∀ row row', H row row' → FollowsRun
      (client tables p.projector (σ.bind p.select.rel row))
      (client tables p'.projector (σ'.bind p.select.rel row'))) :
    FollowsRun (project tables p σ) (project tables p' σ') :=
  FollowsUnder.eq_iff.mp (project_follows_under pick selects fun row row' h =>
    FollowsUnder.eq_iff.mpr (rel ▸ projectors row row' h))

theorem joinedRows_follows {p p' : Projection Expr} {inner inner' : List Expr} {H : Row → Row → Prop}
    (rel : p.select.rel = p'.select.rel)
    (selects : Follows (List.Forall₂ H) (select tables p.select .root)
      (select tables p'.select .root))
    (keys : ∀ row row', H row row' → List.Forall₂ (fun k k' => Follows Eq
      (scalar tables k (Scope.root.bind p.select.rel row))
      (scalar tables k' (Scope.root.bind p.select.rel row'))) inner inner')
    (projectors : ∀ row row', H row row' → FollowsRun
      (client tables p.projector (Scope.root.bind p.select.rel row))
      (client tables p'.projector (Scope.root.bind p.select.rel row'))) :
    FollowsRun (joinedRows tables p inner) (joinedRows tables p' inner') :=
  FollowsUnder.eq_iff.mp (joinedRows_follows_under selects (fun row row' h => rel ▸ keys row row' h)
    fun row row' h => FollowsUnder.eq_iff.mpr (rel ▸ projectors row row' h))

/-- Projectors of the same shape, whose client joins have the same names. -/
theorem client_follows {e e' : Expr} (shaped : e.Shaped Q QS QP e')
    (value : Follows Eq (scalar tables e σ) (scalar tables e' σ'))
    (values : ∀ c c', Q c c' → Follows Eq (scalar tables c σ) (scalar tables c' σ'))
    (objects : ∀ c c', Q c c' → FollowsRun (client tables c σ) (client tables c' σ'))
    (projections : ∀ p p', QP p p' → FollowsRun (project tables p σ) (project tables p' σ'))
    (joins : ∀ p outer inner, e = .clientJoin p outer inner → ∀ p' inner', QP p p' →
      List.Forall₂ Q inner inner' → p.select.rel = p'.select.rel ∧ p.pick = p'.pick
        ∧ FollowsRun (joinedRows tables p inner) (joinedRows tables p' inner')) :
    FollowsRun (client tables e σ) (client tables e' σ') := by
  refine FollowsUnder.eq_iff.mp (client_follows_under shaped value values
    (fun c c' h => FollowsUnder.eq_iff.mpr (objects c c' h))
    (fun p p' h => FollowsUnder.eq_iff.mpr (projections p p' h)) ?_)
  intro p outer inner he p' inner' hp hinner
  obtain ⟨rel, pick, joined⟩ := joins p outer inner he p' inner' hp hinner
  refine ⟨⟨fun c c' same => ?_, fun c c' rows same => ?_⟩, pick, FollowsUnder.eq_iff.mpr joined⟩
  · rw [same, rel]
  · rw [same, rel]

end Objects

end Eval

end ObjectQuery
