import ObjectQuery.Proofs.GroupTotals
import ObjectQuery.Proofs.TidyRewrites

/-!
Aggregates of groups as columns of the select that groups. The select computes every aggregate that
waits for it, under a name of its own, and what asked for an aggregate reads that column.
-/

namespace ObjectQuery

namespace GroupColumns

/-- Of all aggregates with one number, one is a candidate. -/
theorem exists_candidate (found cs : List Candidate) : ∀ c ∈ found ++ cs,
    ∃ c' ∈ cs.foldl addCandidate found, c'.correlation = c.correlation := by
  induction cs generalizing found with
  | nil => exact fun c hc => ⟨c, by simpa using hc, rfl⟩
  | cons x rest ih =>
    have known : ∃ c ∈ addCandidate found x, c.correlation = x.correlation := by
      rw [addCandidate]
      split
      · rename_i taken
        obtain ⟨c, hc, same⟩ := List.any_eq_true.mp taken
        exact ⟨c, hc, by simpa using same⟩
      · exact ⟨x, by simp, rfl⟩
    have kept : found ⊆ addCandidate found x := by
      rw [addCandidate]
      split <;> simp
    intro c hc
    rcases List.mem_append.mp hc with hc | hc
    · exact ih _ c (List.mem_append_left _ (kept hc))
    · rcases List.mem_cons.mp hc with rfl | hc
      · obtain ⟨c', hc', same⟩ := known
        obtain ⟨c'', hc'', same'⟩ := ih _ c' (List.mem_append_left _ hc')
        exact ⟨c'', hc'', same'.trans same⟩
      · exact ih _ c (List.mem_append_right _ hc)

variable {columns : List (ColumnDecl Expr)} {c : Candidate} {cs : List Candidate} {d : ColumnDecl Expr}

def column (columns : List (ColumnDecl Expr)) (c : Candidate) : ColumnDecl Expr :=
  .of (Names.available (columns.map (·.name)) ("agg" ++ toString columns.length)) c.aggregate

def placements (columns : List (ColumnDecl Expr)) : List Candidate → List (Candidate × ColumnDecl Expr)
  | [] => []
  | c :: rest => (c, column columns c) :: placements (columns ++ [column columns c]) rest

def places (rel : Alias) (placed : List (Candidate × ColumnDecl Expr)) : List (Nat × Column) :=
  (placed.map fun (c, d) => (c.correlation, ⟨rel, d.name, d.type⟩)).reverse

theorem map_fst_placements (columns : List (ColumnDecl Expr)) (cs : List Candidate) :
    (placements columns cs).map (·.1) = cs := by
  induction cs generalizing columns with
  | nil => rfl
  | cons c rest ih => rw [placements, List.map_cons, ih]

theorem of_mem_placements (h : (c, d) ∈ placements columns cs) : c ∈ cs :=
  map_fst_placements columns cs ▸ List.mem_map_of_mem h

theorem expr_of_mem_placements (h : (c, d) ∈ placements columns cs) : d.expr = c.aggregate := by
  induction cs generalizing columns with
  | nil => cases h
  | cons x rest ih =>
    rcases List.mem_cons.mp h with h | h
    · obtain ⟨rfl, rfl⟩ := Prod.mk.inj h
      rfl
    · exact ih h

theorem nodup_placements (h : (columns.map (·.name)).Nodup) (cs : List Candidate) :
    ((columns ++ (placements columns cs).map (·.2)).map (·.name)).Nodup := by
  induction cs generalizing columns with
  | nil => simpa [placements] using h
  | cons c rest ih =>
    have one : ((columns ++ [column columns c]).map (·.name)).Nodup := by
      obtain ⟨_, -, free⟩ := Names.available_spec (columns.map (·.name)) ("agg" ++ toString columns.length)
      rw [List.map_append, List.nodup_append]
      refine ⟨h, by simp, fun a ha b hb => ?_⟩
      rintro rfl
      obtain rfl := List.mem_singleton.mp hb
      exact free ha
    have all := ih one
    rwa [List.append_assoc] at all

/-- An aggregate is read from a column that computes one with its number. -/
theorem lookup_places (rel : Alias) (columns : List (ColumnDecl Expr)) (hc : c ∈ cs) :
    ∃ c' d, (c', d) ∈ placements columns cs ∧ c'.correlation = c.correlation
      ∧ (places rel (placements columns cs)).lookup c.correlation = some ⟨rel, d.name, d.type⟩ := by
  rw [← map_fst_placements columns cs] at hc
  obtain ⟨⟨c, d⟩, hd, rfl⟩ := List.mem_map.mp hc
  have placed : (c.correlation, ⟨rel, d.name, d.type⟩) ∈ places rel (placements columns cs) :=
    List.mem_reverse.mpr (List.mem_map.mpr ⟨(c, d), hd, rfl⟩)
  cases found : (places rel (placements columns cs)).lookup c.correlation with
  | none => simpa using List.lookup_eq_none_iff.mp found _ placed
  | some column =>
    obtain ⟨before, after, split, -⟩ := List.lookup_eq_some_iff.mp found
    have mem : (c.correlation, column) ∈ places rel (placements columns cs) := by simp [split]
    obtain ⟨⟨c', d'⟩, hd', same⟩ := List.mem_map.mp (List.mem_reverse.mp mem)
    obtain ⟨number, rfl⟩ := Prod.mk.inj same
    exact ⟨c', d', hd', number, rfl⟩

theorem foldl_place (s : Select Expr) (cs : List Candidate) (placed : List (Nat × Column)) :
    cs.foldl (fun (s, placed) c => ((place s c).1, (c.correlation, (place s c).2) :: placed)) (s, placed)
      = ({ s with columns := s.columns ++ (placements s.columns cs).map (·.2) },
        places s.rel (placements s.columns cs) ++ placed) := by
  induction cs generalizing s placed with
  | nil => simp [placements, places]
  | cons c rest ih =>
    rw [List.foldl_cons, ih]
    simp only [place, placements, places, column, Select.availableName, Select.columnNames, List.map_cons,
      List.reverse_cons, List.append_assoc, List.singleton_append]
    rfl

/-- A select is given the columns that wait for it. -/
theorem settle_run (s : Select Expr) (h : ∀ c ∈ cs, c.owner = s.rel) :
    (settle s).run ⟨cs, []⟩ = ({ s with columns := s.columns ++ (placements s.columns cs).map (·.2) },
      ⟨[], places s.rel (placements s.columns cs)⟩) := by
  have mine : cs.filter (fun c => c.owner == s.rel) = cs := List.filter_eq_self.mpr fun c hc => by simp [h c hc]
  have others : cs.filter (not ∘ fun c => c.owner == s.rel) = [] :=
    List.filter_eq_nil_iff.mpr fun c hc => by simp [h c hc]
  have fold := foldl_place s cs []
  rw [List.append_nil] at fold
  simp only [settle, StateT.run_bind, StateT.run_get, pure_bind, List.partition_eq_filter_filter, mine, others]
  exact congrArg (fun r : Select Expr × List (Nat × Column) => (r.1, State.mk [] r.2)) fold

/-- A select that nothing waits for stays as it is. -/
theorem settle_still (s : Select Expr) {state : State} (h : ∀ c ∈ state.waiting, c.owner ≠ s.rel) :
    (settle s).run state = (s, state) := by
  have mine : state.waiting.filter (fun c => c.owner == s.rel) = [] :=
    List.filter_eq_nil_iff.mpr fun c hc => by simp [h c hc]
  have others : state.waiting.filter (not ∘ fun c => c.owner == s.rel) = state.waiting :=
    List.filter_eq_self.mpr fun c hc => by simp [h c hc]
  simp only [settle, StateT.run_bind, StateT.run_get, pure_bind, List.partition_eq_filter_filter, mine, others]
  rfl

def Inert (state : State) (p : Part) : Prop :=
  p.Groupless ∧ ∀ s, p = .select s → ∀ c ∈ state.waiting, c.owner ≠ s.rel

theorem walk_inert {state : State} {p : Part} (inert : p.Every (Inert state)) :
    (∀ e, p = .expr e → e.groupColumns.run state = (e, state))
    ∧ (∀ s, p = .select s → s.groupColumns.run state = (s, state))
    ∧ ∀ q, p = .projection q → q.groupColumns.run state = (q, state) := by
  let Y := Yields.ofState State
  induction inert with
  | @node p here _ ih =>
    refine ⟨?_, ?_, ?_⟩
    · rintro e rfl
      have walked := Expr.traverse_gives Y e (fun c hc => (ih _ hc).1 c rfl)
        (fun q hq => (ih _ hq).2.1 q rfl) fun q hq => (ih _ hq).2.2 q rfl
      rw [Expr.groupColumns.eq_2 e fun _ _ _ _ eq => by subst eq; exact here.1]
      exact walked.trans (congrArg (·, state) e.traverse_pure)
    · rintro s rfl
      rw [Select.groupColumns]
      have walked := Select.traverse_gives Y s fun e he => (ih _ he).1 e rfl
      exact Y.bind (walked.trans (congrArg (·, state) s.traverse_pure))
        (settle_still s fun c hc => here.2 s rfl c hc)
    · rintro q rfl
      rw [Projection.groupColumns]
      exact Y.bind ((ih _ Projection.select_mem).2.1 _ rfl)
        (Y.bind ((ih _ Projection.projector_mem).1 _ rfl) rfl)

end GroupColumns

open GroupColumns

def Expr.reread (placed : List (Nat × Column)) : Expr → Expr
  | .groupAggregate i owner inGroup fallback =>
    ((placed.lookup i).map Expr.column).getD (.groupAggregate i owner inGroup fallback)
  | e => e

theorem Expr.reread_column (placed : List (Nat × Column)) (c : Column) : (column c).reread placed = .column c := rfl

theorem Expr.reread_groupAggregate {placed : List (Nat × Column)} {i : Nat} {c : Column}
    (found : placed.lookup i = some c) (owner : Alias) (inGroup : Expr) (fallback : Select Expr) :
    (groupAggregate i owner inGroup fallback).reread placed = .column c := by
  rw [reread, found]
  rfl

def ColumnDecl.reread (placed : List (Nat × Column)) (d : ColumnDecl Expr) : ColumnDecl Expr :=
  { d with expr := d.expr.reread placed }

inductive Expr.Readable (placed : List (Nat × Column)) : Expr → Prop
  | column (c : Column) : Readable placed (.column c)
  | aggregate {i : Nat} {owner : Alias} {inGroup : Expr} {fallback : Select Expr} {c : Column} :
    placed.lookup i = some c → Readable placed (.groupAggregate i owner inGroup fallback)

theorem Expr.Readable.exists_column {placed : List (Nat × Column)} {e : Expr} (h : e.Readable placed) :
    ∃ c, e.reread placed = .column c := by
  cases h with
  | column c => exact ⟨c, rfl⟩
  | aggregate found => exact ⟨_, reread_groupAggregate found ..⟩

theorem Expr.Readable.groupColumns_run {placed : List (Nat × Column)} {e : Expr} (h : e.Readable placed) :
    e.groupColumns.run ⟨[], placed⟩ = (e.reread placed, ⟨[], placed⟩) := by
  cases h with
  | column c =>
    rw [Expr.groupColumns.eq_2 _ (by simp)]
    rfl
  | aggregate found =>
    rw [Expr.groupColumns]
    simp only [StateT.run_bind, StateT.run_get, pure_bind, found, Expr.reread_groupAggregate found]
    rfl

def GroupColumns.requests : Part → List Candidate
  | .expr (.groupAggregate i owner inGroup _) => [⟨i, owner, inGroup⟩]
  | _ => []

theorem GroupColumns.candidates_eq (e : Expr) :
    candidates e = ((Part.expr e).gather requests fun _ => true).foldl addCandidate [] := rfl

theorem GroupColumns.requests_of_groupless {p : Part} (h : p.Groupless) : requests p = [] := by
  cases p with
  | expr e => cases e <;> first | rfl | exact h.elim
  | _ => rfl

structure GroupReport where
  keys : Select Expr
  columns : List (ColumnDecl Expr)
  projector : Expr
  rel : Alias

namespace GroupReport

variable (r : GroupReport)

def outer : Select Expr := .plain r.rel r.columns (some (.select r.keys)) none

def tree : Expr := .projection ⟨r.outer, r.projector, none⟩

def attached : List (Candidate × ColumnDecl Expr) := placements r.keys.columns (candidates r.tree)

def added : List (ColumnDecl Expr) := r.attached.map (·.2)

def placed : List (Nat × Column) := places r.keys.rel r.attached

def settled : GroupReport where
  keys := { r.keys with columns := r.keys.columns ++ r.added }
  columns := r.columns.map (ColumnDecl.reread r.placed)
  projector := r.projector
  rel := r.rel

structure Sound : Prop where
  source : ∀ p ∈ (Part.select r.keys).parts,
    p.Every fun q => q.Groupless ∧ ∀ s, q = .select s → s.rel ≠ r.keys.rel
  asked : ∀ d ∈ r.columns, (∃ c, d.expr = .column c) ∨ ∃ i a fallback,
    d.expr = .groupAggregate i r.keys.rel a fallback ∧ (Part.expr a).Every Part.Groupless
      ∧ (Part.select fallback).Every Part.Groupless
  numbered : ∀ d ∈ r.columns, ∀ d' ∈ r.columns, ∀ {i a a' fallback fallback'},
    d.expr = .groupAggregate i r.keys.rel a fallback →
    d'.expr = .groupAggregate i r.keys.rel a' fallback' → a = a'
  rest : (Part.expr r.projector).Every Part.Groupless

namespace Sound

variable {r} (sound : r.Sound)
include sound

/-- Only the columns ask for aggregates. -/
theorem of_mem_candidates : ∀ c ∈ candidates r.tree, c.owner = r.keys.rel
    ∧ ∃ d ∈ r.columns, ∃ fallback, d.expr = .groupAggregate c.correlation r.keys.rel c.aggregate fallback := by
  let D : Candidate → Prop := fun c => c.owner = r.keys.rel
    ∧ ∃ d ∈ r.columns, ∃ fallback, d.expr = .groupAggregate c.correlation r.keys.rel c.aggregate fallback
  have silent : ∀ {p : Part}, p.Every Part.Groupless → p.Every fun q => ∀ c ∈ requests q, D c := fun groupless =>
    groupless.mono fun q hq c hc => by simp [requests_of_groupless hq] at hc
  have source : (Part.select r.keys).Every fun q => ∀ c ∈ requests q, D c :=
    .node (by simp [requests]) fun p hp => silent ((sound.source p hp).mono fun _ hq => hq.1)
  have asks : ∀ d ∈ r.columns, (Part.expr d.expr).Every fun q => ∀ c ∈ requests q, D c := by
    intro d hd
    rcases sound.asked d hd with ⟨c, eq⟩ | ⟨i, a, fallback, eq, aggregate, subquery⟩
    · rw [eq]
      exact Part.every_column (by simp [requests])
    · rw [eq]
      refine .node ?_ fun q hq => ?_
      · intro c hc
        obtain rfl := List.mem_singleton.mp hc
        exact ⟨rfl, d, hd, fallback, eq⟩
      · simp only [Part.parts, List.mem_cons, List.not_mem_nil, or_false] at hq
        rcases hq with rfl | rfl
        · exact silent aggregate
        · exact silent subquery
  have all : (Part.expr r.tree).Every fun q => ∀ c ∈ requests q, D c := by
    refine .node (by simp [requests, tree]) fun q hq => ?_
    obtain rfl := List.mem_singleton.mp hq
    refine .node (by simp [requests]) fun q hq => ?_
    simp only [Part.parts, List.mem_cons, List.not_mem_nil, or_false] at hq
    rcases hq with rfl | rfl
    · exact Part.every_over (by simp [requests]) (by simp [requests]) source asks
    · exact silent sound.rest
  intro c hc
  rw [candidates_eq] at hc
  exact all.of_mem_gather c (by simpa using foldl_addCandidate_subset _ _ hc)

section Asked

variable {d : ColumnDecl Expr} (hd : d ∈ r.columns) {i : Nat} {a : Expr} {fallback : Select Expr}
  (asks : d.expr = .groupAggregate i r.keys.rel a fallback)
include hd asks

/-- Whatever is asked for is a candidate. -/
theorem mem_candidates : ⟨i, r.keys.rel, a⟩ ∈ candidates r.tree := by
  have select : Part.expr d.expr ∈ (Part.select r.outer).parts := by
    simp only [Part.parts, Select.exprs, outer, Select.plain, List.map_append, List.mem_append, List.mem_map]
    exact .inr ⟨_, ⟨d, hd, rfl⟩, rfl⟩
  have gathered : (⟨i, r.keys.rel, a⟩ : Candidate) ∈ (Part.expr r.tree).gather requests fun _ => true := by
    refine Part.mem_gather.mpr (.inr ⟨_, List.mem_singleton_self _, Part.mem_gather.mpr
      (.inr ⟨_, Projection.select_mem, Part.mem_gather.mpr (.inr ⟨_, select, Part.mem_gather.mpr (.inl ?_)⟩)⟩)⟩)
    simp [asks, requests]
  obtain ⟨c, hc, same⟩ := exists_candidate [] _ _ (List.mem_append_right _ gathered)
  obtain ⟨owner, d', hd', _, asks'⟩ := sound.of_mem_candidates c hc
  have aggregate := sound.numbered d' hd' d hd (same ▸ asks') asks
  obtain ⟨i', owner', a'⟩ := c
  simp only at same owner aggregate
  rw [same, owner, aggregate] at hc
  exact hc

/-- The aggregates are read from columns that compute them. -/
theorem exists_added : ∃ d' ∈ r.added, d'.expr = a
    ∧ r.placed.lookup i = some ⟨r.keys.rel, d'.name, d'.type⟩ := by
  obtain ⟨c, d', hd', same, lookup⟩ := lookup_places r.keys.rel r.keys.columns (sound.mem_candidates hd asks)
  obtain ⟨-, d'', hd'', _, asks'⟩ := sound.of_mem_candidates c (of_mem_placements hd')
  refine ⟨d', List.mem_map.mpr ⟨_, hd', rfl⟩, ?_, lookup⟩
  rw [expr_of_mem_placements hd']
  exact sound.numbered d'' hd'' d hd (same ▸ asks') asks

end Asked

theorem asked_of_added {d : ColumnDecl Expr} (hd : d ∈ r.added) :
    ∃ d' ∈ r.columns, ∃ i fallback, d'.expr = .groupAggregate i r.keys.rel d.expr fallback := by
  obtain ⟨⟨c, d⟩, mem, rfl⟩ := List.mem_map.mp hd
  obtain ⟨-, d', hd', fallback, asks⟩ := sound.of_mem_candidates c (of_mem_placements mem)
  exact ⟨d', hd', c.correlation, fallback, by rw [asks, expr_of_mem_placements mem]⟩

/-- What the columns ask for is computed. -/
theorem readable : ∀ d ∈ r.columns, d.expr.Readable r.placed := by
  intro d hd
  rcases sound.asked d hd with ⟨c, eq⟩ | ⟨i, a, fallback, eq, -⟩
  · rw [eq]
    exact .column c
  · obtain ⟨_, -, -, lookup⟩ := sound.exists_added hd eq
    rw [eq]
    exact .aggregate lookup

theorem settled_column {d : ColumnDecl Expr} (hd : d ∈ r.settled.columns) : ∃ c, d.expr = .column c := by
  obtain ⟨d', hd', rfl⟩ := List.mem_map.mp hd
  exact (sound.readable d' hd').exists_column

/-- The select that groups computes the aggregates. -/
theorem keys_run : r.keys.groupColumns.run ⟨candidates r.tree, []⟩ = (r.settled.keys, ⟨[], r.placed⟩) := by
  let Y := Yields.ofState State
  let start : State := ⟨candidates r.tree, []⟩
  have owners : ∀ c ∈ start.waiting, c.owner = r.keys.rel := fun c hc => (sound.of_mem_candidates c hc).1
  have quiet : ∀ p ∈ (Part.select r.keys).parts, p.Every (Inert start) := fun p hp =>
    (sound.source p hp).mono fun q hq => ⟨hq.1, fun s eq c hc => owners c hc ▸ (hq.2 s eq).symm⟩
  have walked := Select.traverse_gives Y r.keys fun e he => (walk_inert (quiet _ he)).1 e rfl
  rw [Select.groupColumns]
  exact Y.bind (walked.trans (congrArg (·, start) r.keys.traverse_pure)) (settle_run r.keys owners)

/-- The select that groups computes the aggregates, and the columns of the report read them. -/
theorem withGroupColumns_eq : r.tree.withGroupColumns = r.settled.tree := by
  let Y := Yields.ofState State
  let start : State := ⟨candidates r.tree, []⟩
  have source : Y.gives start (Expr.select r.keys).groupColumns (.select r.settled.keys) ⟨[], r.placed⟩ := by
    rw [Expr.groupColumns.eq_2 _ (by simp)]
    exact Y.bind sound.keys_run (Y.pure _ _)
  have select : Y.gives start r.outer.groupColumns r.settled.outer ⟨[], r.placed⟩ := by
    rw [Select.groupColumns]
    exact Y.bind (Select.plain_gives Y Expr.groupColumns source (Y.pure _ _)
      (Y.mapM_map fun d hd => Y.bind (sound.readable d hd).groupColumns_run (Y.pure _ _)))
      (settle_still _ (by simp))
  have rest : Y.gives ⟨[], r.placed⟩ r.projector.groupColumns r.projector ⟨[], r.placed⟩ :=
    (walk_inert (sound.rest.mono fun q hq => ⟨hq, by simp⟩)).1 _ rfl
  have walked : Y.gives start r.tree.groupColumns r.settled.tree ⟨[], r.placed⟩ := by
    rw [tree, Expr.groupColumns.eq_2 _ (by simp)]
    refine Y.bind (?_ : Y.gives start (Projection.groupColumns _) _ _) (Y.pure _ _)
    rw [Projection.groupColumns]
    exact Y.bind select (Y.bind rest (Y.pure _ _))
  exact congrArg Prod.fst walked

end Sound

end GroupReport

end ObjectQuery
