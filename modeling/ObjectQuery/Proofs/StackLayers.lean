import ObjectQuery.Proofs.Naming
import ObjectQuery.Proofs.StackSimulation
import ObjectQuery.Proofs.StackWalk

/-!
Layers that are collapsed. A layer over one that only forwards columns and constants can take over
the clauses of that one, where the rows stay the same: the filters are joined, and of the two
orderings, of the two skips and of the two takes at most one is there.
-/

namespace ObjectQuery

open Eval

namespace Layer

def forwarded (b : Layer) (c : Column) : Expr :=
  if b.rel = c.rel then
    match b.columns.reverse.find? (·.name == c.name) with
    | some d => d.expr
    | none => .column c
  else .column c

def Forwards (b : Layer) : Prop :=
  ∀ d ∈ b.columns, (∃ c, d.expr = .column c) ∨ ∃ v, d.expr = .const v

def mergedWith (l b : Layer) : Layer where
  rel := l.rel
  columns := (l.mapExprs (Expr.replace b.forwarded)).columns
  filter := Expr.conjoin? (b.filter.toList ++ (l.filter.map (Expr.replace b.forwarded)).toList)
  orderBy := if l.orderBy.isEmpty then b.orderBy
    else (l.mapExprs (Expr.replace b.forwarded)).orderBy
  skip := l.skip.or b.skip
  take := l.take.or b.take

structure Mergeable (l b : Layer) : Prop where
  forwards : b.Forwards
  orders : l.orderBy = [] ∨ b.orderBy = []
  paged : b.isPaged → l.filter = none ∧ l.orderBy = []
  take : b.take.isSome → l.isPaged = false
  skip : b.skip.isSome → l.skip = none

end Layer

namespace Stack

variable {tables : Tables} {M : Meaning tables} {t : Table} {offered : List String}
  {base : List Row} {l b : Layer} {s rest : Stack}

theorem forwarded_eq (nodup : b.names.Nodup) {d : ColumnDecl Expr} (hd : d ∈ b.columns)
    {c : Column} (rel : c.rel = b.rel) (name : c.name = d.name) : b.forwarded c = d.expr := by
  have found : b.columns.reverse.find? (·.name == c.name) = some d := by
    rw [name]
    exact ColumnDecl.find?_name (by rw [List.map_reverse]; exact (List.reverse_perm _).nodup_iff.mpr nodup)
      (List.mem_reverse.mpr hd)
  rw [Layer.forwarded, if_pos rel.symm, found]

theorem plain_forwarded (sound : Sound M.toGrammar t offered (b :: rest)) {c : Column}
    (hc : Sees t offered (b :: rest) c) :
    Plain M.members (Sees t offered rest) (b.forwarded c) := by
  obtain ⟨d, hd, hn⟩ := List.mem_map.mp hc.2
  rw [forwarded_eq sound.2.1.nodup hd hc.1 hn.symm]
  exact sound.2.1.column hd

theorem constants_forwarded (sound : Sound M.toGrammar t offered (b :: rest)) {c : Column}
    (hc : Sees t offered (b :: rest) c) {v : Value} (hv : b.forwarded c = .const v) :
    M.constants := by
  obtain ⟨d, hd, hn⟩ := List.mem_map.mp hc.2
  rw [forwarded_eq sound.2.1.nodup hd hc.1 hn.symm] at hv
  exact sound.2.1.constants d hd v hv

/-- What a forwarding layer offers can be read from below it. -/
theorem carries_forwarded (sound : Sound M.toGrammar t offered (b :: rest)) (forwards : b.Forwards) :
    Carries M t offered (b :: rest) rest (Sees t offered (b :: rest)) b.forwarded := by
  rintro row full c ⟨rel, name⟩
  obtain ⟨d, hd, hn⟩ := List.mem_map.mp name
  refine ⟨_, Feed.column_bind rel (hn ▸ get?_trace sound.2.1.nodup hd row), ?_⟩
  rw [forwarded_eq sound.2.1.nodup hd rel hn.symm]
  have plain := sound.2.1.column hd
  rcases forwards d hd with ⟨c', h⟩ | ⟨v, h⟩
  · rw [h] at plain ⊢
    cases plain with
    | column hc' =>
      obtain ⟨v, hv⟩ := column_view sound.2.2 full hc'
      exact .inl ⟨c', rfl, by rw [M.value_column hv, hv]⟩
  · rw [h] at plain ⊢
    cases plain with
    | const hv => exact .inr ⟨sound.2.1.constants d hd v h, by rw [M.value_const hv]⟩

section Merging

variable (sound : Sound M.toGrammar t offered (l :: b :: rest)) (m : l.Mergeable b)
include sound m

theorem passes_mergedWith {row : Row} (full : Full offered row) :
    passes M t (l.mergedWith b) rest row = (passes M t b rest row && passes M t l (b :: rest) row) := by
  have carried : ∀ e ∈ l.filter, M.value (e.replace b.forwarded) (view M t rest row)
      = M.value e (view M t (b :: rest) row) := fun e he =>
    (carries_forwarded sound.2.2 m.forwards).value full (sound.2.1.filter he)
  simp only [passes, Layer.mergedWith]
  cases hb : b.filter with
  | none =>
    cases hl : l.filter with
    | none => rfl
    | some e => simp [Expr.conjoin?, carried e hl]
  | some e =>
    cases hl : l.filter with
    | none => simp [Expr.conjoin?]
    | some e' => simp [Expr.conjoin?, M.isTrue_both, carried e' hl]

theorem keys_mergedWith_ordered (h : l.orderBy ≠ []) :
    List.Forall₂ (fun k k' => k.1 = k'.1 ∧ ∀ row, Full offered row → k.2 row = k'.2 row)
      (keys M t (l.mergedWith b) rest) (keys M t l (b :: rest)) := by
  refine (carries_forwarded sound.2.2 m.forwards).keys (fun o ho => sound.2.1.order ho) ?_
  simp [Layer.mergedWith, h, Layer.mapExprs]

end Merging

theorem keys_mergedWith_unordered (h : l.orderBy = []) :
    keys M t (l.mergedWith b) rest = keys M t b rest := by
  simp [keys, Layer.mergedWith, h]

theorem keys_of_unordered (h : l.orderBy = []) : keys M t l s = [] := by
  simp [keys, h]

/-- The pages of two layers, one of which pages to what the other leaves. -/
theorem page_mergedWith {α : Type} (m : l.Mergeable b) (items : List α) :
    (l.mergedWith b).page items = l.page (b.page items) := by
  have take := m.take
  have skip := m.skip
  simp only [Layer.page, Layer.mergedWith, Layer.isPaged] at take skip ⊢
  cases hbt : b.take with
  | some n =>
    simp only [hbt, Option.isSome_some, forall_const, Bool.or_eq_false_iff,
      Option.isSome_eq_false_iff, Option.isNone_iff_eq_none] at take
    simp [take.1, take.2]
  | none =>
    cases hbs : b.skip with
    | some n =>
      simp only [hbs, Option.isSome_some, forall_const] at skip
      simp [skip]
    | none => simp

theorem picked_mergedWith (full : ∀ row ∈ base, Full offered row)
    (sound : Sound M.toGrammar t offered (l :: b :: rest)) (m : l.Mergeable b) :
    picked M t base (l.mergedWith b :: rest) = picked M t base (l :: b :: rest) := by
  have inBase : ∀ row ∈ picked M t base rest, Full offered row := fun row h =>
    full row (mem_of_mem_picked h)
  have kept : (picked M t base rest).filter (passes M t (l.mergedWith b) rest)
      = ((picked M t base rest).filter (passes M t b rest)).filter (passes M t l (b :: rest)) := by
    rw [List.filter_filter]
    refine List.filter_congr fun row hrow => ?_
    rw [passes_mergedWith sound m (inBase row hrow), Bool.and_comm]
  simp only [picked]
  rw [page_mergedWith m, kept]
  by_cases hl : l.orderBy = []
  · rw [keys_mergedWith_unordered hl, keys_of_unordered hl, sortWith_nil]
    cases hb : b.isPaged with
    | false => rw [page_of_unpaged hb, page_of_unpaged hb, sortWith_filter]
    | true =>
      have all : ∀ row, passes M t l (b :: rest) row = true := by simp [passes, (m.paged hb).1]
      rw [List.filter_eq_self.mpr fun row _ => all row, List.filter_eq_self.mpr fun row _ => all row]
  · have hb : b.isPaged = false := Bool.eq_false_iff.mpr fun h => hl (m.paged h).2
    rw [page_of_unpaged hb, page_of_unpaged hb, keys_of_unordered (m.orders.resolve_left hl),
      sortWith_nil]
    congr 1
    refine sortWith_congr fun row hr row' hr' => ?_
    exact byKeys_of_same (keys_mergedWith_ordered sound m hl)
      (inBase row (List.mem_of_mem_filter (List.mem_of_mem_filter hr)))
      (inBase row' (List.mem_of_mem_filter (List.mem_of_mem_filter hr')))

theorem order_mergedWith (sound : Sound M.toGrammar t offered (l :: b :: rest)) (m : l.Mergeable b)
    {row row' : Row} (hr : Full offered row) (hr' : Full offered row') :
    order M t (l.mergedWith b :: rest) row row' = order M t (l :: b :: rest) row row' := by
  by_cases hl : l.orderBy = []
  · simp only [order, keys_mergedWith_unordered hl, keys_of_unordered hl, byKeys]
    rfl
  · simp only [order, compareLex, byKeys_of_same (keys_mergedWith_ordered sound m hl) hr hr',
      keys_of_unordered (m.orders.resolve_left hl), byKeys]
    rfl

theorem uniform_mergedWith (full : ∀ row ∈ base, Full offered row)
    (sound : Sound M.toGrammar t offered (l :: b :: rest)) (m : l.Mergeable b)
    (u : Uniform M t base (l :: b :: rest)) : Uniform M t base (l.mergedWith b :: rest) := by
  refine ⟨fun k hk => ?_, u.2.2⟩
  have inBase : ∀ row ∈ picked M t base rest, Full offered row := fun row h =>
    full row (mem_of_mem_picked h)
  have kept : ∀ row ∈ (picked M t base rest).filter (passes M t (l.mergedWith b) rest),
      row ∈ (picked M t base rest).filter (passes M t b rest) ∧ passes M t l (b :: rest) row := by
    intro row hrow
    obtain ⟨hrow, hpass⟩ := List.mem_filter.mp hrow
    rw [passes_mergedWith sound m (inBase row hrow), Bool.and_eq_true] at hpass
    exact ⟨List.mem_filter.mpr ⟨hrow, hpass.1⟩, hpass.2⟩
  by_cases hl : l.orderBy = []
  · rw [keys_mergedWith_unordered hl] at hk
    obtain ⟨type, admits⟩ := u.2.1 k hk
    exact ⟨type, fun row hrow => admits row (kept row hrow).1⟩
  · obtain ⟨k', hk', -, values⟩ := exists_of_forall₂ (keys_mergedWith_ordered sound m hl) k hk
    obtain ⟨type, admits⟩ := u.1 k' hk'
    have hb : b.isPaged = false := Bool.eq_false_iff.mpr fun h => hl (m.paged h).2
    refine ⟨type, fun row hrow => ?_⟩
    rw [values row (inBase row (List.mem_of_mem_filter hrow))]
    refine admits row (List.mem_filter.mpr ⟨?_, (kept row hrow).2⟩)
    rw [picked, page_of_unpaged hb]
    exact mem_sortWith.mpr (kept row hrow).1

theorem refined_mergedWith (sound : Sound M.toGrammar t offered (l :: b :: rest)) (m : l.Mergeable b)
    (r : Refined M t offered (l :: b :: rest)) : Refined M t offered (l.mergedWith b :: rest) := by
  refine ⟨fun paged row row' hr hr' tie => ?_, r.2.2⟩
  have pages : l.isPaged ∨ b.isPaged := by
    simp only [Layer.isPaged, Layer.mergedWith, Option.isSome_or] at paged ⊢
    grind
  rcases pages with hl | hb
  · refine (order_eq_iff.mp (r.1 hl row row' hr hr' ?_)).2
    by_cases ho : l.orderBy = []
    · rw [keys_of_unordered ho]
      rfl
    · rwa [← byKeys_of_same (keys_mergedWith_ordered sound m ho) hr hr']
  · rw [keys_mergedWith_unordered (m.paged hb).2] at tie
    exact r.2.1 hb row row' hr hr' tie

theorem fits_mergedWith (sound : Sound M.toGrammar t offered (l :: b :: rest)) :
    (l.mergedWith b).Fits M.toGrammar (Sees t offered rest) := by
  have plain : ∀ {e : Expr}, Plain M.members (Sees t offered (b :: rest)) e →
      Plain M.members (Sees t offered rest) (e.replace b.forwarded) := fun h =>
    h.replace fun c hc => plain_forwarded sound.2.2 hc
  refine ⟨fun e he => ?_, ?_, fun d' hd' v hv => ?_⟩
  · simp only [Layer.exprs, List.mem_append, List.mem_map, Option.mem_toList] at he
    rcases he with (⟨d', hd', rfl⟩ | he) | ⟨o', ho', rfl⟩
    · obtain ⟨d, hd, rfl⟩ := List.mem_map.mp hd'
      exact plain (sound.2.1.column hd)
    · rw [Layer.mergedWith] at he
      cases hb : b.filter with
      | none =>
        cases hl : l.filter with
        | none => simp [Expr.conjoin?, hb, hl] at he
        | some e₁ =>
          obtain rfl : e₁.replace b.forwarded = e := by simpa [Expr.conjoin?, hb, hl] using he
          exact plain (sound.2.1.filter hl)
      | some e₁ =>
        cases hl : l.filter with
        | none =>
          obtain rfl : e₁ = e := by simpa [Expr.conjoin?, hb, hl] using he
          exact sound.2.2.2.1.filter hb
        | some e₂ =>
          obtain rfl : Expr.both e₁ (e₂.replace b.forwarded) = e := by
            simpa [Expr.conjoin?, hb, hl] using he
          exact .binary (sound.2.2.2.1.filter hb) (plain (sound.2.1.filter hl))
    · simp only [Layer.mergedWith] at ho'
      split at ho'
      · exact sound.2.2.2.1.order ho'
      · obtain ⟨o, ho, rfl⟩ := List.mem_map.mp ho'
        exact plain (sound.2.1.order ho)
  · simpa [Layer.mergedWith, Layer.names, Layer.mapExprs, Function.comp_def] using sound.2.1.nodup
  · obtain ⟨d, hd, rfl⟩ := List.mem_map.mp hd'
    rcases (sound.2.1.column hd).of_replace_eq_const hv with h | ⟨c, -, hc, h⟩
    · exact sound.2.1.constants d hd v h
    · exact constants_forwarded sound.2.2 hc h

/-- Two layers may be merged. -/
theorem mergedWith_standsIn (full : ∀ row ∈ base, Full offered row)
    (sound : Sound M.toGrammar t offered (l :: b :: rest)) (m : l.Mergeable b) :
    StandsIn M t offered base (l :: b :: rest) (l.mergedWith b :: rest)
      (Sees t offered (l :: b :: rest)) .column where
  sound := by
    refine ⟨fun h => sound.1 ?_, fits_mergedWith sound, sound.2.2.2.2⟩
    simp only [aliases, List.map_cons, List.mem_cons] at h ⊢
    exact h.imp_right .inr
  aliases := by
    simp only [aliases, List.map_cons]
    exact List.cons_subset_cons _ (List.cons_subset_cons _ (List.subset_cons_self _ _))
  names := by
    rintro k (_ | ⟨_, hk⟩)
    · refine ⟨l, by simp, ?_⟩
      simp [Layer.mergedWith, Layer.names, Layer.mapExprs, Function.comp_def]
    · exact ⟨k, .tail _ (.tail _ hk), List.Subset.refl _⟩
  plain c hc := by
    refine .column ⟨hc.1, ?_⟩
    have := hc.2
    simpa [offers, Layer.mergedWith, Layer.names, Layer.mapExprs, Function.comp_def] using this
  constants := nofun
  carries := by
    refine (carries_forwarded sound.2.2 m.forwards).layer sound.2.1.nodup
      (fits_mergedWith sound).nodup fun c hc => ?_
    obtain ⟨d, hd, hn⟩ := List.mem_map.mp hc.2
    refine ⟨d, hd, _, List.mem_map_of_mem hd, c.type, hc.1, hn.symm, sound.2.1.column hd, rfl, ?_⟩
    rw [show (l.mergedWith b).rel = c.rel from hc.1.symm, show d.name = c.name from hn]
  tracks := ⟨picked_mergedWith full sound m, fun _ _ => order_mergedWith sound m,
    uniform_mergedWith full sound m, refined_mergedWith sound m⟩

/-- A layer without clauses that only forwards columns may be left out. -/
theorem standsIn_below (sound : Sound M.toGrammar t offered (b :: rest)) (forwards : b.Forwards)
    (filter : b.filter = none) (orderBy : b.orderBy = []) (paged : b.isPaged = false) :
    StandsIn M t offered base (b :: rest) rest (Sees t offered (b :: rest)) b.forwarded where
  sound := sound.2.2
  aliases := by
    simp only [aliases, List.map_cons]
    exact List.cons_subset_cons _ (List.subset_cons_self _ _)
  names l hl := ⟨l, List.mem_cons_of_mem _ hl, List.Subset.refl _⟩
  plain _ hc := plain_forwarded sound hc
  constants _ hc _ hv := constants_forwarded sound hc hv
  carries := carries_forwarded sound forwards
  tracks := by
    have all : ∀ row, passes M t b rest row = true := by simp [passes, filter]
    refine ⟨?_, fun row row' _ _ => ?_, fun u => u.2, fun r => r.2⟩
    · rw [picked, page_of_unpaged paged, keys_of_unordered orderBy, sortWith_nil,
        List.filter_eq_self.mpr fun row _ => all row]
    · rw [order, keys_of_unordered orderBy]
      rfl

end Stack

open Layers

theorem Layer.removedColumn?_eq (b : Layer) (source : Expr) (c : Column) :
    removedColumn? [b.above source] c
      = if b.rel = c.rel then (b.columns.reverse.find? (·.name == c.name)).map (·.expr) else none := by
  by_cases h : b.rel = c.rel
  · simp only [removedColumn?, above, h, List.reverse_singleton, List.find?_cons, beq_self_eq_true,
      if_true, Option.bind_eq_bind, Option.bind_some]
    cases b.columns.reverse.find? (·.name == c.name) <;> rfl
  · simp [removedColumn?, Layer.above, h]

/-- A column of a removed layer leads out of it at once. -/
theorem Layer.resolve_eq {b : Layer} {source : Expr}
    (out : ∀ d ∈ b.columns, ∀ c, d.expr = .column c → c.rel ≠ b.rel) (steps : Nat) (c : Column) :
    resolve [b.above source] (steps + 1) c = b.forwarded c := by
  have stays : ∀ {c : Column} (n : Nat), c.rel ≠ b.rel →
      resolve [b.above source] n c = .column c := by
    intro c n hc
    cases n with
    | zero => rfl
    | succ n => rw [resolve, b.removedColumn?_eq, if_neg (Ne.symm hc)]
  rw [resolve, b.removedColumn?_eq, Layer.forwarded]
  by_cases rel : b.rel = c.rel
  · rw [if_pos rel, if_pos rel]
    cases found : b.columns.reverse.find? (·.name == c.name) with
    | none => rfl
    | some d =>
      have hd := List.mem_reverse.mp (List.mem_of_find?_eq_some found)
      cases he : d.expr with
      | column c' => simpa [he] using stays steps (out d hd c' he)
      | _ => simp [he]
  · rw [if_neg rel, if_neg rel]

namespace Plain

variable {members : Prop} {P : Column → Prop} {e : Expr} {b : Layer} {source : Expr}

theorem splice_eq (h : Plain members P e)
    (out : ∀ d ∈ b.columns, ∀ c, d.expr = .column c → c.rel ≠ b.rel) :
    e.splice [b.above source] = e.replace b.forwarded :=
  h.walk Yields.ofId (s := ()) (fun e => pure (e.splice [b.above source]))
    (fun q => pure (q.splice [b.above source])) (fun p => pure (p.splice [b.above source]))
    (fun c _ => by
      simp only [Expr.splice]
      exact b.resolve_eq out _ c)
    fun e he inner h => by
      cases he with
      | column _ => exact absurd rfl (inner _)
      | _ => rw [Expr.splice] <;> first | exact h | simp

theorem removeLayers_eq (h : Plain members P e) : e.removeLayers = e :=
  h.walk_self Yields.ofId (s := ()) (fun e => pure e.removeLayers)
    (fun q => pure q.removeLayers) (fun p => pure p.removeLayers) fun e he h => by
      cases he <;> rw [Expr.removeLayers] <;> first | exact h | simp

theorem mergeLayers_run (h : Plain members P e) (outermost : Bool) :
    e.mergeLayers.run outermost = (e, outermost) :=
  h.walk_self (Yields.ofState _) _ Select.mergeLayers Projection.mergeLayers fun e he h => by
    rw [Expr.mergeLayers]
    exact h

end Plain

namespace Stack

variable {tables : Tables} {M : Meaning tables} {t : Table} {offered : List String}
  {base : List Row} {l b : Layer} {s rest : Stack}

theorem top_mem (s : Stack) : top t s ∈ aliases t s := by
  cases s <;> simp [top, aliases]

theorem columns_lead_out (sound : Sound M.toGrammar t offered (b :: rest)) :
    ∀ d ∈ b.columns, ∀ c, d.expr = .column c → c.rel ≠ b.rel := by
  intro d hd c hc same
  have plain := sound.2.1.column hd
  rw [hc] at plain
  cases plain with
  | column h =>
    exact sound.1 (same ▸ h.1 ▸ top_mem rest)

theorem splice_over {P : Column → Prop} {source src src' : Expr} (fits : l.Fits M.toGrammar P)
    (out : ∀ d ∈ b.columns, ∀ c, d.expr = .column c → c.rel ≠ b.rel)
    (below : src.splice [b.above source] = src') :
    (l.above src).splice [b.above source] = (l.mapExprs (Expr.replace b.forwarded)).above src' := by
  rw [Select.splice]
  refine Layer.traverse_gives Yields.ofId (s := ()) (r := ())
    (fun e => pure (e.splice [b.above source])) below
    (fun e he => (fits.plain e he).splice_eq out) fun n => ?_
  have count : Plain False (fun _ => False) (Layer.count n) := .const (.int n)
  refine (count.splice_eq out).trans ?_
  rw [Layer.count, Expr.int, Expr.replace_const]

theorem forwarded_of_ne {c : Column} (h : b.rel ≠ c.rel) : b.forwarded c = .column c := by
  rw [Layer.forwarded, if_neg h]

theorem splice_over_self {src source : Expr} (fits : l.Fits M.toGrammar (Sees t offered s))
    (out : ∀ d ∈ b.columns, ∀ c, d.expr = .column c → c.rel ≠ b.rel) (fresh : b.rel ∉ aliases t s)
    (below : src.splice [b.above source] = src) : (l.above src).splice [b.above source] = l.above src := by
  have self : l.mapExprs (Expr.replace b.forwarded) = l := by
    refine Layer.mapExprs_self fun e he => ?_
    have plain := fits.plain e he
    rw [plain.replace_congr (τ := .column) fun c hc => forwarded_of_ne ?_, plain.replace_self]
    exact fun h => fresh (h ▸ hc.1 ▸ top_mem s)
  rw [splice_over fits out below, self]

/-- A stack that does not read a layer stays as it is when the layer is spliced out. -/
theorem splice_tree {source : Expr} (sound : Sound M.toGrammar t offered s)
    (out : ∀ d ∈ b.columns, ∀ c, d.expr = .column c → c.rel ≠ b.rel) (fresh : b.rel ∉ aliases t s) :
    (tree t s).splice [b.above source] = tree t s := by
  induction s with
  | nil =>
    rw [tree, Expr.splice] <;> first | rfl | simp
  | cons l below ih =>
    simp only [aliases, List.map_cons, List.mem_cons, not_or] at fresh
    have older : b.rel ∉ aliases t below := by
      rw [aliases, List.mem_cons, not_or]
      exact ⟨fresh.1, fresh.2.2⟩
    rw [tree, Expr.splice, splice_over_self sound.2.1 out older (ih sound.2.2 older)]
    simp [Layer.above, fresh.2.1]

def remove (t : Table) : Stack → Stack
  | [] => []
  | l :: below =>
    match remove t below with
    | [] => [l]
    | b :: rest => if isRedundant (b.above (tree t rest)) then l.mergedWith b :: rest else l :: b :: rest

theorem column_of_forwards {name : String} {e : Expr} (h : forwards name e = true) :
    ∃ c, e = .column c := by
  cases e <;> simp [forwards] at h ⊢

theorem of_isRedundant {source : Expr} (h : isRedundant (b.above source) = true) :
    b.Forwards ∧ b.filter = none ∧ b.orderBy = [] ∧ b.isPaged = false := by
  simp only [isRedundant, Bool.and_eq_true, Bool.or_eq_true] at h
  obtain ⟨⟨-, columns⟩, clauses⟩ := h
  refine ⟨fun d hd => .inl ?_, ?_⟩
  · rcases columns with simple | names
    · exact column_of_forwards (List.all_eq_true.mp simple d hd)
    · simp only [isNameMap, Layer.above] at names
      split at names
      · rename_i below _
        simp only [Bool.and_eq_true, beq_iff_eq] at names
        have mem : d ∈ (b.columns.zip below.columns).map Prod.fst := by
          rwa [List.map_fst_zip (Nat.le_of_eq names.1)]
        obtain ⟨p, hp, rfl⟩ := List.mem_map.mp mem
        exact column_of_forwards (List.all_eq_true.mp names.2 p hp)
      · cases names
  · simpa [Select.hasNoClauses, Layer.above, Layer.isPaged, and_assoc] using clauses

theorem mergeable_of_clauseless (forwards : b.Forwards) (filter : b.filter = none)
    (orderBy : b.orderBy = []) (paged : b.isPaged = false) :
    l.Mergeable b ∧ l.mergedWith b = l.mapExprs (Expr.replace b.forwarded) := by
  have unpaged := paged
  simp only [Layer.isPaged, Bool.or_eq_false_iff, Option.isSome_eq_false_iff,
    Option.isNone_iff_eq_none] at unpaged
  refine ⟨⟨forwards, .inr orderBy, by simp [paged], by simp [unpaged.2], by simp [unpaged.1]⟩, ?_⟩
  simp only [Layer.mergedWith, Layer.mapExprs, filter, orderBy, unpaged, Option.or_none]
  congr 1
  · cases l.filter <;> rfl
  · cases l.orderBy <;> rfl

theorem splice_top (sound : Sound M.toGrammar t offered (b :: rest)) :
    (tree t (b :: rest)).splice [b.above (tree t rest)] = tree t rest := by
  rw [tree, Expr.splice]
  simp only [List.any_cons, beq_self_eq_true, List.any_nil, Bool.or_false, if_true, Layer.above]
  exact splice_tree sound.2.2 (columns_lead_out sound) sound.1

theorem removeBelow_over : removeBelow (l.above (tree t (b :: rest)))
    = if isRedundant (b.above (tree t rest)) then (l.above (tree t (b :: rest))).splice [b.above (tree t rest)]
      else l.above (tree t (b :: rest)) := by
  have below : ((l.above (tree t (b :: rest))).source.map redundant).getD []
      = if isRedundant (b.above (tree t rest)) then [b.above (tree t rest)] else [] := by
    rw [show (l.above (tree t (b :: rest))).source = some (tree t (b :: rest)) from rfl]
    rw [Option.map_some, Option.getD_some, tree, redundant]
  rw [removeBelow, below]
  cases isRedundant (b.above (tree t rest)) <;> rfl

theorem removeLayers_over {P : Column → Prop} {src src' : Expr} (fits : l.Fits M.toGrammar P)
    (below : src.removeLayers = src') : (l.above src).removeLayers = removeBelow (l.above src') := by
  have walk := Layer.traverse_gives Yields.ofId (s := ()) (r := ())
    (fun e => pure e.removeLayers) (f := fun e => e) below (fun e he => (fits.plain e he).removeLayers_eq)
    fun n => (show Plain False (fun _ => False) (Layer.count n) from .const (.int n)).removeLayers_eq
  rw [Layer.mapExprs_self fun _ _ => rfl] at walk
  rw [Select.removeLayers]
  exact congrArg removeBelow walk

theorem removeLayers_tree (full : ∀ row ∈ base, Full offered row) (sound : Sound M.toGrammar t offered s) :
    (tree t s).removeLayers = tree t (remove t s)
      ∧ StandsIn M t offered base s (remove t s) (Sees t offered s) .column := by
  induction s with
  | nil =>
    refine ⟨?_, StandsIn.refl base sound⟩
    rw [tree, Expr.removeLayers] <;> first | rfl | simp
  | cons l below ih =>
    obtain ⟨walked, stands⟩ := ih sound.2.2
    have onTop := stands.cons_column full sound
    have whole : (tree t (l :: below)).removeLayers
        = .select (removeBelow (l.above (tree t (remove t below)))) := by
      rw [← removeLayers_over sound.2.1 walked, tree, Expr.removeLayers] <;> first | rfl | simp
    rw [whole, remove]
    cases hr : remove t below with
    | nil =>
      rw [hr] at onTop
      exact ⟨rfl, onTop⟩
    | cons b rest =>
      rw [hr] at onTop
      simp only
      split
      · rename_i redundant
        obtain ⟨forwards, filter, orderBy, paged⟩ := of_isRedundant redundant
        obtain ⟨m, merged⟩ := mergeable_of_clauseless (l := l) forwards filter orderBy paged
        refine ⟨?_, onTop.trans_column (mergedWith_standsIn full onTop.sound m)⟩
        rw [removeBelow_over, if_pos redundant, merged, splice_over onTop.sound.2.1
          (columns_lead_out onTop.sound.2.2) (splice_top onTop.sound.2.2)]
        rfl
      · rename_i redundant
        refine ⟨?_, onTop⟩
        rw [removeBelow_over, if_neg redundant]
        rfl

def mergeDown (t : Table) : Layer → Stack → Stack
  | l, [] => [l]
  | l, b :: rest =>
    if canMerge (l.above (tree t (b :: rest))) (b.above (tree t rest)) true then
      mergeDown t (l.mergedWith b) rest
    else l :: b :: rest

def merge (t : Table) : Stack → Stack
  | [] => []
  | l :: below => mergeDown t l (merge t below)

theorem forwards_of_hasPlainColumns {source : Expr} (h : hasPlainColumns (b.above source) = true) :
    b.Forwards := fun d hd => by
  have := List.all_eq_true.mp h d hd
  cases he : d.expr <;> simp_all

theorem canMerge_outermost {src src' : Expr} (outermost : Bool) :
    canMerge (l.above src) (b.above src') outermost = canMerge (l.above src) (b.above src') true := by
  simp [canMerge, Layer.above]

theorem mergeable_of_canMerge {src src' : Expr}
    (h : canMerge (l.above src) (b.above src') true = true) : l.Mergeable b := by
  simp only [canMerge, Bool.and_eq_true] at h
  obtain ⟨⟨⟨⟨⟨⟨⟨⟨⟨⟨-, plain⟩, orders⟩, -⟩, -⟩, -⟩, paged⟩, take⟩, skip⟩, -⟩, -⟩ := h
  refine ⟨forwards_of_hasPlainColumns plain, ?_, fun h => ?_, fun h => ?_, fun h => ?_⟩
  · simpa [Layer.above, ← imp_iff_not_or] using orders
  · simp only [Layer.above, Option.isSome_map, Bool.or_comm b.take.isSome,
      show (b.skip.isSome || b.take.isSome) = true from h, Bool.true_and, Bool.not_eq_true',
      Bool.or_eq_false_iff] at paged
    simpa using paged
  · simp only [Layer.above, Option.isSome_map, h, Bool.true_and, Bool.not_eq_true',
      Bool.or_eq_false_iff] at take
    simp [Layer.isPaged, take.1.1.1, take.1.1.2]
  · simp only [Layer.above, Option.isSome_map, h, Bool.true_and, Bool.not_eq_true',
      Bool.or_eq_false_iff] at skip
    simpa using skip.1.1

theorem merge_over (sound : Sound M.toGrammar t offered (l :: b :: rest)) :
    Layers.merge (l.above (tree t (b :: rest))) (b.above (tree t rest))
      = (l.mergedWith b).above (tree t rest) := by
  have orders : (l.mapExprs (Expr.replace b.forwarded)).orderBy.isEmpty = l.orderBy.isEmpty := by
    simp [Layer.mapExprs]
  rw [Layers.merge, splice_over sound.2.1 (columns_lead_out sound.2.2) (splice_top sound.2.2)]
  simp only [Layer.above, Layer.mergedWith, orders]
  simp [Layer.mapExprs, Option.map_or]

/-- A stack differs from what is below its top layer. -/
theorem same_deeper (b : Layer) (s : Stack) : Expr.same (tree t s) (tree t (b :: s)) = false := by
  induction s generalizing b with
  | nil => simp [tree, Expr.same]
  | cons l s ih =>
    have below : sameOption (some (tree t s)) (some (tree t (l :: s))) = false := ih l
    rw [tree, tree, Expr.same, Layer.above, Layer.above, sameSelect, below]
    simp

theorem same_mergedWith (l' : Layer) :
    (Expr.select (l'.above (tree t rest)) == .select (l.above (tree t (b :: rest)))) = false := by
  have below : sameOption (some (tree t rest)) (some (tree t (b :: rest))) = false :=
    same_deeper b rest
  change Expr.same _ _ = false
  rw [Expr.same, Layer.above, Layer.above, sameSelect, below]
  simp

theorem mergeAll_over (full : ∀ row ∈ base, Full offered row) (sound : Sound M.toGrammar t offered (l :: s))
    (outermost : Bool) {n : Nat} (fuel : s.length ≤ n) :
    ∃ l' below', mergeDown t l s = l' :: below'
      ∧ mergeAll outermost n (l.above (tree t s)) = l'.above (tree t below')
      ∧ StandsIn M t offered base (l :: s) (l' :: below') (Sees t offered (l :: s)) .column := by
  induction s generalizing l n with
  | nil =>
    refine ⟨l, [], rfl, ?_, StandsIn.refl base sound⟩
    cases n <;> rfl
  | cons b rest ih =>
    obtain ⟨n, rfl⟩ : ∃ m, n = m + 1 := ⟨n - 1, by rw [List.length_cons] at fuel; omega⟩
    rw [mergeDown, mergeAll]
    simp only [show (l.above (tree t (b :: rest))).source.bind leftmost?
      = some (b.above (tree t rest)) from rfl, canMerge_outermost outermost, merge_over sound,
      same_mergedWith, Bool.false_eq_true, if_false]
    split
    · rename_i merges
      have stands := mergedWith_standsIn full sound (mergeable_of_canMerge merges)
      obtain ⟨l', below', down, all, more⟩ := ih stands.sound (Nat.le_of_succ_le_succ fuel)
      exact ⟨l', below', down, all, stands.trans_column more⟩
    · exact ⟨l, b :: rest, rfl, rfl, StandsIn.refl base sound⟩

theorem size_lt {p q : Part} (h : q ∈ p.parts) : q.size < p.size := by
  have whole : p.size = (() :: (p.parts.map fun q => q.gather (fun _ => [()]) fun _ => true).flatten).length := by
    rw [Part.size, Part.gather, if_pos rfl, List.flatMap_subtype (g := fun q => q.gather (fun _ => [()]) fun _ => true)
      fun _ _ => rfl, List.unattach_attach, List.flatMap_def]
    rfl
  have sub := List.sublist_flatten_of_mem (List.mem_map_of_mem h
    (f := fun q : Part => q.gather (fun _ => [()]) fun _ => true))
  rw [whole, Part.size]
  exact Nat.lt_succ_of_le sub.length_le

/-- There are enough nodes to merge all layers. -/
theorem length_le_size (l : Layer) (s : Stack) : s.length ≤ (Part.select (l.above (tree t s))).size := by
  induction s generalizing l with
  | nil => simp
  | cons b rest ih =>
    have source : (Part.expr (tree t (b :: rest))).size < (Part.select (l.above (tree t (b :: rest)))).size :=
      size_lt (Select.source_mem rfl)
    have select : (Part.select (b.above (tree t rest))).size < (Part.expr (tree t (b :: rest))).size :=
      size_lt (by simp [tree, Part.parts])
    have := ih b
    rw [List.length_cons]
    omega

theorem mergeLayers_over (full : ∀ row ∈ base, Full offered row) (sound : Sound M.toGrammar t offered (l :: s))
    {below : Stack} (stands : StandsIn M t offered base s below (Sees t offered s) .column)
    (walked : (tree t s).mergeLayers.run false = (tree t below, false)) (outermost : Bool) :
    ∃ l' below', mergeDown t l below = l' :: below'
      ∧ (l.above (tree t s)).mergeLayers.run outermost = (l'.above (tree t below'), false)
      ∧ StandsIn M t offered base (l :: s) (l' :: below') (Sees t offered (l :: s)) .column := by
  let Y := Yields.ofState Bool
  have onTop := stands.cons_column full sound
  obtain ⟨l', below', down, all, more⟩ :=
    mergeAll_over full onTop.sound outermost (length_le_size l below)
  refine ⟨l', below', down, ?_, onTop.trans_column more⟩
  have walk := Layer.traverse_gives Y _ (f := fun e => e) (l := l) walked
    (fun e he => (sound.2.1.plain e he).mergeLayers_run false)
    fun n => (show Plain False (fun _ => False) (Layer.count n) from .const (.int n)).mergeLayers_run false
  rw [Layer.mapExprs_self fun _ _ => rfl] at walk
  rw [Select.mergeLayers]
  refine Y.bind (rfl : Y.gives outermost (getModify fun _ => false) outermost false) (Y.bind walk ?_)
  rw [all]
  exact Y.pure _ _

theorem mergeLayers_tree (full : ∀ row ∈ base, Full offered row) (sound : Sound M.toGrammar t offered s) :
    (tree t s).mergeLayers.run false = (tree t (merge t s), false)
      ∧ StandsIn M t offered base s (merge t s) (Sees t offered s) .column := by
  let Y := Yields.ofState Bool
  induction s with
  | nil =>
    refine ⟨?_, StandsIn.refl base sound⟩
    rw [tree, Expr.mergeLayers]
    rfl
  | cons l below ih =>
    obtain ⟨walked, stands⟩ := ih sound.2.2
    obtain ⟨l', below', down, run, onTop⟩ := mergeLayers_over full sound stands walked false
    rw [merge, down]
    refine ⟨?_, onTop⟩
    rw [tree, Expr.mergeLayers]
    exact Y.bind run (Y.pure _ _)

def removeTop (t : Table) : Stack → Expr → Stack × Expr
  | b :: l :: rest, projector =>
    if isRedundant (b.above (tree t (l :: rest))) then (l :: rest, projector.replace b.forwarded)
    else (b :: l :: rest, projector)
  | s, projector => (s, projector)

def collapse (t : Table) (s : Stack) (projector : Expr) : Stack × Expr :=
  let (s, projector) := removeTop t (remove t s) projector
  (merge t s, projector)

section Collapsing

variable {below : Stack} {projector : Expr}

theorem removeTop_over : Layers.removeTop (projected t l (b :: rest) projector)
    = if isRedundant (l.above (tree t (b :: rest))) then
        ⟨(b.above (tree t rest)).splice [l.above (tree t (b :: rest))],
          projector.splice [l.above (tree t (b :: rest))], none⟩
      else projected t l (b :: rest) projector := rfl

theorem removeTop_agrees (full : ∀ row ∈ base, Full offered row)
    (sound : Sound M.toGrammar t offered (l :: below))
    (plain : Plain M.members (Sees t offered (l :: below)) projector) :
    ∃ l' below' projector', removeTop t (l :: below) projector = (l' :: below', projector')
      ∧ Layers.removeTop (projected t l below projector) = projected t l' below' projector'
      ∧ Agrees M t offered base (l :: below) projector (l' :: below') projector' := by
  have same := (StandsIn.refl base sound).agrees full plain
  rw [plain.replace_self] at same
  cases below with
  | nil => exact ⟨l, [], projector, rfl, rfl, same⟩
  | cons b rest =>
    by_cases h : isRedundant (l.above (tree t (b :: rest))) = true
    · obtain ⟨forwards, filter, orderBy, paged⟩ := of_isRedundant h
      have out := columns_lead_out sound
      have older : l.rel ∉ aliases t rest := fun h => sound.1 (by
        simp only [aliases, List.map_cons, List.mem_cons] at h ⊢
        exact h.imp_right .inr)
      refine ⟨b, rest, projector.replace l.forwarded, by rw [removeTop, if_pos h], ?_,
        (standsIn_below sound forwards filter orderBy paged).agrees full plain⟩
      rw [removeTop_over, if_pos h, plain.splice_eq out,
        splice_over_self sound.2.2.2.1 out older (splice_tree sound.2.2.2.2 out older)]
      rfl
    · exact ⟨l, b :: rest, projector, by rw [removeTop, if_neg h],
        by rw [removeTop_over, if_neg h], same⟩

theorem removeLayers_agrees (full : ∀ row ∈ base, Full offered row)
    (sound : Sound M.toGrammar t offered (l :: below))
    (plain : Plain M.members (Sees t offered (l :: below)) projector) :
    ∃ l' below' projector', removeTop t (remove t (l :: below)) projector = (l' :: below', projector')
      ∧ (Expr.projection (projected t l below projector)).removeLayers
        = .projection (projected t l' below' projector')
      ∧ Agrees M t offered base (l :: below) projector (l' :: below') projector' := by
  obtain ⟨walked, stands⟩ := removeLayers_tree full sound
  obtain ⟨l₁, below₁, hr⟩ : ∃ l₁ below₁, remove t (l :: below) = l₁ :: below₁ := by
    rw [remove]
    split
    · exact ⟨_, _, rfl⟩
    · split <;> exact ⟨_, _, rfl⟩
  rw [hr] at walked stands ⊢
  have select : (l.above (tree t below)).removeLayers = l₁.above (tree t below₁) := by
    rw [tree, Expr.removeLayers] at walked
    · exact Expr.select.inj walked
    · simp
  have agrees := stands.agrees full plain
  rw [plain.replace_self] at agrees
  obtain ⟨l', below', projector', top, removed, agrees'⟩ :=
    removeTop_agrees full agrees.sound agrees.plain
  refine ⟨l', below', projector', top, ?_, agrees.trans agrees'⟩
  rw [← removed, Expr.removeLayers]
  · refine congrArg Expr.projection ?_
    change Projection.removeLayers _ = _
    rw [Projection.removeLayers]
    exact congrArg Layers.removeTop (congrArg₂ (Projection.mk · · none) select plain.removeLayers_eq)
  · simp

/-- A projection with its layers collapsed makes the same objects. -/
theorem collapseLayers_agrees (full : ∀ row ∈ base, Full offered row)
    (sound : Sound M.toGrammar t offered (l :: below))
    (plain : Plain M.members (Sees t offered (l :: below)) projector) :
    ∃ l' below' projector', collapse t (l :: below) projector = (l' :: below', projector')
      ∧ (Expr.projection (projected t l below projector)).collapseLayers
        = .projection (projected t l' below' projector')
      ∧ Agrees M t offered base (l :: below) projector (l' :: below') projector' := by
  let Y := Yields.ofState Bool
  obtain ⟨l₁, below₁, projector₁, top, removed, agrees⟩ := removeLayers_agrees full sound plain
  obtain ⟨walked, stands⟩ := mergeLayers_tree full agrees.sound.2.2
  obtain ⟨l', below', down, run, merged⟩ := mergeLayers_over full agrees.sound stands walked true
  have agrees' := merged.agrees full agrees.plain
  rw [agrees.plain.replace_self] at agrees'
  refine ⟨l', below', projector₁, ?_, ?_, agrees.trans agrees'⟩
  · rw [collapse, top]
    simp only [merge, down]
  · have walk : Y.gives true (Expr.projection (projected t l₁ below₁ projector₁)).mergeLayers
        (.projection (projected t l' below' projector₁)) false := by
      rw [Expr.mergeLayers]
      refine Y.bind (?_ : Y.gives _ (Projection.mergeLayers _) _ _) (Y.pure _ _)
      rw [Projection.mergeLayers]
      exact Y.bind run (Y.bind (agrees.plain.mergeLayers_run false) (Y.pure _ _))
    rw [Expr.collapseLayers, removed]
    exact congrArg Prod.fst walk

end Collapsing

end Stack

end ObjectQuery
