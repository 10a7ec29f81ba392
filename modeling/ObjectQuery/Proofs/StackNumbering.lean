import ObjectQuery.Proofs.Ranking
import ObjectQuery.Proofs.StackComparisons

/-!
Paging by row numbers. A layer that skips becomes two: one that numbers its rows, and one around it
that keeps the rows on the page. Once the orderings are moved again, the two together still offer
what the layer offered, because a layer that pages orders by all that the layers below it do.
-/

namespace ObjectQuery

open Eval Orderings RowNumbers

namespace Layer

variable {G : Grammar} {P : Column → Prop} {l : Layer}

def number (l : Layer) : ColumnDecl Expr := ⟨columnName, .rowNumber l.orderBy, .int⟩

def unpaged (l : Layer) (r : Alias) : Layer := { l with rel := r, skip := none, take := none }

def numbering (l : Layer) (r : Alias) : Layer :=
  { l.unpaged r with columns := l.columns ++ [l.number] }

def forwarding (l : Layer) (r : Alias) : Layer where
  rel := l.rel
  columns := l.columns.map fun d => { d with expr := .column ⟨r, d.name, d.type⟩ }
  filter := none
  orderBy := []
  skip := none
  take := none

def widened (l : Layer) (r : Alias) (extra : List (ColumnDecl Expr)) : Layer :=
  { l.unpaged r with columns := l.columns ++ extra, orderBy := [] }

def pageTest (l : Layer) (r : Alias) (skip : Nat) : Expr :=
  inPage (.column ⟨r, columnName, .int⟩) (count skip) (l.take.map count)

def paging (l : Layer) (r : Alias) (skip : Nat) : Layer :=
  { l.forwarding r with filter := some (l.pageTest r skip) }

theorem Fits.mono {Q : Column → Prop} (h : l.Fits G P) (hc : ∀ c, P c → Q c) : l.Fits G Q :=
  ⟨fun e he => (h.plain e he).mono id hc, h.nodup, h.constants⟩

theorem Fits.hasNoAggregates_number (h : l.Fits G P) :
    (Part.expr l.number.expr).aggregates = false := by
  rw [Part.aggregates, Part.gather_eq_nil rfl]
  · rfl
  · intro p hp
    obtain ⟨o, ho, rfl⟩ := List.mem_map.mp hp
    exact (h.order ho).gather_eq_nil fun e he => by cases he <;> rfl

/-- What the clauses of the layer that numbers rows are. -/
theorem mem_exprs_numbering {r : Alias} {e : Expr} (h : e ∈ (l.numbering r).exprs) :
    e ∈ l.exprs ∨ e = l.number.expr := by
  simp only [exprs, numbering, unpaged, List.map_append, List.map_singleton, List.mem_append,
    List.mem_singleton] at h ⊢
  rcases h with ((h | h) | h) | h
  · exact .inl (.inl (.inl h))
  · exact .inr h
  · exact .inl (.inl (.inr h))
  · exact .inl (.inr h)

theorem finish_keep (h : l.skip = none) (source : Expr) (supply : Supply) :
    (finish (l.above source)).run supply = (l.above source, supply) := by
  simp only [finish, above, h]
  rfl

theorem finish_page {skip : Nat} (h : l.skip = some skip) (named : columnName ∉ l.names)
    (source : Expr) (supply : Supply) :
    (finish (l.above source)).run supply
      = ((l.paging ⟨supply.next⟩ skip).above (.select ((l.numbering ⟨supply.next⟩).above source)),
        ⟨supply.next + 1⟩) := by
  have kept : ((l.columns ++ [l.number]).map fun d =>
      { d with expr := Expr.column ⟨⟨supply.next⟩, d.name, d.type⟩ }).filter (·.name ≠ columnName)
      = (l.forwarding ⟨supply.next⟩).columns := by
    rw [List.map_append, List.filter_append, List.filter_eq_self.mpr]
    · simp [forwarding, number]
    · intro d hd
      obtain ⟨d', hd', rfl⟩ := List.mem_map.mp hd
      simpa using fun h : d'.name = columnName => named (h ▸ List.mem_map_of_mem hd')
  rw [paging, above, ← kept]
  simp only [finish, above, h]
  rfl

end Layer

namespace Stack

variable {tables : Tables} {G : Grammar} {t : Table} {offered : List String} {base : List Row}
  {l : Layer} {s s' below : Stack}

/-- The second stack numbers rows where the first one skips; the new aliases are not `taken`. -/
inductive Numbered (taken : List Alias) : Stack → Stack → Prop
  | nil : Numbered taken [] []
  | keep {l : Layer} {s s' : Stack} : l.skip = none → Numbered taken s s' →
    Numbered taken (l :: s) (l :: s')
  | page {l : Layer} {s s' : Stack} {skip : Nat} {r : Alias} : l.skip = some skip → r ∉ taken →
    Numbered taken s s' → Numbered taken (l :: s) (l.paging r skip :: l.numbering r :: s')

def Drawn (supply : Supply) (taken : List Alias) : Prop := ∀ a ∈ taken, a.id < supply.next

theorem Drawn.mono {supply supply' : Supply} {taken : List Alias} (h : Drawn supply taken)
    (le : supply.next ≤ supply'.next) : Drawn supply' taken :=
  fun a ha => Nat.lt_of_lt_of_le (h a ha) le

theorem finish_run {below' : Stack} {taken : List Alias} {supply : Supply}
    (named : columnName ∉ l.names) (drawn : Drawn supply taken) (numbered : Numbered taken below below') :
    ∃ l' between supply', (finish (l.above (tree t below'))).run supply
        = (l'.above (tree t (between ++ below')), supply')
      ∧ Numbered taken (l :: below) (l' :: (between ++ below')) ∧ supply.next ≤ supply'.next := by
  cases skip : l.skip with
  | none =>
    exact ⟨l, [], supply, Layer.finish_keep skip _ _, .keep skip numbered, Nat.le_refl _⟩
  | some n =>
    refine ⟨l.paging ⟨supply.next⟩ n, [l.numbering ⟨supply.next⟩], ⟨supply.next + 1⟩,
      Layer.finish_page skip named _ _, .page skip (fun h => ?_) numbered, Nat.le_succ _⟩
    exact Nat.lt_irrefl _ (drawn _ h)

theorem bottomUp_layer {below' : Stack} {taken : List Alias} {supply₁ supply : Supply}
    {P : Column → Prop} (fits : l.Fits G P) {source : Expr}
    (walked : (source.bottomUp ⟨pure, finish⟩).run supply₁ = (tree t below', supply))
    (named : columnName ∉ l.names) (drawn : Drawn supply taken) (numbered : Numbered taken below below') :
    ∃ l' between supply', ((l.above source).bottomUp ⟨pure, finish⟩).run supply₁
        = (l'.above (tree t (between ++ below')), supply')
      ∧ Numbered taken (l :: below) (l' :: (between ++ below')) ∧ supply.next ≤ supply'.next := by
  let Y := Yields.ofState Supply
  have onPlain : ∀ {P e}, Plain G.members P e → Y.gives supply (e.bottomUp ⟨pure, finish⟩) e supply :=
    fun h => h.bottomUp_gives Y fun e _ => Y.pure _ _
  have walk := Layer.traverse_gives Y _ (f := fun e => e) (l := l) walked
    (fun e he => onPlain (fits.plain e he)) fun n => onPlain (P := fun _ => False) (.const (.int n))
  rw [Layer.mapExprs_self fun _ _ => rfl] at walk
  obtain ⟨l', between, supply', run, rest⟩ := finish_run (t := t) named drawn numbered
  refine ⟨l', between, supply', ?_, rest⟩
  rw [Select.bottomUp]
  exact Y.bind walk run

theorem bottomUp_tree {taken : List Alias} {supply : Supply} (sound : Sound G t offered s)
    (named : Unnumbered offered s) (drawn : Drawn supply taken) :
    ∃ s' supply', ((tree t s).bottomUp ⟨pure, finish⟩).run supply = (tree t s', supply')
      ∧ Numbered taken s s' ∧ supply.next ≤ supply'.next := by
  let Y := Yields.ofState Supply
  induction s with
  | nil =>
    refine ⟨[], supply, ?_, .nil, Nat.le_refl _⟩
    rw [tree, Expr.bottomUp]
    rfl
  | cons l below ih =>
    obtain ⟨below', supply₁, walked, numbered, le⟩ := ih sound.2.2
      ⟨named.1, fun l hl => named.2 l (by simp [hl])⟩
    obtain ⟨l', between, supply', run, numbered', le'⟩ := bottomUp_layer sound.2.1 walked
      (named.2 l (by simp)) (drawn.mono le) numbered
    refine ⟨l' :: (between ++ below'), supply', ?_, numbered', Nat.le_trans le le'⟩
    rw [tree, Expr.bottomUp]
    exact Y.bind (Y.bind run (Y.pure _ _)) (Y.pure _ _)

/-- The pass puts row numbers where the stack skips. -/
theorem skipByRowNumbers_run {projector : Expr} {supply : Supply} {taken : List Alias}
    (sound : Sound G t offered (l :: below)) (named : Unnumbered offered (l :: below))
    (plain : Plain G.members (Sees t offered (l :: below)) projector) (drawn : Drawn supply taken) :
    ∃ l' below' supply', (Expr.projection (projected t l below projector)).skipByRowNumbers.run supply
        = (.projection (projected t l' below' projector), supply')
      ∧ Numbered taken (l :: below) (l' :: below') := by
  let Y := Yields.ofState Supply
  obtain ⟨below', supply₁, walked, numbered, le⟩ := bottomUp_tree sound.2.2
    ⟨named.1, fun l hl => named.2 l (by simp [hl])⟩ drawn
  obtain ⟨l', between, supply', run, numbered', -⟩ := bottomUp_layer sound.2.1 walked
    (named.2 l (by simp)) (drawn.mono le) numbered
  refine ⟨l', between ++ below', supply', ?_, numbered'⟩
  have onProjector : Y.gives supply' (projector.bottomUp ⟨pure, finish⟩) projector supply' :=
    plain.bottomUp_gives Y fun e _ => Y.pure _ _
  rw [Expr.skipByRowNumbers, Expr.bottomUp]
  refine Y.bind (Y.bind (?_ : Y.gives _ (Projection.bottomUp _ _) _ _) (Y.pure _ _)) (Y.pure _ _)
  rw [Projection.bottomUp]
  exact Y.bind run (Y.bind onProjector (Y.pure _ _))

end Stack

namespace Plain

variable {members : Prop} {P : Column → Prop} {e : Expr} {tables : Tables} {scope scope' : Scope}

/-- What is read from equal columns is equal. -/
theorem value_congr (plain : Plain members P e)
    (same : ∀ c, P c → scope'.column c = scope.column c) :
    (Meaning.direct tables).value e scope' = (Meaning.direct tables).value e scope := by
  have alike : Alike (scalar tables (e.replace .column) scope') (scalar tables e scope) :=
    plain.scalar_replace fun c hc => by
      rw [scalar.eq_2, same c hc]
      exact Alike.refl _
  rw [plain.replace_self] at alike
  exact congrArg (Option.getD · .null) alike

theorem object_congr (plain : Plain members P e)
    (same : ∀ c, P c → scope'.column c = scope.column c) :
    (Meaning.direct tables).object e scope' = (Meaning.direct tables).object e scope := by
  have alike : Alike.Runs (client tables (e.replace .column) scope') (client tables e scope) :=
    plain.client_replace (fun c _ => .inl ⟨c, rfl⟩) fun c hc => by
      rw [scalar.eq_2, same c hc]
      exact Alike.refl _
  rw [plain.replace_self] at alike
  exact congrArg (Option.map (·.1)) (alike [])

end Plain

namespace Stack

variable {tables : Tables} {t : Table} {offered : List String} {base : List Row} {f : Feed Row}
  {gathered : List (Order Expr)} {l inner : Layer} {below : Stack} {r : Alias}

def numberedFeed (tables : Tables) (f : Feed Row) (l inner : Layer) : Feed (Row × Nat) where
  rel := inner.rel
  names := inner.names
  trace x := inner.columns.map fun d => (d.name, (Meaning.direct tables).value d.expr
    { f.view x.1 with
      rowNumber := numberOf (byKeys (f.keys (.direct tables) l.orderBy))
        (f.picked.filter (f.passes (.direct tables) l)) x.2 })
  picked := (f.picked.filter (f.passes (.direct tables) l)).zipIdx

structure Numbers (G : Grammar) (inner l : Layer) (P : Column → Prop) : Prop where
  fits : l.Fits G P
  filter : inner.filter = l.filter
  orderBy : inner.orderBy = []
  unpaged : inner.isPaged = false
  nodup : inner.names.Nodup
  number : l.number ∈ inner.columns
  others : ∀ d ∈ inner.columns, d = l.number ∨ Plain G.members P d.expr

namespace Numbers

variable {G : Grammar} {P : Column → Prop} (numbers : Numbers G inner l P)
include numbers

theorem numbering?_eq (source : Expr) : ∃ h, numbering? (inner.above source) = some ⟨l.orderBy, h⟩ := by
  cases found : numbering? (inner.above source) with
  | none =>
    rw [numbering?, List.findSome?_eq_none_iff] at found
    have := found ⟨l.number, numbers.number⟩ (List.mem_attach _ _)
    simp [Layer.number] at this
  | some entry =>
    obtain ⟨orders, d, hd, expr⟩ := entry
    rcases numbers.others d hd with rfl | plain
    · cases expr
      exact ⟨⟨_, hd, rfl⟩, rfl⟩
    · rw [expr] at plain
      cases plain

theorem hasNoAggregates (source : Expr) : (inner.above source).hasAggregates = false := by
  refine Layer.hasNoAggregates (fun e he => ?_) source
  simp only [Layer.exprs, numbers.orderBy, numbers.filter, List.map_nil, List.append_nil,
    List.mem_append, List.mem_map, Option.mem_toList] at he
  rcases he with ⟨d, hd, rfl⟩ | he
  · rcases numbers.others d hd with rfl | plain
    · exact numbers.fits.hasNoAggregates_number
    · exact plain.hasNoAggregates
  · exact (numbers.fits.filter he).hasNoAggregates

theorem scopes_of_numbered (typed : ∀ k ∈ f.keys (.direct tables) l.orderBy, ∃ type : KeyType,
      ∀ row ∈ f.picked.filter (f.passes (.direct tables) l), type.admits (k.2 row)) {e : Expr}
    {scopes : List Scope}
    (h : numbered (inner.above e) (fun e _ => scalar tables e)
      ((f.picked.filter (f.passes (.direct tables) l)).map f.view) = .ok scopes) :
    scopes = (f.picked.filter (f.passes (.direct tables) l)).zipIdx.map fun x =>
      { f.view x.1 with
        rowNumber := numberOf (byKeys (f.keys (.direct tables) l.orderBy))
          (f.picked.filter (f.passes (.direct tables) l)) x.2 } := by
  obtain ⟨orders, hn⟩ := numbers.numbering?_eq e
  rw [numbered, hn] at h
  obtain ⟨keyed, hkeyed, h⟩ := bind_eq_ok.mp h
  simp only [List.mapM_subtype, List.unattach_attach, List.mapM_map] at hkeyed
  have keyed_eq := eq_map_of_mapM (g := fun row =>
    ((f.keys (.direct tables) l.orderBy).map (·.2 row), f.view row)) hkeyed fun row _ p hp => by
      obtain ⟨key, hkey, hp⟩ := bind_eq_ok.mp hp
      cases hp
      have key_eq := eq_map_of_mapM (g := fun o => (Meaning.direct tables).value o.expr (f.view row))
        hkey fun o _ v hv => by
          have hv : scalar tables o.expr (f.view row) = .ok v := hv
          simp [Meaning.direct, hv, Except.toOption]
      simp [Feed.keys, Function.comp_def, key_eq]
  have directions : l.orderBy.map (·.direction) = (f.keys (.direct tables) l.orderBy).map (·.1) := by
    simp [Feed.keys, Function.comp_def]
  cases h
  rw [keyed_eq, directions]
  exact numberScopes_eq typed f.view

/-- The rows of a layer that numbers, made with their numbers. -/
theorem frames_of_source (typed : ∀ k ∈ f.keys (.direct tables) l.orderBy, ∃ type : KeyType,
      ∀ row ∈ f.picked.filter (f.passes (.direct tables) l), type.admits (k.2 row))
    {e : Expr}
    (below : ∀ {frames}, source tables e .root = .ok frames → frames = f.picked.map f.frame)
    {frames : List Frame} (h : source tables (.select (inner.above e)) .root = .ok frames) :
    frames = (numberedFeed tables f l inner).picked.map (numberedFeed tables f l inner).frame := by
  have value : ∀ e ∈ inner.exprs, ∀ {scope v}, scalar tables e scope = .ok v →
      (Meaning.direct tables).value e scope = v := fun e _ scope v hv => by
    simp [Meaning.direct, hv, Except.toOption]
  rw [source] at h
  obtain ⟨rows, hrows, h⟩ := bind_eq_ok.mp h
  cases h
  rw [Layer.select_over (numbers.hasNoAggregates e)] at hrows
  obtain ⟨all, hall, hrows⟩ := bind_eq_ok.mp hrows
  obtain rfl := below hall
  obtain ⟨kept, hkept, hrows⟩ := bind_eq_ok.mp hrows
  obtain rfl := Feed.kept_of_filter (fun e he => value e (Layer.mem_exprs_of_filter he)) hkept
  have passes : f.passes (.direct tables) inner = f.passes (.direct tables) l := by
    funext row
    rw [Feed.passes, Feed.passes, numbers.filter]
  rw [passes, List.map_map] at hrows
  obtain ⟨scopes, hscopes, hrows⟩ := bind_eq_ok.mp hrows
  obtain rfl := numbers.scopes_of_numbered typed hscopes
  obtain ⟨produced, hproduced, hrows⟩ := bind_eq_ok.mp hrows
  rw [List.mapM_map] at hproduced
  obtain rfl := eq_map_of_mapM hproduced fun x _ p hp => (Feed.produced_of_row value hp).symm
  cases hrows
  have unsorted : ∀ ps : List Produced, sortStable (fun a b =>
      compareKeys (inner.orderBy.map (·.direction)) a.keys b.keys == .lt) ps = ps := by
    intro ps
    rw [numbers.orderBy]
    exact (sortStable_congr fun _ _ _ _ => rfl).trans (sortWith_nil ps)
  rw [unsorted, page_of_unpaged numbers.unpaged, List.map_map, List.map_map]
  rfl

end Numbers

theorem binary_int (op : BinaryOp) (hop : op.isComparison = true) (a b : Int) :
    Value.binary op (.int a) (.int b) = .ok (.bool (Value.satisfies op (Ord.compare a b))) := by
  cases op <;> simp [BinaryOp.isComparison] at hop <;> rfl

theorem binary_and (a b : Bool) : Value.binary .and (.bool a) (.bool b) = .ok (.bool (a && b)) := by
  cases a <;> cases b <;> rfl

theorem satisfies_int (a b : Int) : Value.satisfies .gt (Ord.compare a b) = decide (b < a)
    ∧ Value.satisfies .gtEq (Ord.compare a b) = decide (b ≤ a)
    ∧ Value.satisfies .ltEq (Ord.compare a b) = decide (a ≤ b) := by
  rcases Int.lt_trichotomy a b with h | rfl | h
  · have lt : Ord.compare a b = .lt := by simp [Ord.compare, compareOfLessAndEq, h]
    rw [lt, decide_eq_false (by omega), decide_eq_false (by omega), decide_eq_true (by omega)]
    decide
  · simp [Value.satisfies]
  · have gt : Ord.compare a b = .gt := by
      simp [Ord.compare, compareOfLessAndEq, Int.not_lt.mpr (Int.le_of_lt h), Int.ne_of_gt h]
    rw [gt, decide_eq_true (by omega), decide_eq_true (by omega), decide_eq_false (by omega)]
    decide

theorem binary_add (a b : Int) : Value.binary .add (.int a) (.int b) = Value.checked (a + b) := rfl

/-- Whether a sum is added up beforehand changes neither its value nor its failure. -/
theorem scalar_plus (a b : Expr) (scope : Scope) :
    scalar tables (a.plus b) scope = scalar tables (.binary .add a b) scope := by
  unfold Expr.plus
  split
  · split
    · rename_i fits
      simp only [Expr.int, scalar, ok_bind]
      rw [binary_add, Value.checked, if_pos fits]
    · rfl
  · rfl

theorem sum_of_scalar {a b : Int} {scope : Scope} {v : Value}
    (h : scalar tables ((Expr.int a).plus (.int b)) scope = .ok v) : v = .int (a + b) := by
  simp only [scalar_plus, Expr.int, scalar, ok_bind] at h
  rw [binary_add, Value.checked] at h
  split at h
  · exact (Except.ok.inj h).symm
  · cases h

theorem pageTest_between (skip : Nat) {n : Nat} (ht : l.take = some n) : l.pageTest r skip
    = .between (.column ⟨r, columnName, .int⟩) ((Expr.int skip).plus (.int 1)) ((Expr.int skip).plus (.int n)) := by
  rw [Layer.pageTest, ht]
  rfl

/-- The condition on the number of a row, once it can be evaluated, says that the row is on the page. -/
theorem isTrue_pageTest {skip : Nat} (hskip : l.skip = some skip) {scope : Scope} {number : Option Nat}
    (h : scope.column ⟨r, columnName, .int⟩ = .ok (number.elim .null fun n => .int n)) {v : Value}
    (tested : scalar tables (l.pageTest r skip) scope = .ok v) : v.isTrue = number.any l.admits := by
  cases ht : l.take with
  | none =>
    simp only [Layer.pageTest, inPage, ht, Option.map_none, scalar, h, ok_bind, Layer.count, Expr.int] at tested
    cases number with
    | none =>
      cases tested
      rfl
    | some n =>
      simp only [Option.elim_some, binary_int .gt rfl, (satisfies_int _ _).1] at tested
      cases tested
      simp [Value.isTrue, Layer.admits, hskip, ht]
  | some count =>
    rw [pageTest_between skip ht, scalar, scalar, h, ok_bind] at tested
    obtain ⟨lower, hlower, tested⟩ := bind_eq_ok.mp tested
    obtain ⟨upper, hupper, tested⟩ := bind_eq_ok.mp tested
    obtain rfl := sum_of_scalar hlower
    obtain rfl := sum_of_scalar hupper
    cases number with
    | none =>
      cases tested
      rfl
    | some n =>
      simp only [Option.elim_some, binary_int .gtEq rfl, binary_int .ltEq rfl, (satisfies_int _ _).2, ok_bind]
        at tested
      have numbers : decide ((skip + 1 : Int) ≤ n) = decide (skip < n)
          ∧ decide ((n : Int) ≤ skip + count) = decide (n ≤ skip + count) :=
        ⟨decide_eq_decide.mpr (by omega), decide_eq_decide.mpr (by omega)⟩
      rw [binary_and] at tested
      cases tested
      simp [Value.isTrue, Layer.admits, hskip, ht, numbers]

theorem plain_plus (a b : Int) : Plain False (fun _ => True) ((Expr.int a).plus (.int b)) := by
  obtain ⟨n, sum⟩ | sum := Expr.plus_eq (.int a) (.int b)
  · rw [sum]
    exact .const (.int n)
  · rw [sum]
    exact .binary (.const (.int a)) (.const (.int b))

/-- The condition is that the number, a column, compares to constants. -/
theorem pageTest_parts (skip : Nat) : Plain False (fun _ => True) (l.pageTest r skip)
    ∨ ∃ lower upper, Plain False (fun _ => True) lower ∧ Plain False (fun _ => True) upper
      ∧ l.pageTest r skip = .between (.column ⟨r, columnName, .int⟩) lower upper := by
  cases ht : l.take with
  | none =>
    rw [Layer.pageTest, ht]
    exact .inl (.binary (.column trivial) (.const (.int _)))
  | some n =>
    exact .inr ⟨_, _, plain_plus _ _, plain_plus _ _, pageTest_between skip ht⟩

theorem hasNoAggregates_pageTest (skip : Nat) : (Part.expr (l.pageTest r skip)).aggregates = false := by
  rcases pageTest_parts (l := l) (r := r) skip with plain | ⟨lower, upper, hlower, hupper, between⟩
  · exact plain.hasNoAggregates
  · rw [between, Part.aggregates, Part.gather_eq_nil rfl]
    · rfl
    · intro p hp
      simp only [Part.parts, List.mem_cons, List.not_mem_nil, or_false] at hp
      have parts : ∃ e, p = .expr e ∧ Plain False (fun _ => True) e := by
        rcases hp with rfl | rfl | rfl
        · exact ⟨_, rfl, .column trivial⟩
        · exact ⟨_, rfl, hlower⟩
        · exact ⟨_, rfl, hupper⟩
      obtain ⟨e, rfl, plain⟩ := parts
      exact plain.gather_eq_nil fun e he => by cases he <;> rfl

theorem hoist_pageTest (skip : Nat) (orders : List (Order Expr)) :
    ((l.pageTest r skip).hoist false).run orders = (l.pageTest r skip, orders) := by
  let Y := Yields.ofState (List (Order Expr))
  rcases pageTest_parts (l := l) (r := r) skip with plain | ⟨lower, upper, hlower, hupper, between⟩
  · exact plain.hoist_run false orders
  · have onPlain : ∀ {e}, Plain False (fun _ => True) e → Y.gives orders (e.hoist false) e orders :=
      fun h => h.hoist_run false orders
    rw [between, Expr.hoist]
    · exact Y.bind (onPlain (.column trivial)) (Y.bind (onPlain hlower)
        (Y.bind (onPlain hupper) (Y.pure _ _)))
    all_goals simp

/-- The layer that numbers its rows passes orderings on as columns that its own are followed by. -/
theorem numbering_spec (h : Offers (.direct tables) t offered below f gathered)
    (sound : Sound (Meaning.direct tables).toGrammar t offered (l :: below)) (r : Alias)
    (named : columnName ∉ l.names) (free : columnName ∉ f.names) :
    ∃ extra, ((l.numbering r).settled false [f.rel] gathered).columns = l.columns ++ l.number :: extra
      ∧ Numbers (Meaning.direct tables).toGrammar ((l.numbering r).settled false [f.rel] gathered) l
        f.Sees
      ∧ Widens (.direct tables) f (l.unpaged r) (l.widened r extra)
      ∧ ReadFrom r (l.columns ++ extra) ((l.numbering r).passedOn false [f.rel] gathered).1
        (inFront l.orderBy gathered)
      ∧ columnName ∉ (l.widened r extra).names := by
  have fits := sound.2.1.mono fun _ hc => h.sees hc
  have front := h.inFront sound
  have nodup : ((l.columns ++ [l.number]).map (·.name)).Nodup := by
    rw [List.map_append, List.nodup_append]
    refine ⟨fits.nodup, by simp, fun a ha b hb => ?_⟩
    rintro rfl
    rw [List.map_singleton, List.mem_singleton] at hb
    rw [hb] at ha
    exact named ha
  have ordinary : ∀ o ∈ inFront l.orderBy gathered, ∀ c, o.expr = .column c → c.name ≠ columnName := by
    intro o ho c hc name
    have plain := front.1 o ho
    rw [hc] at plain
    cases plain with
    | column sees => exact free (name ▸ sees.2)
  obtain ⟨extra, all, origin, nodup', reads, names⟩ := through_spec r (inside_inFront h sound)
    (fun o ho => (front.1 o ho).exact) nodup
  have extraPlain : ∀ d ∈ extra, Plain (Meaning.direct tables).members f.Sees d.expr := by
    intro d hd
    obtain ⟨o, ho, expr⟩ := origin d hd
    exact expr ▸ front.1 o ho
  have columns : ((l.numbering r).settled false [f.rel] gathered).columns
      = l.columns ++ l.number :: extra := by
    rw [List.append_cons]
    exact all
  have widePlain : ∀ d ∈ l.columns ++ extra, Plain (Meaning.direct tables).members f.Sees d.expr := by
    intro d hd
    rcases List.mem_append.mp hd with hd | hd
    · exact fits.column hd
    · exact extraPlain d hd
  have sub : (l.columns ++ extra).Sublist (l.columns ++ [l.number] ++ extra) :=
    (List.sublist_append_left _ _).append_right _
  refine ⟨extra, columns, ⟨fits, rfl, rfl, rfl, ?_, ?_, ?_⟩,
    ⟨rfl, ⟨extra, rfl⟩, rfl, rfl, rfl, widePlain, nodup'.sublist (sub.map _)⟩, ?_, ?_⟩
  · rw [Layer.names, columns, List.append_cons]
    exact nodup'
  · rw [columns]
    simp
  · intro d hd
    rw [columns] at hd
    rcases List.mem_append.mp hd with hd | hd
    · exact .inr (fits.column hd)
    · rcases List.mem_cons.mp hd with hd | hd
      · exact .inl hd
      · exact .inr (extraPlain d hd)
  · refine reads.mono fun d hd o ho expr => ?_
    rcases List.mem_append.mp hd with hd | hd
    · rcases List.mem_append.mp hd with hd | hd
      · exact List.mem_append_left _ hd
      · have plain := front.1 o ho
        rw [← expr, List.mem_singleton.mp hd] at plain
        cases plain
    · exact List.mem_append_right _ hd
  · intro hn
    obtain ⟨d, hd, name⟩ := List.mem_map.mp hn
    rcases List.mem_append.mp hd with hd | hd
    · exact named (name ▸ List.mem_map_of_mem hd)
    · exact names ordinary d hd name

theorem sound_forwarding (sound : Sound (Meaning.direct tables).toGrammar t offered (l :: below))
    (fresh : r ∉ aliases t (l :: below)) :
    Sound (Meaning.direct tables).toGrammar t offered (l.forwarding r :: l.unpaged r :: below) := by
  simp only [aliases, List.map_cons, List.mem_cons, not_or] at fresh
  refine ⟨?_, ⟨fun e he => ?_, ?_, fun _ _ _ _ => trivial⟩, ?_,
    ⟨sound.2.1.plain, sound.2.1.nodup, sound.2.1.constants⟩, sound.2.2⟩
  · have old := sound.1
    simp only [aliases, List.map_cons, List.mem_cons, not_or] at old ⊢
    exact ⟨old.1, fun h => fresh.2.1 h.symm, old.2⟩
  · simp only [Layer.exprs, Layer.forwarding, List.map_map, Option.toList_none, List.append_nil,
      List.map_nil, List.mem_map] at he
    obtain ⟨d, hd, rfl⟩ := he
    exact .column ⟨rfl, List.mem_map_of_mem hd⟩
  · simpa [Layer.names, Layer.forwarding, Function.comp_def] using sound.2.1.nodup
  · simp only [aliases, List.mem_cons, not_or]
    exact ⟨fresh.1, fresh.2.2⟩

/-- The columns that are forwarded are those of the layer. -/
theorem column_forwarding (sound : Sound (Meaning.direct tables).toGrammar t offered (l :: below))
    (fresh : r ∉ aliases t (l :: below)) (row : Row) {c : Column} (hc : Sees t offered (l :: below) c) :
    Sees t offered (l.forwarding r :: l.unpaged r :: below) c
      ∧ (view (.direct tables) t (l.forwarding r :: l.unpaged r :: below) row).column c
        = (view (.direct tables) t (l :: below) row).column c := by
  obtain ⟨d, hd, hn⟩ := List.mem_map.mp hc.2
  have old : (view (.direct tables) t (l :: below) row).column c = _ :=
    Feed.column_bind hc.1 (hn ▸ get?_trace sound.2.1.nodup hd row)
  have new : (view (.direct tables) t (l.forwarding r :: l.unpaged r :: below) row).column c = _ :=
    Feed.column_bind hc.1 (hn ▸ get?_trace (sound_forwarding sound fresh).2.1.nodup
      (List.mem_map_of_mem hd) row)
  have sees : c.name ∈ (l.forwarding r).names := by
    simpa [Layer.names, Layer.forwarding] using ⟨d, hd, hn⟩
  refine ⟨⟨hc.1, sees⟩, ?_⟩
  rw [old, new]
  exact congrArg Except.ok ((Meaning.direct tables).value_column
    (Feed.column_bind rfl (hn ▸ get?_trace (l := l.unpaged r) sound.2.1.nodup hd row)))

theorem Offers.of_forwarding (h : Offers (.direct tables) t offered
      (l.forwarding r :: l.unpaged r :: below) f gathered)
    (sound : Sound (Meaning.direct tables).toGrammar t offered (l :: below))
    (fresh : r ∉ aliases t (l :: below)) : Offers (.direct tables) t offered (l :: below) f gathered := by
  have names : ∀ n, n ∈ l.names → n ∈ (l.forwarding r).names := by
    simp [Layer.names, Layer.forwarding]
  refine ⟨h.rel, fun n hn => h.names n (names n hn), h.reads, fun row full c hc => ?_, h.plain,
    fun row row' hr hr' => h.order row row' hr hr'⟩
  obtain ⟨sees, same⟩ := column_forwarding sound fresh row hc
  rw [h.same row full c sees, same]

section Picked

variable (h : Hoisted (.direct tables) t offered base below f gathered)
  (full : ∀ row ∈ base, Full offered row)
  (sound : Sound (Meaning.direct tables).toGrammar t offered (l :: below))
include h full sound

/-- On the rows that pass it, a layer that pages orders by its own keys alone. -/
theorem keys_refined (refined : Refined (.direct tables) t offered (l :: below))
    (paged : l.isPaged = true) :
    ∀ row ∈ f.picked.filter (f.passes (.direct tables) l),
      ∀ row' ∈ f.picked.filter (f.passes (.direct tables) l),
        byKeys (f.keys (.direct tables) l.orderBy) row row'
          = order (.direct tables) t (l :: below) row row' := by
  have inBase : ∀ row ∈ f.picked.filter (f.passes (.direct tables) l), Full offered row :=
    fun row hr => full row (h.mem_base (List.mem_of_mem_filter hr))
  intro row hr row' hr'
  have ties := refined.1 paged row row' (inBase row hr) (inBase row' hr')
  rw [byKeys_of_same (h.keys sound) (inBase row hr) (inBase row' hr'), order, compareLex]
  cases own : byKeys (keys (.direct tables) t l below) row row' with
  | eq => rw [ties own, Ordering.then_eq]
  | lt => rfl
  | gt => rfl

/-- The rows whose numbers are on the page are the rows on the page. -/
theorem picked_page (refined : Refined (.direct tables) t offered (l :: below))
    (paged : l.isPaged = true) {cmp : Row → Row → Ordering}
    (agree : ∀ row ∈ f.picked.filter (f.passes (.direct tables) l),
      ∀ row' ∈ f.picked.filter (f.passes (.direct tables) l),
        cmp row row' = order (.direct tables) t (l :: below) row row') :
    picked (.direct tables) t base (l :: below)
      = sortWith cmp ((onPage (byKeys (f.keys (.direct tables) l.orderBy)) l
        (f.picked.filter (f.passes (.direct tables) l))).map (·.1)) := by
  have own := keys_refined h full sound refined paged
  have inBase : ∀ row ∈ f.picked.filter (f.passes (.direct tables) l), Full offered row :=
    fun row hr => full row (h.mem_base (List.mem_of_mem_filter hr))
  have sub : ∀ row ∈ (onPage (byKeys (f.keys (.direct tables) l.orderBy)) l
      (f.picked.filter (f.passes (.direct tables) l))).map (·.1),
      row ∈ f.picked.filter (f.passes (.direct tables) l) := by
    intro row hr
    obtain ⟨x, hx, rfl⟩ := List.mem_map.mp hr
    exact List.fst_mem_of_mem_zipIdx (List.mem_of_mem_filter hx)
  rw [h.picked_layer full sound, sortWith_congr fun row hr row' hr' =>
    ((h.inFront sound).2 row row' (inBase row hr) (inBase row' hr')).trans (own row hr row' hr').symm,
    ← sortWith_onPage]
  exact sortWith_congr fun row hr row' hr' =>
    (own row (sub row hr) row' (sub row' hr')).trans (agree row (sub row hr) row' (sub row' hr')).symm

end Picked

theorem value_rowNumber (orders : List (Order Expr)) (scope : Scope) :
    (Meaning.direct tables).value (.rowNumber orders) scope
      = scope.rowNumber.elim .null fun n => .int n := by
  simp only [Meaning.direct, scalar]
  cases scope.rowNumber <;> rfl

section Feeds

variable {G : Grammar} {P : Column → Prop} {extra : List (ColumnDecl Expr)}
  (numbers : Numbers G inner l P) (columns : inner.columns = l.columns ++ l.number :: extra)
  (wide : Widens (.direct tables) f (l.unpaged r) (l.widened r extra)) (rel : inner.rel = r)
include numbers columns wide rel

/-- What the layer that numbers rows makes besides the numbers does not depend on them. -/
theorem column_numberedFeed (x : Row × Nat) {c : Column}
    (hc : (f.layer (.direct tables) (l.widened r extra)).Sees c) :
    ((numberedFeed tables f l inner).view x).column c
      = ((f.layer (.direct tables) (l.widened r extra)).view x.1).column c := by
  obtain ⟨d, hd, hn⟩ := List.mem_map.mp hc.2
  have mem : d ∈ inner.columns := by
    rw [columns]
    rcases List.mem_append.mp hd with hd | hd
    · exact List.mem_append_left _ hd
    · exact List.mem_append_right _ (List.mem_cons_of_mem _ hd)
  have plain := wide.plain d hd
  have old : ((f.layer (.direct tables) (l.widened r extra)).view x.1).column c
      = .ok ((Meaning.direct tables).value d.expr (f.view x.1)) := wide.read x.1 hd hc.1 hn.symm
  rw [old]
  refine (Feed.column_bind (hc.1.trans rel.symm) (hn ▸ Feed.get?_columns numbers.nodup mem _)).trans ?_
  exact congrArg Except.ok (plain.value_congr fun _ _ => rfl)

omit columns wide in
theorem number_numberedFeed (x : Row × Nat) :
    ((numberedFeed tables f l inner).view x).column ⟨r, columnName, .int⟩
      = .ok ((numberOf (byKeys (f.keys (.direct tables) l.orderBy))
        (f.picked.filter (f.passes (.direct tables) l)) x.2).elim .null fun n => .int n) := by
  refine (Feed.column_bind rel.symm (Feed.get?_columns numbers.nodup numbers.number _)).trans ?_
  exact congrArg Except.ok (value_rowNumber _ _)

variable {outer : Layer} {skip : Nat} (hskip : l.skip = some skip)
  (filter : outer.filter = some (l.pageTest r skip)) (unpaged : outer.isPaged = false)
  (plain : ∀ d ∈ outer.columns, Plain True (f.layer (.direct tables) (l.widened r extra)).Sees d.expr)
  (orders : ∀ o ∈ outer.orderBy, Plain True (f.layer (.direct tables) (l.widened r extra)).Sees o.expr)
  (tested : ∀ x ∈ (numberedFeed tables f l inner).picked, ∃ v,
    scalar tables (l.pageTest r skip) ((numberedFeed tables f l inner).view x) = .ok v)

include plain in
theorem made_outer (x : Row × Nat) : (numberedFeed tables f l inner).made (.direct tables) outer x
    = (f.layer (.direct tables) (l.widened r extra)).made (.direct tables) outer x.1 := by
  refine List.map_congr_left fun d hd => congrArg (Prod.mk d.name) ?_
  exact (plain d hd).value_congr fun c hc => column_numberedFeed numbers columns wide rel x hc

omit columns wide in
include hskip filter tested in
theorem filter_outer : (numberedFeed tables f l inner).picked.filter
      ((numberedFeed tables f l inner).passes (.direct tables) outer)
    = onPage (byKeys (f.keys (.direct tables) l.orderBy)) l
      (f.picked.filter (f.passes (.direct tables) l)) := by
  refine List.filter_congr fun x hx => ?_
  obtain ⟨v, hv⟩ := tested x hx
  have value : (Meaning.direct tables).value (l.pageTest r skip) ((numberedFeed tables f l inner).view x) = v := by
    simp [Meaning.direct, hv, Except.toOption]
  rw [Feed.passes, filter, Option.all_some, value]
  exact isTrue_pageTest hskip (number_numberedFeed numbers rel x) hv

include orders in
theorem keys_outer (x y : Row × Nat) :
    byKeys ((numberedFeed tables f l inner).keys (.direct tables) outer.orderBy) x y
      = byKeys ((f.layer (.direct tables) (l.widened r extra)).keys (.direct tables) outer.orderBy)
        x.1 y.1 := by
  refine byKeys_congr ?_
  rw [Feed.keys, Feed.keys, List.forall₂_map_left_iff, List.forall₂_map_right_iff, List.forall₂_same]
  have same : ∀ o ∈ outer.orderBy, ∀ x : Row × Nat, (Meaning.direct tables).value o.expr
      ((numberedFeed tables f l inner).view x) = (Meaning.direct tables).value o.expr
        ((f.layer (.direct tables) (l.widened r extra)).view x.1) := fun o ho x =>
    (orders o ho).value_congr fun c hc => column_numberedFeed numbers columns wide rel x hc
  exact fun o ho => ⟨rfl, same o ho x, same o ho y⟩

omit numbers columns wide rel in
include filter plain orders in
theorem evaluates_outer : outer.Evaluates (.direct tables) where
  value e _ scope v hv := by simp [Meaning.direct, hv, Except.toOption]
  aggregates := by
    refine Layer.hasNoAggregates fun e he => ?_
    simp only [Layer.exprs, filter, Option.toList_some, List.mem_append, List.mem_map,
      List.mem_singleton] at he
    rcases he with (⟨d, hd, rfl⟩ | rfl) | ⟨o, ho, rfl⟩
    · exact (plain d hd).hasNoAggregates
    · exact hasNoAggregates_pageTest skip
    · exact (orders o ho).hasNoAggregates
  numbering := Layer.hasNoNumbering plain

include hskip filter unpaged orders tested in
/-- The rows that the pair gives are made from the rows on the page. -/
theorem rows_outer : ((numberedFeed tables f l inner).layer (.direct tables) outer).picked.map (·.1)
    = sortWith (byKeys ((f.layer (.direct tables) (l.widened r extra)).keys (.direct tables)
      outer.orderBy)) ((onPage (byKeys (f.keys (.direct tables) l.orderBy)) l
        (f.picked.filter (f.passes (.direct tables) l))).map (·.1)) := by
  rw [sortWith_map, Feed.layer, page_of_unpaged unpaged, filter_outer numbers rel hskip filter tested]
  congr 1
  exact sortWith_congr fun x _ y _ => keys_outer numbers columns wide rel orders x y

end Feeds

structure Pair (tables : Tables) (t : Table) (offered : List String) (base : List Row) (l : Layer)
    (below : Stack) (f : Feed Row) (gathered : List (Order Expr)) (r : Alias) (skip : Nat) : Prop where
  full : ∀ row ∈ base, Full offered row
  hoisted : Hoisted (.direct tables) t offered base below f gathered
  free : columnName ∉ f.names
  sound : Sound (Meaning.direct tables).toGrammar t offered (l :: below)
  uniform : Uniform (.direct tables) t base (l :: below)
  refined : Refined (.direct tables) t offered (l :: below)
  named : columnName ∉ l.names
  skips : l.skip = some skip
  fresh : r ∉ aliases t (l :: below)

namespace Pair

variable {skip : Nat} (pair : Pair tables t offered base l below f gathered r skip)
include pair

theorem paged : l.isPaged = true := by
  simp [Layer.isPaged, pair.skips]

/-- What the inner layer offers besides row numbers. -/
theorem inner_spec : ∃ extra,
    Numbers (Meaning.direct tables).toGrammar ((l.numbering r).settled false [f.rel] gathered) l f.Sees
      ∧ ((l.numbering r).settled false [f.rel] gathered).columns = l.columns ++ l.number :: extra
      ∧ Widens (.direct tables) f (l.unpaged r) (l.widened r extra)
      ∧ columnName ∉ (l.widened r extra).names
      ∧ Offers (.direct tables) t offered (l.unpaged r :: below)
        (f.layer (.direct tables) (l.widened r extra))
        (inFront ((l.numbering r).passedOn false [f.rel] gathered).1 [])
      ∧ ∀ k ∈ (f.layer (.direct tables) (l.widened r extra)).keys (.direct tables)
          (inFront ((l.numbering r).passedOn false [f.rel] gathered).1 []),
        ∃ type : KeyType, ∀ row ∈ f.picked.filter (f.passes (.direct tables) l),
          type.admits (k.2 row) := by
  obtain ⟨extra, columns, numbers, wide, reads, free⟩ := numbering_spec pair.hoisted.toOffers
    pair.sound r pair.named pair.free
  refine ⟨extra, numbers, columns, wide, free, pair.hoisted.toOffers.layer wide
    (sound_forwarding pair.sound pair.fresh).2.2 reads _, fun k hk => ?_⟩
  obtain ⟨k', hk', values⟩ := wide.origin reads _ k hk
  obtain ⟨type, admits⟩ := pair.hoisted.typed_inFront pair.full pair.sound pair.uniform k' hk'
  exact ⟨type, fun row hr => values ▸ admits row hr⟩

/-- How the outer layer is evaluated over the inner one. -/
theorem outer_spec (outermost : Bool) {extra : List (ColumnDecl Expr)}
    {inner : Layer} {passed : List (Order Expr)} (rel : inner.rel = r)
    (numbers : Numbers (Meaning.direct tables).toGrammar inner l f.Sees)
    (columns : inner.columns = l.columns ++ l.number :: extra)
    (wide : Widens (.direct tables) f (l.unpaged r) (l.widened r extra))
    (offers : Offers (.direct tables) t offered (l.unpaged r :: below)
      (f.layer (.direct tables) (l.widened r extra)) passed)
    (typed : ∀ k ∈ (f.layer (.direct tables) (l.widened r extra)).keys (.direct tables) passed,
      ∃ type : KeyType, ∀ row ∈ f.picked.filter (f.passes (.direct tables) l), type.admits (k.2 row)) :
    ((l.paging r skip).settled outermost [r] passed).Evaluates (.direct tables)
      ∧ (numberedFeed tables f l inner).Typed (.direct tables)
        ((l.paging r skip).settled outermost [r] passed)
      ∧ (∀ x, (numberedFeed tables f l inner).made (.direct tables)
          ((l.paging r skip).settled outermost [r] passed) x
        = (f.layer (.direct tables) (l.widened r extra)).made (.direct tables)
          ((l.forwarding r).settled outermost [r] passed) x.1)
      ∧ ((∀ x ∈ (numberedFeed tables f l inner).picked, ∃ v,
          scalar tables (l.pageTest r skip) ((numberedFeed tables f l inner).view x) = .ok v) →
        ((numberedFeed tables f l inner).layer (.direct tables)
          ((l.paging r skip).settled outermost [r] passed)).picked.map (·.1)
        = sortWith (byKeys ((f.layer (.direct tables) (l.widened r extra)).keys (.direct tables)
            ((l.forwarding r).settled outermost [r] passed).orderBy))
          ((onPage (byKeys (f.keys (.direct tables) l.orderBy)) l
            (f.picked.filter (f.passes (.direct tables) l))).map (·.1))) := by
  have fits := settled_fits offers (sound_forwarding pair.sound pair.fresh) outermost
  have plain : ∀ d ∈ ((l.paging r skip).settled outermost [r] passed).columns,
      Plain True (f.layer (.direct tables) (l.widened r extra)).Sees d.expr := fun d hd => fits.column hd
  have orders : ∀ o ∈ ((l.paging r skip).settled outermost [r] passed).orderBy,
      Plain True (f.layer (.direct tables) (l.widened r extra)).Sees o.expr := fun o ho => fits.order ho
  refine ⟨evaluates_outer rfl plain orders, fun k hk => ?_,
    made_outer numbers columns wide rel plain,
    rows_outer numbers columns wide rel pair.skips rfl rfl orders⟩
  obtain ⟨o, ho, rfl⟩ := List.mem_map.mp hk
  have known : o ∈ passed := by
    cases outermost with
    | true => exact ho
    | false => cases ho
  obtain ⟨type, admits⟩ := typed _ (List.mem_map_of_mem known)
  refine ⟨type, fun x hx => ?_⟩
  have same : (Meaning.direct tables).value o.expr ((numberedFeed tables f l inner).view x)
      = (Meaning.direct tables).value o.expr
        ((f.layer (.direct tables) (l.widened r extra)).view x.1) :=
    (orders o ho).value_congr fun c hc => column_numberedFeed numbers columns wide rel x hc
  simp only [same]
  exact admits x.1 (List.fst_mem_of_mem_zipIdx (List.mem_of_mem_filter hx))

end Pair

structure Fed (tables : Tables) (t : Table) (offered : List String) (base : List Row) (s : Stack)
    (e : Expr) (gathered : List (Order Expr)) (f : Feed Row) : Prop where
  hoisted : Hoisted (.direct tables) t offered base s f gathered
  declares : e.declares = [f.rel]
  free : columnName ∉ f.names
  frames : ∀ {frames}, source tables e .root = .ok frames → frames = f.picked.map f.frame

section Steps

variable {e : Expr} (fed : Fed tables t offered base below e gathered f)
  (full : ∀ row ∈ base, Full offered row)
  (sound : Sound (Meaning.direct tables).toGrammar t offered (l :: below))
  (uniform : Uniform (.direct tables) t base (l :: below)) (named : columnName ∉ l.names)
include fed full sound uniform named

theorem Fed.keep : Fed tables t offered base (l :: below)
    (.select ((l.settled false [f.rel] gathered).above e))
    (inFront (l.passedOn false [f.rel] gathered).1 [])
    (f.layer (.direct tables) (l.settled false [f.rel] gathered)) := by
  obtain ⟨extra, columns, -, -, reads, names⟩ := passedOn_spec fed.hoisted.toOffers sound
  refine ⟨fed.hoisted.layer (settled_widens fed.hoisted.toOffers sound false) full sound uniform
    (l.orderBy_settled false [f.rel] gathered) reads, rfl, fun hn => ?_,
    Feed.frames_of_select (settled_fits fed.hoisted.toOffers sound false).evaluates
      (typed_settled full fed.hoisted sound uniform false) fed.frames⟩
  obtain ⟨d, hd, name⟩ := List.mem_map.mp hn
  rw [columns] at hd
  rcases List.mem_append.mp hd with hd | hd
  · exact named (name ▸ List.mem_map_of_mem hd)
  · exact names fed.free d hd name

end Steps

theorem Pair.frames_of_source {e : Expr} {skip : Nat} {P : Column → Prop}
    (pair : Pair tables t offered base l below f gathered r skip)
    (fed : Fed tables t offered base below e gathered f)
    (numbers : Numbers (Meaning.direct tables).toGrammar inner l P) {frames : List Frame}
    (h : source tables (.select (inner.above e)) .root = .ok frames) :
    frames = (numberedFeed tables f l inner).picked.map (numberedFeed tables f l inner).frame :=
  numbers.frames_of_source (pair.hoisted.typed_own pair.full pair.sound pair.uniform) fed.frames h

theorem Fed.page {e : Expr} {skip : Nat} (fed : Fed tables t offered base below e gathered f)
    (pair : Pair tables t offered base l below f gathered r skip) :
    ∃ f', Fed tables t offered base (l :: below)
      (.select (((l.paging r skip).settled false [r]
        (inFront ((l.numbering r).passedOn false [f.rel] gathered).1 [])).above
          (.select (((l.numbering r).settled false [f.rel] gathered).above e))))
      (inFront ((l.paging r skip).passedOn false [r]
        (inFront ((l.numbering r).passedOn false [f.rel] gathered).1 [])).1 []) f' := by
  obtain ⟨extra, numbers, columns, wide, free, offers, typed⟩ := pair.inner_spec
  generalize inFront ((l.numbering r).passedOn false [f.rel] gathered).1 [] = passed at offers typed
  obtain ⟨evaluates, typed', made, rows⟩ := pair.outer_spec false rfl numbers columns wide offers typed
  have sound' := sound_forwarding pair.sound pair.fresh
  have wide' := settled_widens offers sound' false
  obtain ⟨extra', columns', -, -, reads', names'⟩ := passedOn_spec offers sound'
  have offers' := (offers.layer wide' sound' reads' ((onPage (byKeys (f.keys (.direct tables) l.orderBy)) l
    (f.picked.filter (f.passes (.direct tables) l))).map (·.1))).of_forwarding pair.sound pair.fresh
  have inBase : ∀ row ∈ f.picked.filter (f.passes (.direct tables) l), Full offered row :=
    fun row hr => pair.full row (pair.hoisted.mem_base (List.mem_of_mem_filter hr))
  have onPage_sub : ∀ row ∈ (onPage (byKeys (f.keys (.direct tables) l.orderBy)) l
      (f.picked.filter (f.passes (.direct tables) l))).map (·.1),
      row ∈ f.picked.filter (f.passes (.direct tables) l) := by
    intro row hr
    obtain ⟨x, hx, rfl⟩ := List.mem_map.mp hr
    exact List.fst_mem_of_mem_zipIdx (List.mem_of_mem_filter hx)
  refine ⟨_, ⟨offers', ?_, fun k hk => ?_⟩, rfl, fun hn => ?_, fun {frames} h => ?_⟩
  · exact picked_page pair.hoisted pair.full pair.sound pair.refined pair.paged
      fun row hr row' hr' => offers'.order row row' (inBase row hr) (inBase row' hr')
  · obtain ⟨k', hk', values⟩ := wide'.origin reads' _ k hk
    obtain ⟨type, admits⟩ := typed k' hk'
    exact ⟨type, fun row hr => values ▸ admits row (onPage_sub row hr)⟩
  · obtain ⟨d, hd, name⟩ := List.mem_map.mp hn
    rw [columns'] at hd
    rcases List.mem_append.mp hd with hd | hd
    · obtain ⟨d', hd', rfl⟩ := List.mem_map.mp hd
      have name : d'.name = columnName := name
      exact pair.named (name ▸ List.mem_map_of_mem hd')
    · exact names' free d hd name
  · have frames_eq := Feed.frames_of_select evaluates typed' (pair.frames_of_source fed numbers) h
    rw [source] at h
    obtain ⟨_, selected, -⟩ := bind_eq_ok.mp h
    have rows := rows (Feed.tested_of_select evaluates rfl (pair.frames_of_source fed numbers) selected)
    have unordered : ((l.forwarding r).settled false [r] passed).orderBy = [] := rfl
    rw [unordered, Feed.keys, List.map_nil, sortWith_nil] at rows
    rw [frames_eq, ← rows, List.map_map]
    refine List.map_congr_left fun x _ => ?_
    simp only [Feed.frame, Function.comp_def]
    exact congrArg (fun row => [(l.rel, some row)]) (made x)

theorem hoist_number {G : Grammar} {P : Column → Prop} (fits : l.Fits G P) (orders : List (Order Expr)) :
    (l.number.expr.hoist false).run orders = (l.number.expr, orders) := by
  let Y := Yields.ofState (List (Order Expr))
  have each : ∀ o ∈ l.orderBy, Y.gives orders (do
      return { o with expr := ← o.expr.hoist false }) o orders := fun o ho =>
    Y.bind ((fits.order ho).hoist_run false orders) (Y.pure _ _)
  have all := Y.mapM_map each
  rw [List.map_id'] at all
  rw [Layer.number, Expr.hoist]
  · simp only [Expr.hidesOrder, Bool.false_eq_true, if_false, Expr.traverse, List.mapM_subtype,
      List.unattach_attach]
    exact Y.bind all (Y.pure _ _)
  all_goals simp

theorem hoist_numbering {G : Grammar} {P : Column → Prop} (fits : l.Fits G P) {source source' : Expr}
    (walked : (source.hoist false).run [] = (source', gathered)) :
    (((l.numbering r).above source).hoist false).run []
      = (((l.numbering r).settled false source'.declares gathered).above source',
        inFront ((l.numbering r).passedOn false source'.declares gathered).1 []) := by
  refine Layer.hoist_run (fun e he => ?_) (Layer.hasNoAggregates fun e he => ?_) walked false
  · rcases Layer.mem_exprs_numbering he with he | rfl
    · exact (fits.plain e he).hoist_run false gathered
    · exact hoist_number fits gathered
  · rcases Layer.mem_exprs_numbering he with he | rfl
    · exact (fits.plain e he).hasNoAggregates
    · exact fits.hasNoAggregates_number

theorem hoist_paging {skip : Nat} {source source' : Expr}
    (walked : (source.hoist false).run [] = (source', gathered)) (outermost : Bool) :
    (((l.paging r skip).above source).hoist outermost).run []
      = (((l.paging r skip).settled outermost source'.declares gathered).above source',
        inFront ((l.paging r skip).passedOn outermost source'.declares gathered).1 []) := by
  have clauses : ∀ e ∈ (l.paging r skip).exprs,
      Plain False (fun _ => True) e ∨ e = l.pageTest r skip := by
    intro e he
    simp only [Layer.exprs, Layer.paging, Layer.forwarding, List.map_map, Option.toList_some,
      List.map_nil, List.append_nil, List.mem_append, List.mem_map, List.mem_singleton] at he
    rcases he with ⟨d, -, rfl⟩ | he
    · exact .inl (.column trivial)
    · exact .inr he
  refine Layer.hoist_run (fun e he => ?_) (Layer.hasNoAggregates fun e he => ?_) walked outermost
  · rcases clauses e he with plain | rfl
    · exact plain.hoist_run false gathered
    · exact hoist_pageTest skip gathered
  · rcases clauses e he with plain | rfl
    · exact plain.hasNoAggregates
    · exact hasNoAggregates_pageTest skip

/-- The walk over both layers. -/
theorem hoist_pair {G : Grammar} {P : Column → Prop} (fits : l.Fits G P) (skip : Nat)
    {source source' : Expr} (walked : (source.hoist false).run [] = (source', gathered))
    (outermost : Bool) :
    (((l.paging r skip).above (.select ((l.numbering r).above source))).hoist outermost).run []
      = (((l.paging r skip).settled outermost [r]
          (inFront ((l.numbering r).passedOn false source'.declares gathered).1 [])).above
            (.select (((l.numbering r).settled false source'.declares gathered).above source')),
        inFront ((l.paging r skip).passedOn outermost [r]
          (inFront ((l.numbering r).passedOn false source'.declares gathered).1 [])).1 []) := by
  let Y := Yields.ofState (List (Order Expr))
  have inner : ((Expr.select ((l.numbering r).above source)).hoist false).run []
      = (.select (((l.numbering r).settled false source'.declares gathered).above source'),
        inFront ((l.numbering r).passedOn false source'.declares gathered).1 []) := by
    rw [Expr.hoist]
    · exact Y.bind (hoist_numbering fits walked) (Y.pure _ _)
    all_goals simp
  exact hoist_paging inner outermost

/-- What is read from a stack after both passes. -/
theorem hoist_numbered {s s' : Stack} {taken : List Alias} (numbered : Numbered taken s s')
    (full : ∀ row ∈ base, Full offered row) (hbase : tables.get? t.name = some base)
    (sound : Sound (Meaning.direct tables).toGrammar t offered s)
    (uniform : Uniform (.direct tables) t base s) (refined : Refined (.direct tables) t offered s)
    (named : Unnumbered offered s) (aliases : aliases t s ⊆ taken) :
    ∃ e gathered f, ((tree t s').hoist false).run [] = (e, gathered)
      ∧ Fed tables t offered base s e gathered f := by
  let Y := Yields.ofState (List (Order Expr))
  induction numbered with
  | nil =>
    refine ⟨.table t, [], feed (.direct tables) t offered base [], ?_, ⟨⟨rfl, fun _ hn => hn,
      fun row hr c hc => column_view (M := .direct tables) (s := []) trivial hr hc,
      fun _ _ _ _ => rfl, by simp, fun _ _ _ _ => rfl⟩, (sortWith_nil _).symm, by simp [Feed.keys]⟩,
      rfl, named.1, fun {frames} h => ?_⟩
    · rw [tree, Expr.hoist] <;> first | rfl | simp
    · exact Stack.frames_of_source (s := []) hbase trivial trivial h
  | @keep l below below' skip numbered ih =>
    obtain ⟨e, gathered, f, walked, fed⟩ := ih sound.2.2 uniform.2 refined.2
      ⟨named.1, fun l hl => named.2 l (by simp [hl])⟩ fun a ha => aliases (by
        simp only [Stack.aliases, List.map_cons, List.mem_cons] at ha ⊢
        exact ha.imp_right .inr)
    have run := sound.2.1.hoist_run walked false
    rw [fed.declares] at run
    refine ⟨_, _, _, ?_, fed.keep full sound uniform (named.2 l (by simp))⟩
    rw [tree, Expr.hoist]
    · exact Y.bind run (Y.pure _ _)
    all_goals simp
  | @page l below below' skip r skips new numbered ih =>
    obtain ⟨e, gathered, f, walked, fed⟩ := ih sound.2.2 uniform.2 refined.2
      ⟨named.1, fun l hl => named.2 l (by simp [hl])⟩ fun a ha => aliases (by
        simp only [Stack.aliases, List.map_cons, List.mem_cons] at ha ⊢
        exact ha.imp_right .inr)
    have run := hoist_pair (r := r) sound.2.1 skip walked false
    rw [fed.declares] at run
    obtain ⟨f', fed'⟩ := fed.page ⟨full, fed.hoisted, fed.free, sound, uniform, refined,
      named.2 l (by simp), skips, fun h => new (aliases h)⟩
    refine ⟨_, _, f', ?_, fed'⟩
    rw [tree, Expr.hoist]
    · exact Y.bind run (Y.pure _ _)
    all_goals simp

section Outermost

variable {e projector : Expr} {v : ClientValue}

theorem execute_keep (fed : Fed tables t offered base below e gathered f)
    (full : ∀ row ∈ base, Full offered row)
    (sound : Sound (Meaning.direct tables).toGrammar t offered (l :: below))
    (uniform : Uniform (.direct tables) t base (l :: below))
    (plain : Plain True (Sees t offered (l :: below)) projector)
    (h : (Expr.projection ⟨(l.settled true [f.rel] gathered).above e, projector, none⟩).execute tables
      = .ok v) :
    ∃ values, v = .list values
      ∧ objects (.direct tables) t base (l :: below) projector = values.map some := by
  have wide := settled_widens fed.hoisted.toOffers sound true
  obtain ⟨values, rfl, objects_eq⟩ := Feed.execute_ok (M := .direct tables)
    (f := f.layer (.direct tables) (l.settled true [f.rel] gathered)) rfl
    (Feed.rows_of_select (settled_fits fed.hoisted.toOffers sound true).evaluates
      (typed_settled full fed.hoisted sound uniform true) fed.frames) plain h
  refine ⟨values, rfl, ?_⟩
  have rows : (f.layer (.direct tables) (l.settled true [f.rel] gathered)).picked
      = picked (.direct tables) t base (l :: below) := (fed.hoisted.picked_layer full sound).symm
  rw [← objects_eq, objects, rows]
  refine List.map_congr_left fun row hr => ?_
  exact (plain.object_congr fun c hc =>
    wide.same fed.hoisted.toOffers sound (full row (mem_of_mem_picked hr)) hc).symm

theorem execute_page {skip : Nat} (fed : Fed tables t offered base below e gathered f)
    (pair : Pair tables t offered base l below f gathered r skip)
    (plain : Plain True (Sees t offered (l :: below)) projector)
    (h : (Expr.projection ⟨((l.paging r skip).settled true [r]
        (inFront ((l.numbering r).passedOn false [f.rel] gathered).1 [])).above
          (.select (((l.numbering r).settled false [f.rel] gathered).above e)), projector, none⟩).execute
            tables = .ok v) :
    ∃ values, v = .list values
      ∧ objects (.direct tables) t base (l :: below) projector = values.map some := by
  obtain ⟨extra, numbers, columns, wide, free, offers, typed⟩ := pair.inner_spec
  generalize inFront ((l.numbering r).passedOn false [f.rel] gathered).1 [] = passed at offers typed h
  obtain ⟨evaluates, typed', made, rows⟩ := pair.outer_spec true rfl numbers columns wide offers typed
  have sound' := sound_forwarding pair.sound pair.fresh
  have wide' := settled_widens offers sound' true
  have inBase : ∀ row ∈ f.picked.filter (f.passes (.direct tables) l), Full offered row :=
    fun row hr => pair.full row (pair.hoisted.mem_base (List.mem_of_mem_filter hr))
  obtain ⟨_, selected⟩ := Feed.select_of_execute h
  have rows := rows (Feed.tested_of_select evaluates rfl (pair.frames_of_source fed numbers) selected)
  obtain ⟨values, rfl, objects_eq⟩ := Feed.execute_ok (M := .direct tables)
    (f := (numberedFeed tables f l ((l.numbering r).settled false [f.rel] gathered)).layer
      (.direct tables) ((l.paging r skip).settled true [r] passed)) rfl
    (Feed.rows_of_select evaluates typed' (pair.frames_of_source fed numbers)) plain h
  refine ⟨values, rfl, ?_⟩
  have picked_eq := picked_page pair.hoisted pair.full pair.sound pair.refined pair.paged
    fun row hr row' hr' => offers.order row row' (inBase row hr) (inBase row' hr')
  have ordered : ((l.forwarding r).settled true [r] passed).orderBy = passed := rfl
  rw [ordered, ← picked_eq] at rows
  have each : ∀ x ∈ ((numberedFeed tables f l ((l.numbering r).settled false [f.rel] gathered)).layer
      (.direct tables) ((l.paging r skip).settled true [r] passed)).picked,
      (Meaning.direct tables).object projector (view (.direct tables) t (l :: below) x.1)
        = (Meaning.direct tables).object projector (((numberedFeed tables f l
          ((l.numbering r).settled false [f.rel] gathered)).layer (.direct tables)
            ((l.paging r skip).settled true [r] passed)).view x) := by
    intro x hx
    have inBase : Full offered x.1 := by
      refine pair.full x.1 (mem_of_mem_picked (M := .direct tables) (t := t) (s := l :: below) ?_)
      rw [← rows]
      exact List.mem_map_of_mem hx
    refine plain.object_congr fun c hc => ?_
    obtain ⟨sees, same⟩ := column_forwarding pair.sound pair.fresh x.1 hc
    rw [← same, ← wide'.same offers sound' inBase sees]
    exact congrArg (fun row => (Scope.root.bind l.rel row).column c) (made x).symm
  rw [← objects_eq, objects, ← rows, List.map_map]
  exact List.map_congr_left each

end Outermost

/-- A projection that pages by row numbers makes the same objects. -/
theorem execute_numbered {projector : Expr} {supply : Supply} (full : ∀ row ∈ base, Full offered row)
    (hbase : tables.get? t.name = some base)
    (sound : Sound (Meaning.direct tables).toGrammar t offered (l :: below))
    (uniform : Uniform (.direct tables) t base (l :: below))
    (refined : Refined (.direct tables) t offered (l :: below))
    (named : Unnumbered offered (l :: below)) (drawn : Drawn supply (aliases t (l :: below)))
    (plain : Plain True (Sees t offered (l :: below)) projector) {v : ClientValue}
    (h : ((Expr.projection (projected t l below projector)).skipByRowNumbers.run
      supply).1.hoistOrderings.execute tables = .ok v) :
    ∃ values, v = .list values
      ∧ objects (.direct tables) t base (l :: below) projector = values.map some := by
  obtain ⟨l', below', supply', run, numbered⟩ := skipByRowNumbers_run sound named plain drawn
  rw [run] at h
  have inside : aliases t below ⊆ aliases t (l :: below) := by
    simp only [aliases, List.map_cons]
    exact List.cons_subset_cons _ (List.subset_cons_self _ _)
  have lower : Unnumbered offered below := ⟨named.1, fun l hl => named.2 l (by simp [hl])⟩
  cases numbered with
  | keep skip numbered =>
    obtain ⟨e, gathered, f, walked, fed⟩ := hoist_numbered numbered full hbase sound.2.2 uniform.2
      refined.2 lower inside
    have run := sound.2.1.hoist_run walked true
    rw [fed.declares] at run
    rw [projected, hoistOrderings_projection run plain] at h
    exact execute_keep fed full sound uniform plain h
  | @page _ _ _ skip r skips new numbered =>
    obtain ⟨e, gathered, f, walked, fed⟩ := hoist_numbered numbered full hbase sound.2.2 uniform.2
      refined.2 lower inside
    have run := hoist_pair (r := r) sound.2.1 skip walked true
    rw [fed.declares] at run
    rw [projected, tree, hoistOrderings_projection run plain] at h
    exact execute_page fed ⟨full, fed.hoisted, fed.free, sound, uniform, refined,
      named.2 l (by simp), skips, new⟩ plain h

end Stack

end ObjectQuery
