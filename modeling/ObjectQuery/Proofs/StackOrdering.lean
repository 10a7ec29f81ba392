import ObjectQuery.Proofs.Naming
import ObjectQuery.Proofs.Nodes
import ObjectQuery.Proofs.StackSimulation
import ObjectQuery.Proofs.StackWalk

/-!
Orderings that are moved up a stack. What the layers below have gathered orders the rows as they
did: a layer that pages or stands outermost orders by all of it, and the others leave their rows as
they come and pass the orderings on as columns.
-/

namespace ObjectQuery

open Eval Orderings

namespace ColumnDecl

variable {columns : List (ColumnDecl Expr)} {e : Expr}

/-- A column that computes the expression is there, at most one column is new. -/
theorem provide_spec (base : String) (exact : (Part.expr e).Every Part.Exact)
    (nodup : (columns.map (·.name)).Nodup) :
    ∃ extra, (provide columns base e).2 = columns ++ extra
      ∧ (provide columns base e).1 ∈ columns ++ extra ∧ (provide columns base e).1.expr = e
      ∧ (∀ d ∈ extra, d.expr = e ∧ d.name = Names.available (columns.map (·.name)) base)
      ∧ ((columns ++ extra).map (·.name)).Nodup := by
  rw [provide]
  cases found : columns.find? (·.expr == e) with
  | some d =>
    have mem := List.mem_of_find?_eq_some found
    exact ⟨[], by simp, by simpa using mem,
      Expr.eq_of_same exact (List.find?_some found :), by simp, by simpa using nodup⟩
  | none =>
    obtain ⟨-, -, free⟩ := Names.available_spec (columns.map (·.name)) base
    refine ⟨[of (Names.available (columns.map (·.name)) base) e], rfl, by simp, rfl,
      by simp [of], ?_⟩
    rw [List.map_append, List.nodup_append]
    refine ⟨nodup, by simp, fun a ha b hb => ?_⟩
    rintro rfl
    rw [List.map_singleton, List.mem_singleton] at hb
    rw [hb] at ha
    exact free ha

end ColumnDecl

namespace Orderings

open ColumnDecl

variable {declared : List Alias} {orders : List (Order Expr)} {columns : List (ColumnDecl Expr)}

def ReadFrom (rel : Alias) (columns : List (ColumnDecl Expr)) (passed orders : List (Order Expr)) :
    Prop :=
  List.Forall₂ (fun p o => p.direction = o.direction ∧ ∃ d ∈ columns, ∃ type, d.expr = o.expr
    ∧ p.expr = .column ⟨rel, d.name, type⟩) passed orders

theorem ReadFrom.mono {rel : Alias} {columns' : List (ColumnDecl Expr)} {passed : List (Order Expr)}
    (h : ReadFrom rel columns passed orders)
    (kept : ∀ d ∈ columns, ∀ o ∈ orders, d.expr = o.expr → d ∈ columns') :
    ReadFrom rel columns' passed orders := by
  induction h with
  | nil => exact .nil
  | @cons p o _ rest head _ ih =>
    obtain ⟨direction, d, hd, type, expr, target⟩ := head
    exact .cons ⟨direction, d, kept d hd o (by simp) expr, type, expr, target⟩
      (ih fun d hd o ho => kept d hd o (by simp [ho]))

theorem baseName_ne {e : Expr} (n : Nat)
    (h : ∀ c, e = .column c → c.name ≠ RowNumbers.columnName) :
    e.baseName ("c" ++ toString n) ≠ RowNumbers.columnName := by
  cases e with
  | column c => exact h c rfl
  | _ => exact Names.append_toString_ne_columnName "c" n

theorem through_spec (rel : Alias)
    (inside : ∀ o ∈ orders, o.expr.isColumnOutside declared = false)
    (exact : ∀ o ∈ orders, (Part.expr o.expr).Every Part.Exact)
    (nodup : (columns.map (·.name)).Nodup) :
    ∃ extra, (through rel declared orders columns).2 = columns ++ extra
      ∧ (∀ d ∈ extra, ∃ o ∈ orders, d.expr = o.expr)
      ∧ ((columns ++ extra).map (·.name)).Nodup
      ∧ ReadFrom rel (columns ++ extra) (through rel declared orders columns).1 orders
      ∧ ((∀ o ∈ orders, ∀ c, o.expr = .column c → c.name ≠ RowNumbers.columnName) →
        ∀ d ∈ extra, d.name ≠ RowNumbers.columnName) := by
  induction orders generalizing columns with
  | nil => exact ⟨[], by simp [through], by simp, by simpa using nodup, .nil, by simp⟩
  | cons o rest ih =>
    rw [through, if_neg (by simp [inside o (by simp)])]
    obtain ⟨extra, all, mem, expr, new, nodup'⟩ := provide_spec
      (o.expr.baseName ("c" ++ toString columns.length)) (exact o (by simp)) nodup
    generalize provide columns (o.expr.baseName ("c" ++ toString columns.length)) o.expr = provided
      at all mem expr
    obtain ⟨d, provided⟩ := provided
    simp only at all mem expr ⊢
    subst all
    obtain ⟨extra', all', origin, nodup'', reads, named⟩ := ih (fun o ho => inside o (by simp [ho]))
      (fun o ho => exact o (by simp [ho])) nodup'
    refine ⟨extra ++ extra', ?_, ?_, ?_, ?_, ?_⟩
    · rw [← List.append_assoc]
      exact all'
    · intro d' hd'
      rcases List.mem_append.mp hd' with hd' | hd'
      · exact ⟨o, by simp, (new d' hd').1⟩
      · obtain ⟨o', ho', h⟩ := origin d' hd'
        exact ⟨o', by simp [ho'], h⟩
    · rwa [← List.append_assoc]
    · rw [← List.append_assoc]
      exact .cons ⟨rfl, d, List.mem_append_left _ mem, d.type, expr, rfl⟩ reads
    · intro names d' hd'
      rcases List.mem_append.mp hd' with hd' | hd'
      · rw [(new d' hd').2]
        exact Names.available_ne (baseName_ne _ (names o (by simp)))
      · exact named (fun o ho => names o (by simp [ho])) d' hd'

theorem mem_of_mem_withoutRepeats {seen : List (Alias × String)} {o : Order Expr}
    (h : o ∈ withoutRepeats seen orders) : o ∈ orders := by
  fun_induction withoutRepeats seen orders with
  | case1 => exact h
  | case2 _ _ _ _ _ _ ih => exact List.mem_cons_of_mem _ (ih h)
  | case3 _ _ _ _ _ _ ih =>
    rcases List.mem_cons.mp h with rfl | h
    · exact List.mem_cons_self
    · exact List.mem_cons_of_mem _ (ih h)
  | case4 _ _ _ _ ih =>
    rcases List.mem_cons.mp h with rfl | h
    · exact List.mem_cons_self
    · exact List.mem_cons_of_mem _ (ih h)

theorem mem_of_mem_inFront {first gathered : List (Order Expr)} {o : Order Expr}
    (h : o ∈ inFront first gathered) : o ∈ first ++ gathered := by
  rw [inFront] at h
  split at h
  · exact List.mem_append_right _ h
  · exact mem_of_mem_withoutRepeats h

section Repeats

def keysBy {α : Type} (value : Expr → α → Value) (orders : List (Order Expr)) :
    List (Direction × (α → Value)) :=
  orders.map fun o => (o.direction, value o.expr)

variable {α : Type} {value : Expr → α → Value} (read : Alias × String → α → Value) {a b : α}

/-- Leaving out keys that were compared before changes nothing, where a column is what its relation and
its name tell. -/
theorem keysBy_withoutRepeats {seen : List (Alias × String)}
    (reads : ∀ o ∈ orders, ∀ c, o.expr = .column c → value o.expr a = read (c.rel, c.name) a
      ∧ value o.expr b = read (c.rel, c.name) b)
    (ties : ∀ k ∈ seen, Value.totalOrder (read k a) (read k b) = .eq) :
    byKeys (keysBy value (withoutRepeats seen orders)) a b = byKeys (keysBy value orders) a b := by
  fun_induction withoutRepeats seen orders with
  | case1 => rfl
  | case2 seen o rest c hc known ih =>
    rw [ih (fun o ho => reads o (by simp [ho])) ties]
    have tie : directed o.direction (value o.expr a) (value o.expr b) = .eq := by
      obtain ⟨ha, hb⟩ := reads o (by simp) c hc
      rw [directed_eq_iff, ha, hb]
      exact ties _ (by simpa using known)
    simp only [keysBy, List.map_cons, byKeys, compareLex, tie]
    rfl
  | case3 seen o rest c hc new ih =>
    simp only [keysBy, List.map_cons, byKeys, compareLex] at ih ⊢
    cases first : directed o.direction (value o.expr a) (value o.expr b) with
    | eq =>
      refine ih (fun o ho => reads o (by simp [ho])) fun k hk => ?_
      rcases List.mem_cons.mp hk with rfl | hk
      · obtain ⟨ha, hb⟩ := reads o (by simp) c hc
        rw [← ha, ← hb]
        exact directed_eq_iff.mp first
      · exact ties k hk
    | lt => rfl
    | gt => rfl
  | case4 seen o rest other ih =>
    simp only [keysBy, List.map_cons, byKeys, compareLex] at ih ⊢
    exact congrArg _ (ih (fun o ho => reads o (by simp [ho])) ties)

/-- Orderings that come first decide first. -/
theorem keysBy_inFront {first gathered : List (Order Expr)}
    (reads : ∀ o ∈ first ++ gathered, ∀ c, o.expr = .column c → value o.expr a = read (c.rel, c.name) a
      ∧ value o.expr b = read (c.rel, c.name) b) :
    byKeys (keysBy value (inFront first gathered)) a b
      = (byKeys (keysBy value first) a b).then (byKeys (keysBy value gathered) a b) := by
  have all : byKeys (keysBy value (first ++ gathered)) a b
      = (byKeys (keysBy value first) a b).then (byKeys (keysBy value gathered) a b) := by
    rw [keysBy, List.map_append, byKeys_append]
    rfl
  rw [← all, inFront]
  split
  · rename_i empty
    rw [List.isEmpty_iff.mp empty, List.nil_append]
  · exact keysBy_withoutRepeats read reads (by simp)

variable {tables : Tables} {M : Meaning tables} {f : Feed Row} {row row' : Row}

theorem byKeys_inFront {first gathered : List (Order Expr)}
    (plain : ∀ o ∈ first ++ gathered, Plain M.members f.Sees o.expr)
    (reads : ∀ c, f.Sees c → ∃ v, (f.view row).column c = .ok v)
    (reads' : ∀ c, f.Sees c → ∃ v, (f.view row').column c = .ok v) :
    byKeys (f.keys M (inFront first gathered)) row row'
      = (byKeys (f.keys M first) row row').then (byKeys (f.keys M gathered) row row') := by
  -- a column is read by its relation and its name, whatever its type
  let read (k : Alias × String) (row : Row) : Value := M.value (.column ⟨k.1, k.2, .unknown⟩) (f.view row)
  have named : ∀ {row c}, (∃ v, (f.view row).column c = .ok v) →
      M.value (.column c) (f.view row) = read (c.rel, c.name) row := by
    rintro row c ⟨v, hv⟩
    have hv' : (f.view row).column ⟨c.rel, c.name, .unknown⟩ = .ok v := hv
    rw [M.value_column hv, ← M.value_column hv']
  have keys : ∀ orders, f.keys M orders = keysBy (fun e row => M.value e (f.view row)) orders := fun _ => rfl
  rw [keys, keys, keys]
  refine keysBy_inFront read fun o ho c hc => ?_
  have sees : f.Sees c := by
    have := plain o ho
    rw [hc] at this
    cases this with
    | column h => exact h
  rw [hc]
  exact ⟨named (reads c sees), named (reads' c sees)⟩

end Repeats

end Orderings

namespace Stack

variable {tables : Tables} {M : Meaning tables} {t : Table} {offered : List String}
  {base : List Row} {l l' : Layer} {s below : Stack} {f : Feed Row}
  {gathered : List (Order Expr)}

structure Offers (M : Meaning tables) (t : Table) (offered : List String) (s : Stack) (f : Feed Row)
    (gathered : List (Order Expr)) : Prop where
  rel : f.rel = top t s
  names : ∀ n ∈ offers offered s, n ∈ f.names
  reads : ∀ row, Full offered row → ∀ c, f.Sees c → ∃ v, (f.view row).column c = .ok v
  same : ∀ row, Full offered row → ∀ c, Sees t offered s c →
    (f.view row).column c = (view M t s row).column c
  plain : ∀ o ∈ gathered, Plain M.members f.Sees o.expr
  order : ∀ row row', Full offered row → Full offered row' →
    byKeys (f.keys M gathered) row row' = order M t s row row'

structure Hoisted (M : Meaning tables) (t : Table) (offered : List String) (base : List Row)
    (s : Stack) (f : Feed Row) (gathered : List (Order Expr)) : Prop
    extends Offers M t offered s f gathered where
  picked : picked M t base s = sortWith (byKeys (f.keys M gathered)) f.picked
  typed : ∀ k ∈ f.keys M gathered, ∃ type : KeyType, ∀ row ∈ f.picked, type.admits (k.2 row)

namespace Offers

theorem sees (h : Offers M t offered s f gathered) {c : Column} (hc : Sees t offered s c) :
    f.Sees c :=
  ⟨hc.1.trans h.rel.symm, h.names c.name hc.2⟩

theorem carried (h : Offers M t offered s f gathered) (sound : Sound M.toGrammar t offered s) {row : Row}
    (full : Full offered row) (c : Column) (hc : Sees t offered s c) :
    ∃ v, (view M t s row).column c = .ok v ∧ Reads M.constants (f.view row) (.column c) v := by
  obtain ⟨v, hv⟩ := column_view sound full hc
  exact ⟨v, hv, .inl ⟨c, rfl, (h.same row full c hc).trans hv⟩⟩

theorem value (h : Offers M t offered s f gathered) (sound : Sound M.toGrammar t offered s) {row : Row}
    (full : Full offered row) {e : Expr} (plain : Plain M.members (Sees t offered s) e) :
    M.value e (f.view row) = M.value e (view M t s row) := by
  have := M.value_replace plain (h.carried sound full)
  rwa [plain.replace_self] at this

/-- A layer reads from the feed what it reads from the stack. -/
theorem passes (h : Offers M t offered below f gathered) (sound : Sound M.toGrammar t offered (l :: below))
    {row : Row} (full : Full offered row) : f.passes M l row = Stack.passes M t l below row := by
  rw [Feed.passes, Stack.passes]
  cases hf : l.filter with
  | none => rfl
  | some e => simp [h.value sound.2.2 full (sound.2.1.filter hf)]

theorem keys (h : Offers M t offered below f gathered) (sound : Sound M.toGrammar t offered (l :: below)) :
    List.Forall₂ (fun k k' => k.1 = k'.1 ∧ ∀ row, Full offered row → k.2 row = k'.2 row)
      (f.keys M l.orderBy) (Stack.keys M t l below) := by
  rw [Feed.keys, Stack.keys, List.forall₂_map_left_iff, List.forall₂_map_right_iff, List.forall₂_same]
  exact fun o ho => ⟨rfl, fun row full => h.value sound.2.2 full (sound.2.1.order ho)⟩

/-- With its own ordering in front, a layer orders by all that was gathered. -/
theorem inFront (h : Offers M t offered below f gathered) (sound : Sound M.toGrammar t offered (l :: below)) :
    (∀ o ∈ Orderings.inFront l.orderBy gathered, Plain M.members f.Sees o.expr)
    ∧ ∀ row row', Full offered row → Full offered row' →
      byKeys (f.keys M (Orderings.inFront l.orderBy gathered)) row row'
        = Stack.order M t (l :: below) row row' := by
  have plain : ∀ o ∈ l.orderBy ++ gathered, Plain M.members f.Sees o.expr := by
    intro o ho
    rcases List.mem_append.mp ho with ho | ho
    · exact (sound.2.1.order ho).mono id fun _ hc => h.sees hc
    · exact h.plain o ho
  refine ⟨fun o ho => plain o (mem_of_mem_inFront ho), fun row row' hr hr' => ?_⟩
  rw [byKeys_inFront plain (h.reads row hr) (h.reads row' hr'), h.order row row' hr hr',
    byKeys_of_same (h.keys sound) hr hr']
  rfl

end Offers

namespace Hoisted

/-- The rows of the feed are rows of the table. -/
theorem mem_base (h : Hoisted M t offered base s f gathered) {row : Row} (hr : row ∈ f.picked) :
    row ∈ base :=
  mem_of_mem_picked (by rw [h.picked]; exact mem_sortWith.mpr hr)

theorem filter_eq (h : Hoisted M t offered base below f gathered)
    (full : ∀ row ∈ base, Full offered row) (sound : Sound M.toGrammar t offered (l :: below)) :
    (Stack.picked M t base below).filter (Stack.passes M t l below)
      = sortWith (byKeys (f.keys M gathered)) (f.picked.filter (f.passes M l)) := by
  rw [h.picked, sortWith_filter]
  refine List.filter_congr fun row hr => ?_
  exact (h.passes sound (full row (h.mem_base (mem_sortWith.mp hr)))).symm

/-- The rows of a layer, by all that was gathered. -/
theorem picked_layer (h : Hoisted M t offered base below f gathered)
    (full : ∀ row ∈ base, Full offered row) (sound : Sound M.toGrammar t offered (l :: below)) :
    Stack.picked M t base (l :: below) = l.page (sortWith
      (byKeys (f.keys M (Orderings.inFront l.orderBy gathered))) (f.picked.filter (f.passes M l))) := by
  have inBase : ∀ row ∈ f.picked.filter (f.passes M l), Full offered row := fun row hr =>
    full row (h.mem_base (List.mem_of_mem_filter hr))
  rw [Stack.picked, h.filter_eq full sound, sortWith_sortWith]
  congr 1
  refine sortWith_congr fun row hr row' hr' => ?_
  rw [(h.inFront sound).2 row row' (inBase row hr) (inBase row' hr')]
  simp only [compareLex, order, h.order row row' (inBase row hr) (inBase row' hr')]

/-- The keys of a layer are null or of one type on its rows. -/
theorem typed_own (h : Hoisted M t offered base below f gathered)
    (full : ∀ row ∈ base, Full offered row) (sound : Sound M.toGrammar t offered (l :: below))
    (uniform : Uniform M t base (l :: below)) :
    ∀ k ∈ f.keys M l.orderBy, ∃ type : KeyType,
      ∀ row ∈ f.picked.filter (f.passes M l), type.admits (k.2 row) := by
  intro k hk
  obtain ⟨o, ho, rfl⟩ := List.mem_map.mp hk
  obtain ⟨type, admits⟩ := uniform.1 _ (List.mem_map_of_mem ho)
  refine ⟨type, fun row hr => ?_⟩
  have value := h.value sound.2.2 (full row (h.mem_base (List.mem_of_mem_filter hr)))
    (sound.2.1.order ho)
  simp only [value]
  exact admits row (by rw [h.filter_eq full sound]; exact mem_sortWith.mpr hr)

/-- So is all that was gathered. -/
theorem typed_inFront (h : Hoisted M t offered base below f gathered)
    (full : ∀ row ∈ base, Full offered row) (sound : Sound M.toGrammar t offered (l :: below))
    (uniform : Uniform M t base (l :: below)) :
    ∀ k ∈ f.keys M (Orderings.inFront l.orderBy gathered), ∃ type : KeyType,
      ∀ row ∈ f.picked.filter (f.passes M l), type.admits (k.2 row) := by
  intro k hk
  obtain ⟨o, ho, rfl⟩ := List.mem_map.mp hk
  rcases List.mem_append.mp (mem_of_mem_inFront ho) with ho | ho
  · exact h.typed_own full sound uniform _ (List.mem_map_of_mem ho)
  · obtain ⟨type, admits⟩ := h.typed _ (List.mem_map_of_mem ho)
    exact ⟨type, fun row hr => admits row (List.mem_of_mem_filter hr)⟩

end Hoisted

structure Widens (M : Meaning tables) (f : Feed Row) (l l' : Layer) : Prop where
  rel : l'.rel = l.rel
  columns : ∃ extra, l'.columns = l.columns ++ extra
  filter : l'.filter = l.filter
  skip : l'.skip = l.skip
  take : l'.take = l.take
  plain : ∀ d ∈ l'.columns, Plain M.members f.Sees d.expr
  nodup : l'.names.Nodup

section Layers

variable {passed : List (Order Expr)} (wide : Widens M f l l')
include wide

theorem Widens.mem {d : ColumnDecl Expr} (hd : d ∈ l.columns) : d ∈ l'.columns := by
  obtain ⟨extra, h⟩ := wide.columns
  rw [h]
  exact List.mem_append_left _ hd

theorem Widens.read (row : Row) {d : ColumnDecl Expr} (hd : d ∈ l'.columns) {c : Column}
    (rel : c.rel = l'.rel) (name : c.name = d.name) :
    (Scope.root.bind l'.rel (f.made M l' row)).column c = .ok (M.value d.expr (f.view row)) :=
  Feed.column_bind rel (name ▸ Feed.get?_made wide.nodup hd row)

theorem Widens.same_keys (reads : ReadFrom l'.rel l'.columns passed gathered) (rows : List Row) :
    List.Forall₂ (fun k k' => k.1 = k'.1 ∧ k.2 = k'.2)
      (({ f.layer M l' with picked := rows } : Feed Row).keys M passed) (f.keys M gathered) := by
  rw [Feed.keys, Feed.keys, List.forall₂_map_left_iff, List.forall₂_map_right_iff]
  refine reads.imp fun p o h => ⟨h.1, funext fun row => ?_⟩
  obtain ⟨-, d, hd, type, expr, target⟩ := h
  rw [target, ← expr]
  exact M.value_column (wide.read row hd rfl rfl)

/-- What is passed on has the values of what was gathered. -/
theorem Widens.origin (reads : ReadFrom l'.rel l'.columns passed gathered) (rows : List Row) :
    ∀ k ∈ ({ f.layer M l' with picked := rows } : Feed Row).keys M (inFront passed []),
      ∃ k' ∈ f.keys M gathered, k.2 = k'.2 := by
  intro k hk
  obtain ⟨o, ho, rfl⟩ := List.mem_map.mp hk
  have ho := mem_of_mem_inFront ho
  rw [List.append_nil] at ho
  obtain ⟨k', hk', -, values⟩ := exists_of_forall₂ (wide.same_keys reads rows) _
    (List.mem_map_of_mem ho)
  exact ⟨k', hk', values⟩

/-- The columns of the layer read the same from the wider one. -/
theorem Widens.same (h : Offers M t offered below f gathered)
    (sound : Sound M.toGrammar t offered (l :: below)) {row : Row} (full : Full offered row)
    {c : Column} (hc : Sees t offered (l :: below) c) :
    (Scope.root.bind l'.rel (f.made M l' row)).column c = (view M t (l :: below) row).column c := by
  obtain ⟨d, hd, hn⟩ := List.mem_map.mp hc.2
  have old : (view M t (l :: below) row).column c = _ :=
    Feed.column_bind hc.1 (hn ▸ get?_trace sound.2.1.nodup hd row)
  rw [old, ← h.value sound.2.2 full (sound.2.1.column hd)]
  exact wide.read row (wide.mem hd) (hc.1.trans wide.rel.symm) hn.symm

/-- A wider layer over the feed offers what the layer offers over the stack. -/
theorem Offers.layer (h : Offers M t offered below f gathered) (sound : Sound M.toGrammar t offered (l :: below))
    (reads : ReadFrom l'.rel l'.columns passed (Orderings.inFront l.orderBy gathered))
    (rows : List Row) :
    Offers M t offered (l :: below) { f.layer M l' with picked := rows }
      (Orderings.inFront passed []) := by
  have found : ∀ row c, Feed.Sees { f.layer M l' with picked := rows } c →
      ∃ v, (Feed.view { f.layer M l' with picked := rows } row).column c = .ok v := by
    rintro row c ⟨rel, name⟩
    obtain ⟨d, hd, hn⟩ := List.mem_map.mp name
    exact ⟨_, wide.read row hd rel hn.symm⟩
  have plain : ∀ o ∈ passed ++ [],
      Plain M.members (Feed.Sees { f.layer M l' with picked := rows }) o.expr := by
    intro o ho
    rw [List.append_nil] at ho
    obtain ⟨_, -, -, d, hd, type, -, target⟩ := exists_of_forall₂ reads o ho
    rw [target]
    exact .column ⟨rfl, List.mem_map_of_mem hd⟩
  refine ⟨wide.rel, fun n hn => ?_, fun row _ => found row, fun row full c hc => ?_,
    fun o ho => plain o (mem_of_mem_inFront ho), fun row row' hr hr' => ?_⟩
  · obtain ⟨d, hd, rfl⟩ := List.mem_map.mp hn
    exact List.mem_map_of_mem (wide.mem hd)
  · exact wide.same h sound full hc
  · rw [byKeys_inFront plain (found row) (found row'), ← (h.inFront sound).2 row row' hr hr',
      byKeys_congr ((wide.same_keys reads rows).imp fun k k' h => ⟨h.1, congrFun h.2 row, congrFun h.2 row'⟩)]
    exact Ordering.then_eq

omit wide in
theorem page_sublist {α : Type} (items : List α) : (l.page items).Sublist items := by
  rw [Layer.page]
  split
  · exact List.drop_sublist _ _
  · exact (List.take_sublist _ _).trans (List.drop_sublist _ _)

/-- A wider layer over the feed, which orders by all that was gathered, or leaves the order to the
layers above. -/
theorem Hoisted.layer (h : Hoisted M t offered base below f gathered)
    (full : ∀ row ∈ base, Full offered row) (sound : Sound M.toGrammar t offered (l :: below))
    (uniform : Uniform M t base (l :: below))
    (orderBy : l'.orderBy = Orderings.inFront l.orderBy gathered
      ∨ l.isPaged = false ∧ l'.orderBy = [])
    (reads : ReadFrom l'.rel l'.columns passed (Orderings.inFront l.orderBy gathered)) :
    Hoisted M t offered base (l :: below) (f.layer M l') (Orderings.inFront passed []) := by
  have offers := h.toOffers.layer wide sound reads (f.layer M l').picked
  have passes : f.passes M l' = f.passes M l := by
    funext row
    rw [Feed.passes, Feed.passes, wide.filter]
  have page : ∀ items : List Row, l'.page items = l.page items := by
    intro items
    rw [Layer.page, Layer.page, wide.skip, wide.take]
  have sub : ∀ row ∈ (f.layer M l').picked, row ∈ f.picked.filter (f.passes M l) := by
    intro row hr
    rw [Feed.layer, passes] at hr
    exact mem_sortWith.mp ((page_sublist _).subset hr)
  have inBase : ∀ row ∈ f.picked.filter (f.passes M l), Full offered row := fun row hr =>
    full row (h.mem_base (List.mem_of_mem_filter hr))
  have agree : ∀ row ∈ f.picked.filter (f.passes M l), ∀ row' ∈ f.picked.filter (f.passes M l),
      byKeys ((f.layer M l').keys M (Orderings.inFront passed [])) row row'
        = byKeys (f.keys M (Orderings.inFront l.orderBy gathered)) row row' := by
    intro row hr row' hr'
    rw [(h.inFront sound).2 row row' (inBase row hr) (inBase row' hr')]
    exact offers.order row row' (inBase row hr) (inBase row' hr')
  refine ⟨offers, ?_, fun k hk => ?_⟩
  · rw [h.picked_layer full sound, sortWith_congr fun row hr row' hr' =>
      agree row (sub row hr) row' (sub row' hr')]
    rcases orderBy with orderBy | ⟨unpaged, orderBy⟩
    · have rows : (f.layer M l').picked = l.page (sortWith (byKeys (f.keys M
          (Orderings.inFront l.orderBy gathered))) (f.picked.filter (f.passes M l))) := by
        rw [Feed.layer, passes, page, orderBy]
      rw [rows]
      exact (sortWith_of_inOrder ((inOrder_sortWith _).sublist (page_sublist _))).symm
    · have rows : (f.layer M l').picked = f.picked.filter (f.passes M l) := by
        rw [Feed.layer, passes, page, orderBy, page_of_unpaged unpaged]
        exact sortWith_nil _
      rw [rows, page_of_unpaged unpaged]
  · obtain ⟨k', hk', values⟩ := wide.origin reads _ k hk
    obtain ⟨type, admits⟩ := h.typed_inFront full sound uniform k' hk'
    exact ⟨type, fun row hr => values ▸ admits row (sub row hr)⟩

end Layers

end Stack

theorem Plain.hoist_run {members : Prop} {P : Column → Prop} {e : Expr} (h : Plain members P e)
    (outermost : Bool) (gathered : List (Order Expr)) :
    (e.hoist outermost).run gathered = (e, gathered) :=
  h.walk_self (Yields.ofState _) _ (Select.hoist outermost) (Projection.hoist outermost)
    fun e he h => by
      cases he <;> rw [Expr.hoist] <;> first | exact h | simp

namespace Layer

def passedOn (l : Layer) (outermost : Bool) (declared : List Alias) (gathered : List (Order Expr)) :
    List (Order Expr) × List (ColumnDecl Expr) :=
  if outermost then ([], l.columns)
  else through l.rel declared (inFront l.orderBy gathered) l.columns

def settled (l : Layer) (outermost : Bool) (declared : List Alias) (gathered : List (Order Expr)) :
    Layer :=
  { l with
    columns := (l.passedOn outermost declared gathered).2
    orderBy := if outermost || l.isPaged then inFront l.orderBy gathered else [] }

theorem orderBy_settled (l : Layer) (outermost : Bool) (declared : List Alias)
    (gathered : List (Order Expr)) :
    (l.settled outermost declared gathered).orderBy = inFront l.orderBy gathered
      ∨ l.isPaged = false ∧ (l.settled outermost declared gathered).orderBy = [] := by
  cases h : outermost || l.isPaged with
  | true => exact .inl (by simp only [settled, h, if_true])
  | false =>
    exact .inr ⟨(Bool.or_eq_false_iff.mp h).2, by simp only [settled, h, Bool.false_eq_true, if_false]⟩

theorem settle_run {l : Layer} {source : Expr}
    (aggregates : (l.above source).hasAggregates = false) (outermost : Bool)
    (gathered : List (Order Expr)) :
    (settle outermost (l.above source)).run gathered
      = ((l.settled outermost source.declares gathered).above source,
        inFront (l.passedOn outermost source.declares gathered).1 []) := by
  have paged : ((l.take.map count).isSome || (l.skip.map count).isSome) = l.isPaged := by
    rw [Option.isSome_map, Option.isSome_map, Bool.or_comm, isPaged]
  cases outermost with
  | true =>
    have run : (settle true (l.above source)).run gathered = ({ l.above source with
        orderBy := if !(l.above source).hasAggregates then inFront l.orderBy gathered else l.orderBy },
        inFront [] []) := rfl
    rw [run, aggregates]
    rfl
  | false =>
    have run : (settle false (l.above source)).run gathered = ({ l.above source with
        columns := (through l.rel source.declares (inFront l.orderBy gathered) l.columns).2
        orderBy := if ((l.take.map count).isSome || (l.skip.map count).isSome)
            && !(l.above source).hasAggregates then inFront l.orderBy gathered
          else if (l.take.map count).isSome || (l.skip.map count).isSome then l.orderBy else [] },
        inFront (through l.rel source.declares (inFront l.orderBy gathered) l.columns).1 []) := by
      obtain ⟨rel, columns, filter, orderBy, skip, take⟩ := l
      cases skip <;> cases take <;> rfl
    rw [run, aggregates, paged]
    cases hp : l.isPaged <;> simp [settled, hp] <;> rfl

theorem hoist_run {l : Layer} {source source' : Expr} {gathered : List (Order Expr)}
    (clauses : ∀ e ∈ l.exprs, (e.hoist false).run gathered = (e, gathered))
    (aggregates : ∀ source, (l.above source).hasAggregates = false)
    (below : (source.hoist false).run [] = (source', gathered)) (outermost : Bool) :
    ((l.above source).hoist outermost).run []
      = ((l.settled outermost source'.declares gathered).above source',
        inFront (l.passedOn outermost source'.declares gathered).1 []) := by
  let Y := Yields.ofState (List (Order Expr))
  have counts : ∀ n, Plain False (fun _ => False) (count n) := fun n => .const (.int n)
  have walk := traverse_gives Y _ (f := fun e => e) (l := l) below clauses
    fun n => (counts n).hoist_run false gathered
  rw [mapExprs_self fun _ _ => rfl] at walk
  rw [Select.hoist]
  exact Y.bind walk (settle_run (aggregates source') outermost gathered)

theorem Fits.hoist_run {G : Grammar} {P : Column → Prop} {l : Layer} (fits : l.Fits G P)
    {source source' : Expr} {gathered : List (Order Expr)}
    (below : (source.hoist false).run [] = (source', gathered)) (outermost : Bool) :
    ((l.above source).hoist outermost).run []
      = ((l.settled outermost source'.declares gathered).above source',
        inFront (l.passedOn outermost source'.declares gathered).1 []) :=
  Layer.hoist_run (fun e he => (fits.plain e he).hoist_run false gathered) fits.hasNoAggregates below
    outermost

end Layer

namespace Stack

variable {tables : Tables} {M : Meaning tables} {t : Table} {offered : List String}
  {base : List Row} {l l' : Layer} {s below : Stack} {f : Feed Row} {gathered : List (Order Expr)}

theorem declares_tree (s : Stack) : (tree t s).declares = [top t s] := by
  cases s <;> rfl

/-- No ordering is that of a relation outside. -/
theorem inside_inFront (h : Offers M t offered below f gathered)
    (sound : Sound M.toGrammar t offered (l :: below)) :
    ∀ o ∈ inFront l.orderBy gathered, o.expr.isColumnOutside [f.rel] = false := by
  intro o ho
  have plain := (h.inFront sound).1 o ho
  cases he : o.expr with
  | column c =>
    rw [he] at plain
    cases plain with
    | column sees => simp [Expr.isColumnOutside, sees.1]
  | _ => rfl

/-- A layer that passes its orderings on as columns. -/
theorem passedOn_spec (h : Offers M t offered below f gathered)
    (sound : Sound M.toGrammar t offered (l :: below)) :
    ∃ extra, (l.settled false [f.rel] gathered).columns = l.columns ++ extra
      ∧ (∀ d ∈ extra, ∃ o ∈ inFront l.orderBy gathered, d.expr = o.expr)
      ∧ (l.settled false [f.rel] gathered).names.Nodup
      ∧ ReadFrom l.rel (l.settled false [f.rel] gathered).columns
        (l.passedOn false [f.rel] gathered).1 (inFront l.orderBy gathered)
      ∧ (RowNumbers.columnName ∉ f.names → ∀ d ∈ extra, d.name ≠ RowNumbers.columnName) := by
  have sees : ∀ o ∈ inFront l.orderBy gathered, ∀ c, o.expr = .column c → f.Sees c := by
    intro o ho c hc
    have plain := (h.inFront sound).1 o ho
    rw [hc] at plain
    cases plain with
    | column h => exact h
  have plain : ∀ d ∈ l.columns, Plain M.members f.Sees d.expr := fun d hd =>
    (sound.2.1.column hd).mono id fun _ hc => h.sees hc
  obtain ⟨extra, all, origin, nodup, reads, named⟩ := through_spec l.rel (inside_inFront h sound)
    (fun o ho => ((h.inFront sound).1 o ho).exact) sound.2.1.nodup
  rw [← all] at nodup reads
  refine ⟨extra, all, origin, nodup, reads, fun free => named fun o ho c hc name => free ?_⟩
  exact name ▸ (sees o ho c hc).2

theorem settled_widens (h : Offers M t offered below f gathered)
    (sound : Sound M.toGrammar t offered (l :: below)) (outermost : Bool) :
    Widens M f l (l.settled outermost [f.rel] gathered) := by
  have plain : ∀ d ∈ l.columns, Plain M.members f.Sees d.expr := fun d hd =>
    (sound.2.1.column hd).mono id fun _ hc => h.sees hc
  cases outermost with
  | true => exact ⟨rfl, ⟨[], (List.append_nil _).symm⟩, rfl, rfl, rfl, plain, sound.2.1.nodup⟩
  | false =>
    obtain ⟨extra, all, origin, nodup, -⟩ := passedOn_spec h sound
    refine ⟨rfl, ⟨extra, all⟩, rfl, rfl, rfl, fun d hd => ?_, nodup⟩
    rw [all] at hd
    rcases List.mem_append.mp hd with hd | hd
    · exact plain d hd
    · obtain ⟨o, ho, expr⟩ := origin d hd
      exact expr ▸ (h.inFront sound).1 o ho

theorem settled_fits (h : Offers M t offered below f gathered)
    (sound : Sound M.toGrammar t offered (l :: below)) (outermost : Bool) :
    (l.settled outermost [f.rel] gathered).Fits M.toGrammar.loosened f.Sees := by
  have wide := settled_widens h sound outermost
  refine ⟨fun e he => ?_, wide.nodup, fun _ _ _ _ => trivial⟩
  simp only [Layer.exprs, List.mem_append, List.mem_map, Option.mem_toList] at he
  rcases he with (⟨d, hd, rfl⟩ | he) | ⟨o, ho, rfl⟩
  · exact wide.plain d hd
  · exact (sound.2.1.filter he).mono id fun _ hc => h.sees hc
  · rcases l.orderBy_settled outermost [f.rel] gathered with orderBy | ⟨-, orderBy⟩ <;>
      rw [orderBy] at ho
    · exact (h.inFront sound).1 o ho
    · cases ho

theorem typed_settled (full : ∀ row ∈ base, Full offered row)
    (h : Hoisted M t offered base below f gathered) (sound : Sound M.toGrammar t offered (l :: below))
    (uniform : Uniform M t base (l :: below)) (outermost : Bool) :
    f.Typed M (l.settled outermost [f.rel] gathered) := by
  intro k hk
  rcases l.orderBy_settled outermost [f.rel] gathered with orderBy | ⟨-, orderBy⟩ <;>
    rw [orderBy] at hk
  · exact h.typed_inFront full sound uniform k hk
  · cases hk

def Unnumbered (offered : List String) (s : Stack) : Prop :=
  RowNumbers.columnName ∉ offered ∧ ∀ l ∈ s, RowNumbers.columnName ∉ l.names

theorem Unnumbered.not_mem_offers (h : Unnumbered offered s) :
    RowNumbers.columnName ∉ offers offered s := by
  cases s with
  | nil => exact h.1
  | cons l below => exact h.2 l (by simp)

structure Raised (M : Meaning tables) (t : Table) (offered : List String) (base : List Row)
    (s s' : Stack) : Prop where
  sound : Sound M.toGrammar.loosened t offered s'
  aliases : aliases t s' = aliases t s
  uniform : Uniform M t base s'
  ties : ∀ row row', Full offered row → Full offered row' →
    order M t s row row' = .eq → order M t s' row row' = .eq
  refined : Refined M t offered s'
  named : Unnumbered offered s → Unnumbered offered s'

theorem settled_raised (full : ∀ row ∈ base, Full offered row)
    (sound : Sound M.toGrammar t offered (l :: below)) (uniform : Uniform M t base (l :: below))
    {below' : Stack} (h : Hoisted M t offered base below (feed M t offered base below') gathered)
    (raised : Raised M t offered base below below') (outermost : Bool) :
    Raised M t offered base (l :: below)
      (l.settled outermost [top t below'] gathered :: below') := by
  set f := feed M t offered base below' with hf
  have front := h.inFront sound
  have orderBy := l.orderBy_settled outermost [top t below'] gathered
  have ties : ∀ row row', Full offered row → Full offered row' →
      order M t (l :: below) row row' = .eq →
        byKeys (keys M t (l.settled outermost [top t below'] gathered) below') row row' = .eq := by
    intro row row' hr hr' tie
    rcases orderBy with orderBy | ⟨-, orderBy⟩
    · rw [keys, orderBy]
      exact (front.2 row row' hr hr').trans tie
    · rw [keys, orderBy]
      rfl
  refine ⟨⟨?_, settled_fits h.toOffers sound outermost, raised.sound⟩, ?_,
    ⟨typed_settled full h sound uniform outermost, raised.uniform⟩, ?_, ⟨?_, raised.refined⟩, ?_⟩
  · rw [raised.aliases]
    exact sound.1
  · simpa [aliases, Layer.settled] using raised.aliases
  · intro row row' hr hr' tie
    exact order_eq_iff.mpr ⟨ties row row' hr hr' tie,
      raised.ties row row' hr hr' (order_eq_iff.mp tie).2⟩
  · intro paged row row' hr hr' tie
    have orders := orderBy.resolve_right fun h => by
      rw [show l.isPaged = true from paged] at h
      cases h.1
    rw [keys, orders] at tie
    have tie : order M t (l :: below) row row' = .eq := (front.2 row row' hr hr').symm.trans tie
    exact raised.ties row row' hr hr' (order_eq_iff.mp tie).2
  · intro free
    have below' := raised.named ⟨free.1, fun l hl => free.2 l (by simp [hl])⟩
    refine ⟨free.1, List.forall_mem_cons.mpr ⟨fun hn => ?_, below'.2⟩⟩
    cases outermost with
    | true => exact free.2 l (by simp) hn
    | false =>
      obtain ⟨extra, all, -, -, -, named⟩ := passedOn_spec h.toOffers sound
      obtain ⟨d, hd, name⟩ := List.mem_map.mp hn
      rw [show (l.settled false [top t _] gathered).columns = _ from all] at hd
      rcases List.mem_append.mp hd with hd | hd
      · exact free.2 l (by simp) (name ▸ List.mem_map_of_mem hd)
      · exact named below'.not_mem_offers d hd name

theorem hoist_tree (full : ∀ row ∈ base, Full offered row) (sound : Sound M.toGrammar t offered s)
    (uniform : Uniform M t base s) :
    ∃ s' gathered, ((tree t s).hoist false).run [] = (tree t s', gathered)
      ∧ Hoisted M t offered base s (feed M t offered base s') gathered
      ∧ Raised M t offered base s s' := by
  induction s with
  | nil =>
    refine ⟨[], [], ?_, ⟨⟨rfl, fun _ hn => hn, fun row hr c hc => column_view sound hr hc,
      fun _ _ _ _ => rfl, by simp, fun _ _ _ _ => rfl⟩, ?_, by simp [Feed.keys]⟩,
      ⟨trivial, rfl, trivial, fun _ _ _ _ h => h, trivial, id⟩⟩
    · rw [tree, Expr.hoist] <;> first | rfl | simp
    · exact (sortWith_nil _).symm
  | cons l below ih =>
    obtain ⟨below', gathered, walked, hoisted, raised⟩ := ih sound.2.2 uniform.2
    have run := sound.2.1.hoist_run walked false
    rw [declares_tree] at run
    refine ⟨l.settled false [top t below'] gathered :: below',
      inFront (l.passedOn false [top t below'] gathered).1 [], ?_, ?_,
      settled_raised full sound uniform hoisted raised false⟩
    · rw [tree, Expr.hoist]
      · exact (Yields.ofState _).bind run ((Yields.ofState _).pure _ _)
      all_goals simp
    · obtain ⟨-, -, -, -, reads, -⟩ := passedOn_spec hoisted.toOffers sound
      exact hoisted.layer (settled_widens hoisted.toOffers sound false) full sound uniform
        (l.orderBy_settled false [top t below'] gathered) reads

theorem hoistOrderings_projection {members : Prop} {P : Column → Prop} {q q' : Select Expr}
    {projector : Expr} (run : (q.hoist true).run [] = (q', gathered)) (plain : Plain members P projector) :
    (Expr.projection ⟨q, projector, none⟩).hoistOrderings = .projection ⟨q', projector, none⟩ := by
  let Y := Yields.ofState (List (Order Expr))
  have walk : Y.gives [] ((Expr.projection ⟨q, projector, none⟩).hoist true)
      (.projection ⟨q', projector, none⟩) gathered := by
    rw [Expr.hoist]
    · refine Y.bind (?_ : Y.gives _ (Projection.hoist true _) _ _) (Y.pure _ _)
      rw [Projection.hoist]
      exact Y.bind run (Y.bind (plain.hoist_run true _) (Y.pure _ _))
    all_goals simp
  exact congrArg Prod.fst walk

/-- A projection with its orderings moved makes the same objects. -/
theorem hoistOrderings_agrees (full : ∀ row ∈ base, Full offered row) {projector : Expr}
    (sound : Sound M.toGrammar t offered (l :: below)) (uniform : Uniform M t base (l :: below))
    (plain : Plain M.members (Sees t offered (l :: below)) projector) :
    ∃ l' below', (Expr.projection (projected t l below projector)).hoistOrderings
        = .projection (projected t l' below' projector)
      ∧ Raised M t offered base (l :: below) (l' :: below')
      ∧ Plain M.members (Sees t offered (l' :: below')) projector
      ∧ objects M t base (l' :: below') projector = objects M t base (l :: below) projector := by
  obtain ⟨below', gathered, walked, hoisted, raised⟩ := hoist_tree full sound.2.2 uniform.2
  have wide := settled_widens hoisted.toOffers sound true
  refine ⟨l.settled true [top t below'] gathered, below', ?_,
    settled_raised full sound uniform hoisted raised true, plain, ?_⟩
  · have run := sound.2.1.hoist_run walked true
    rw [declares_tree] at run
    exact hoistOrderings_projection run plain
  · have rows : picked M t base (l.settled true [top t below'] gathered :: below')
        = picked M t base (l :: below) := (hoisted.picked_layer full sound).symm
    rw [objects, objects, rows]
    refine List.map_congr_left fun row hr => ?_
    have carries : Carries M t offered (l :: below) (l.settled true [top t below'] gathered :: below')
        (Sees t offered (l :: below)) .column := fun row full c hc => by
      obtain ⟨v, hv⟩ := column_view sound full hc
      exact ⟨v, hv, .inl ⟨c, rfl, (wide.same hoisted.toOffers sound full hc).trans hv⟩⟩
    have := carries.object (full row (mem_of_mem_picked hr)) plain
    rwa [plain.replace_self] at this

end Stack

end ObjectQuery
