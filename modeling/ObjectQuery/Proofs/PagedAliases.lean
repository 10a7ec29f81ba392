import ObjectQuery.Proofs.NumberedPages
import ObjectQuery.Sample
import Mathlib.Algebra.Order.BigOperators.Group.List
import Mathlib.Algebra.Order.Group.Nat

/-!
The aliases of a tree that skips by row numbers: those that were there before and, for every select that
skipped rows, a new one for each layer that was put below it. What the ordering of such a select declares
would be declared twice, in the ordering and in the row number.
-/

namespace ObjectQuery

open RowNumbers

def Select.lowest (s : Select Expr) : List (Alias × Nat) :=
  if s.distinct || !s.groupBy.isEmpty then [(s.rel, 0)] else []

def Select.layers (s : Select Expr) : List (Alias × Nat) :=
  if s.skip.isNone then [] else s.lowest ++ [(s.rel, s.lowest.length)]

namespace Part

def ownLayers : Part → List (Alias × Nat)
  | .select s => s.layers
  | _ => []

def layers (p : Part) : List (Alias × Nat) :=
  (p.parts.attach.flatMap fun ⟨q, _⟩ => layers q) ++ p.ownLayers
termination_by p.weight
decreasing_by exact weight_lt ‹_›

theorem layers_eq (p : Part) : p.layers = p.parts.flatMap layers ++ p.ownLayers := by
  rw [layers]
  simp

theorem count_ownLayers_le (p : Part) (k : Alias × Nat) : p.ownLayers.count k ≤ p.binds.count k.1 := by
  cases p with
  | expr e => exact Nat.zero_le _
  | projection q => exact Nat.zero_le _
  | select s =>
    have nodup : s.layers.Nodup := by
      rw [Select.layers, Select.lowest]
      split <;> [skip; split] <;> simp
    have named : ∀ k ∈ s.layers, k.1 = s.rel := by
      rw [Select.layers, Select.lowest]
      split <;> [skip; split] <;> simp
    by_cases hk : k ∈ s.layers
    · have once := List.nodup_iff_count_le_one.mp nodup k
      simpa [ownLayers, binds, named k hk] using once
    · rw [ownLayers, List.count_eq_zero_of_not_mem hk]
      exact Nat.zero_le _

/-- A select is named by its alias, and so are its layers. -/
theorem count_layers_le (p : Part) (k : Alias × Nat) : p.layers.count k ≤ p.declared.count k.1 := by
  rw [layers_eq, declared_eq, List.count_append, List.count_append, List.count_flatMap, List.count_flatMap]
  have parts : (p.parts.map (List.count k ∘ layers)).sum ≤ (p.parts.map (List.count k.1 ∘ declared)).sum :=
    List.sum_le_sum fun q hq => count_layers_le q k
  have own := p.count_ownLayers_le k
  omega
termination_by p.weight
decreasing_by exact weight_lt hq

theorem nodup_layers {p : Part} (nodup : p.declared.Nodup) : p.layers.Nodup :=
  List.nodup_iff_count_le_one.mpr fun k =>
    (p.count_layers_le k).trans (List.nodup_iff_count_le_one.mp nodup k.1)

theorem layers_eq_nil {p : Part} (none : p.declared = []) : p.layers = [] := by
  refine List.eq_nil_iff_forall_not_mem.mpr fun k hk => ?_
  have positive := List.count_pos_iff.mpr hk
  have bound := p.count_layers_le k
  rw [none, List.count_nil] at bound
  omega

end Part

def aliasesFrom (n k : Nat) : List Alias := (List.range' n k).map Alias.mk

theorem aliasesFrom_add (n k l : Nat) : aliasesFrom n (k + l) = aliasesFrom n k ++ aliasesFrom (n + k) l := by
  rw [aliasesFrom, aliasesFrom, aliasesFrom, ← List.map_append, List.range'_append_1]

def AddsLayers {α : Type} (ks : List (Alias × Nat)) (R : (Alias × Nat → Alias) → α → Prop) (act : Mint α) :
    Prop :=
  ∀ n, ∃ a, act.run ⟨n⟩ = (a, ⟨n + ks.length⟩) ∧ ∀ w, ks.map w = aliasesFrom n ks.length → R w a

namespace AddsLayers

variable {α β : Type} {ks ls : List (Alias × Nat)} {R : (Alias × Nat → Alias) → α → Prop}
  {R' : (Alias × Nat → Alias) → β → Prop} {act : Mint α} {next : α → Mint β}

theorem pure {a : α} (h : ∀ w, R w a) : AddsLayers [] R (pure a) := fun _ => ⟨a, rfl, fun w _ => h w⟩

theorem mints (h : AddsLayers ks R act) : Mints (fun _ => True) act := by
  intro supply
  obtain ⟨a, run, -⟩ := h supply.next
  exact ⟨a, _, run, Nat.le_add_right _ _, fun _ _ => trivial⟩

/-- What the first action makes under any naming may be used to go on. -/
theorem bind_of_mints {S : α → Prop} (h : AddsLayers ks R act) (shape : Mints S act)
    (rest : ∀ a, S a → AddsLayers ls (fun w b => R w a → R' w b) (next a)) :
    AddsLayers (ks ++ ls) R' (act >>= next) := by
  intro n
  obtain ⟨a, run, first⟩ := h n
  have made : S a := by
    obtain ⟨a', _, run', -, later⟩ := shape ⟨n⟩
    obtain ⟨rfl, rfl⟩ := Prod.mk.inj (run.symm.trans run')
    exact later _ (Nat.le_refl _)
  obtain ⟨b, run', second⟩ := rest a made (n + ks.length)
  refine ⟨b, ?_, fun w named => ?_⟩
  · rw [StateT.run_bind, run, List.length_append, ← Nat.add_assoc]
    exact run'
  · rw [List.map_append, List.length_append, aliasesFrom_add] at named
    obtain ⟨front, back⟩ := List.append_inj named (by simp [aliasesFrom])
    exact second w back (first w front)

theorem bind (h : AddsLayers ks R act) (rest : ∀ a, AddsLayers ls (fun w b => R w a → R' w b) (next a)) :
    AddsLayers (ks ++ ls) R' (act >>= next) :=
  h.bind_of_mints h.mints fun a _ => rest a

theorem mono {S : (Alias × Nat → Alias) → α → Prop} (h : AddsLayers ks R act) (sub : ∀ w a, R w a → S w a) :
    AddsLayers ks S act := by
  intro n
  obtain ⟨a, run, first⟩ := h n
  exact ⟨a, run, fun w named => sub w a (first w named)⟩

theorem fresh (k : Alias × Nat) : AddsLayers [k] (fun w a => a = w k) Supply.freshAlias :=
  fun n => ⟨⟨n⟩, rfl, fun _ named => (List.head_eq_of_cons_eq named).symm⟩

end AddsLayers

def layering : Sequence Mint (List (Alias × Nat)) (Alias × Nat → Alias) where
  does ks R act := AddsLayers ks.flatten R act
  pure h := .pure h
  bind h rest := by
    rw [List.flatten_append]
    exact h.bind rest

theorem AddsLayers.does {α : Type} {ks : List (Alias × Nat)} {R : (Alias × Nat → Alias) → α → Prop}
    {act : Mint α} (h : AddsLayers ks R act) : layering.does [ks] R act := by
  show AddsLayers [ks].flatten R act
  rwa [List.flatten_singleton]

def Part.PagesPlainly : Part → Prop
  | .select s => s.skip ≠ none →
    ∀ e ∈ s.orderBy.map (·.expr) ++ s.skip.toList ++ s.take.toList, (Part.expr e).declared = []
  | _ => True

def Part.Extended (w : Alias × Nat → Alias) (p p' : Part) : Prop :=
  p'.declared.Perm (p.declared ++ p.layers.map w)

def declaredBy (es : List Expr) : List Alias := (es.map Part.expr).flatMap Part.declared

section DeclaredBy

theorem declaredBy_cons (e : Expr) (es : List Expr) :
    declaredBy (e :: es) = (Part.expr e).declared ++ declaredBy es := rfl

theorem declaredBy_append (es es' : List Expr) : declaredBy (es ++ es') = declaredBy es ++ declaredBy es' := by
  simp [declaredBy]

theorem declaredBy_eq_nil {es : List Expr} (h : ∀ e ∈ es, (Part.expr e).declared = []) : declaredBy es = [] := by
  simpa [declaredBy] using h

theorem declared_select (s : Select Expr) : (Part.select s).declared = s.rel :: declaredBy s.exprs := by
  rw [Part.declared_eq]
  rfl

theorem declared_rowNumber (orders : List (Order Expr)) :
    (Part.expr (.rowNumber orders)).declared = declaredBy (orders.map (·.expr)) := by
  rw [Part.declared_eq, declaredBy, List.map_map]
  rfl

theorem declaredBy_provide (columns : List (ColumnDecl Expr)) (base : String) {e : Expr}
    (plain : (Part.expr e).declared = []) :
    declaredBy ((ColumnDecl.provide columns base e).2.map (·.expr)) = declaredBy (columns.map (·.expr)) := by
  rw [ColumnDecl.provide]
  split
  · rfl
  · rw [List.map_append, declaredBy_append]
    simpa [declaredBy, ColumnDecl.of] using plain

/-- Orderings through columns declare nothing, and the columns declare what they did. -/
theorem declaredBy_through (rel : Alias) (orders : List (Order Expr)) (columns : List (ColumnDecl Expr))
    (plain : declaredBy (orders.map (·.expr)) = []) :
    declaredBy ((through rel orders columns).1.map (·.expr)) = []
      ∧ declaredBy ((through rel orders columns).2.map (·.expr)) = declaredBy (columns.map (·.expr)) := by
  induction orders generalizing columns with
  | nil => exact ⟨plain, rfl⟩
  | cons o orders ih =>
    obtain ⟨here, rest⟩ := List.append_eq_nil_iff.mp plain
    obtain ⟨none, same⟩ := ih (ColumnDecl.provide columns (o.expr.baseName "o") o.expr).2 rest
    rw [declaredBy_provide columns _ here] at same
    refine ⟨?_, same⟩
    rw [through, List.map_cons, declaredBy_cons, none]
    simp [Part.declared_eq, Part.binds, Part.parts]

theorem declaredBy_exprs (s : Select Expr) : declaredBy s.exprs
    = declaredBy (s.source.toList ++ s.filter.toList ++ s.orderBy.map (·.expr) ++ s.groupBy ++ s.skip.toList
      ++ s.take.toList) ++ declaredBy (s.columns.map (·.expr)) :=
  declaredBy_append _ _

variable {s : Select Expr}

/-- A select around another one, with forwarded columns, declares nothing else. -/
theorem declaredBy_around {o : Select Expr} (t : Select Expr) (tests : List Expr)
    (exprs : o.exprs = .select t :: tests ++ o.columns.map (·.expr))
    (plain : ∀ e ∈ tests, (Part.expr e).declared = []) (forwarded : ∀ d ∈ o.columns, ∃ c, d.expr = .column c) :
    declaredBy o.exprs = (Part.select t).declared := by
  have columns : declaredBy (o.columns.map (·.expr)) = [] := by
    refine declaredBy_eq_nil fun e he => ?_
    obtain ⟨d, hd, rfl⟩ := List.mem_map.mp he
    obtain ⟨c, hc⟩ := forwarded d hd
    simp [hc, Part.declared_eq, Part.binds, Part.parts]
  have inner : (Part.expr (.select t)).declared = (Part.select t).declared := by
    simp [Part.declared_eq (.expr _), Part.binds, Part.parts]
  rw [exprs, declaredBy_append, columns, declaredBy_cons, declaredBy_eq_nil plain, inner, List.append_nil,
    List.append_nil]

theorem forwarded_wrapped {rel : Alias} : ∀ d ∈ (s.wrapped rel).columns, ∃ c, d.expr = .column c := by
  intro d hd
  obtain ⟨d, -, rfl⟩ := List.mem_map.mp hd
  exact ⟨_, rfl⟩

theorem declaredBy_above (s t : Select Expr) (rel : Alias) :
    declaredBy { s.wrapped rel with source := some (.select t) }.exprs = (Part.select t).declared :=
  declaredBy_around t [] rfl (by simp) forwarded_wrapped

/-- What a select without its page declares, besides its alias. -/
theorem unpaged_adds : AddsLayers s.lowest
    (fun w u => declaredBy (s.orderBy.map (·.expr)) = [] → u.1.rel = s.rel
      ∧ declaredBy (u.2.map (·.expr)) = []
      ∧ declaredBy u.1.exprs = s.lowest.map w ++ declaredBy s.unpaged.exprs)
    (RowNumbers.unpaged s) := by
  rw [RowNumbers.unpaged, Select.lowest]
  split
  · refine (AddsLayers.fresh (s.rel, 0)).bind fun below => AddsLayers.pure fun w named ordered => ?_
    subst named
    obtain ⟨unordered, same⟩ := declaredBy_through (w (s.rel, 0)) s.orderBy s.columns ordered
    refine ⟨rfl, unordered, (declaredBy_above _ _ _).trans ?_⟩
    rw [declared_select, declaredBy_exprs, declaredBy_exprs, same]
    rfl
  · exact AddsLayers.pure fun w ordered => ⟨rfl, ordered, rfl⟩

/-- A select over numbered rows declares its alias, that of the numbered rows, and what is below. -/
theorem declared_numberedPage (u : Select Expr) (rel : Alias) {orders : List (Order Expr)} {test : Expr}
    (ordered : declaredBy (orders.map (·.expr)) = []) (tested : (Part.expr test).declared = []) :
    (Part.select (u.numberedPage orders rel test)).declared = u.rel :: rel :: declaredBy u.exprs := by
  have below : declaredBy (u.withNumbers orders).exprs = declaredBy u.exprs := by
    have number : declaredBy [.rowNumber orders] = [] :=
      declaredBy_eq_nil fun e he => by rw [List.mem_singleton.mp he, declared_rowNumber, ordered]
    have exprs : (u.withNumbers orders).exprs = u.exprs ++ [.rowNumber orders] := by
      simp [Select.exprs, Select.withNumbers]
    rw [exprs, declaredBy_append, number, List.append_nil]
  have outer : declaredBy (u.numberedPage orders rel test).exprs
      = (Part.select { u.withNumbers orders with rel }).declared :=
    declaredBy_around _ [test] rfl (by simpa using tested) fun d hd =>
      forwarded_wrapped d (List.mem_of_mem_filter hd)
  rw [declared_select, outer, declared_select]
  exact congrArg (u.rel :: rel :: ·) below

theorem declared_plus {a b : Expr} (ha : (Part.expr a).declared = []) (hb : (Part.expr b).declared = []) :
    (Part.expr (a.plus b)).declared = [] := by
  obtain ⟨n, sum⟩ | sum := Expr.plus_eq a b
  · simp [sum, Part.declared_eq, Part.binds, Part.parts, Expr.int]
  · simp [sum, Part.declared_eq (.expr (.binary ..)), Part.binds, Part.parts, ha, hb]

theorem declared_inPage {number skip : Expr} {take : Option Expr} (hnumber : (Part.expr number).declared = [])
    (hskip : (Part.expr skip).declared = []) (htake : ∀ e ∈ take, (Part.expr e).declared = []) :
    (Part.expr (inPage number skip take)).declared = [] := by
  cases take with
  | none => simp [inPage, Part.declared_eq (.expr (.binary ..)), Part.binds, Part.parts, hnumber, hskip]
  | some take =>
    have one : (Part.expr (.int 1)).declared = [] := by
      simp [Part.declared_eq, Part.binds, Part.parts, Expr.int]
    simp [inPage, Part.declared_eq (.expr (.between ..)), Part.binds, Part.parts, hnumber,
      declared_plus hskip one, declared_plus hskip (htake take rfl)]

/-- Finishing a select adds its layers. -/
theorem finish_adds : AddsLayers s.layers
    (fun w s' => (Part.select s).PagesPlainly →
      (Part.select s').declared.Perm ((Part.select s).declared ++ s.layers.map w)) (finish s) := by
  cases skip : s.skip with
  | none =>
    have kept : finish s = pure s := by rw [finish, skip]
    have layers : s.layers = [] := by rw [Select.layers, skip]; rfl
    rw [kept, layers]
    exact .pure fun w _ => by simp
  | some bound =>
    have layers : s.layers = s.lowest ++ [(s.rel, s.lowest.length)] := by rw [Select.layers, skip]; rfl
    rw [layers, Select.finish_some skip]
    refine unpaged_adds.bind fun u => (AddsLayers.fresh _).bind fun rel => .pure fun w named below plainly => ?_
    have plain := plainly (by simp [skip])
    have skipped : (Part.expr bound).declared = [] := plain bound (by simp [skip])
    have taken : ∀ e ∈ s.take, (Part.expr e).declared = [] := fun e he => plain e (by simp_all)
    have pageless : declaredBy s.unpaged.exprs = declaredBy s.exprs := by
      have page : declaredBy (s.skip.toList ++ s.take.toList) = [] :=
        declaredBy_eq_nil fun e he => plain e (by simp at he ⊢; tauto)
      rw [declaredBy_append] at page
      obtain ⟨skipless, takeless⟩ := List.append_eq_nil_iff.mp page
      simp only [Select.exprs, Select.unpaged, declaredBy_append, skipless, takeless, Option.toList_none]
      rfl
    have number : (Part.expr (.column ⟨rel, columnName, .int⟩)).declared = [] := by
      simp [Part.declared_eq, Part.binds, Part.parts]
    obtain ⟨hrel, unordered, exprs⟩ := below (declaredBy_eq_nil fun e he =>
      plain e (List.mem_append_left _ (List.mem_append_left _ he)))
    rw [declared_numberedPage u.1 rel unordered (declared_inPage number skipped taken), exprs, hrel, pageless,
      declared_select, named, List.map_append, List.perm_iff_count]
    intro a
    simp only [List.count_append, List.count_cons, List.map_cons, List.map_nil, List.count_nil]
    omega

end DeclaredBy

namespace Part

variable {w : Alias × Nat → Alias} {p p' : Part}

theorem perm_of_extended {ps ps' : List Part} (h : List.Forall₂ (Extended w) ps ps') :
    (ps'.flatMap declared).Perm (ps.flatMap declared ++ (ps.flatMap layers).map w) := by
  induction h with
  | nil => exact .refl _
  | @cons q q' ps ps' here rest ih =>
    rw [Extended, List.perm_iff_count] at here
    rw [List.perm_iff_count] at ih ⊢
    intro a
    have one := here a
    have others := ih a
    simp only [List.flatMap_cons, List.map_append, List.count_append] at one others ⊢
    omega

/-- A node over extended parts. -/
theorem perm_of_parts (binds : p'.binds = p.binds) (parts : List.Forall₂ (Extended w) p.parts p'.parts) :
    p'.declared.Perm (p.declared ++ (p.parts.flatMap layers).map w) := by
  rw [declared_eq, declared_eq p, binds, List.append_assoc]
  exact (perm_of_extended parts).append_left _

theorem Extended.of_parts (binds : p'.binds = p.binds) (own : p.ownLayers = [])
    (parts : List.Forall₂ (Extended w) p.parts p'.parts) : Extended w p p' := by
  rw [Extended, layers_eq, own, List.append_nil]
  exact perm_of_parts binds parts

theorem Extended.none (h : Extended w p p') (none : p.declared = []) : p'.declared = [] := by
  rw [Extended, none, layers_eq_nil none] at h
  exact h.eq_nil

theorem extended_of_matches {QS : Select Expr → Select Expr → Prop}
    {QP : Projection Expr → Projection Expr → Prop} {q q' : Part}
    (h : Matches (fun c c' => Extended w (.expr c) (.expr c')) QS QP q q')
    (onSelect : ∀ s s', QS s s' → Extended w (.select s) (.select s'))
    (onProjection : ∀ r r', QP r r' → Extended w (.projection r) (.projection r')) : Extended w q q' := by
  cases h with
  | expr h => exact h
  | select h => exact onSelect _ _ h
  | projection h => exact onProjection _ _ h

theorem layers_of_shaped {Q : Expr → Expr → Prop} {s s' : Select Expr} (shaped : s.Shaped Q s') :
    s'.layers = s.layers := by
  have skip : s'.skip.isNone = s.skip.isNone := by
    have h := shaped.skip
    generalize s.skip = skip, s'.skip = skip' at h
    cases h <;> rfl
  have groupBy : s'.groupBy.isEmpty = s.groupBy.isEmpty := by
    have h := shaped.groupBy
    generalize s.groupBy = groupBy, s'.groupBy = groupBy' at h
    cases h <;> rfl
  rw [Select.layers, Select.layers, Select.lowest, Select.lowest, skip, groupBy, shaped.rel, shaped.distinct]

theorem plainly_of_shaped {s s' : Select Expr}
    (shaped : s.Shaped (fun c c' => Extended w (.expr c) (.expr c')) s') (plainly : (Part.select s).PagesPlainly) :
    (Part.select s').PagesPlainly := by
  intro skips e' he'
  have skips : s.skip ≠ none := by
    have h := shaped.skip
    rintro none
    rw [none] at h
    generalize s'.skip = skip' at h skips
    cases h
    exact skips rfl
  have page := List.rel_append (List.rel_append (List.forall₂_map_left_iff.mpr (List.forall₂_map_right_iff.mpr
    (shaped.orderBy.imp fun _ _ h => h.2))) (forall₂_toList shaped.skip)) (forall₂_toList shaped.take)
  obtain ⟨e, he, extended⟩ := exists_of_forall₂_right page e' he'
  exact extended.none (plainly skips e he)

theorem Every.adds_layers (plainly : p.Every PagesPlainly) :
    (∀ e, p = .expr e → AddsLayers p.layers (fun w e' => Extended w (.expr e) (.expr e'))
      (e.bottomUp ⟨pure, finish⟩))
    ∧ (∀ s, p = .select s → AddsLayers p.layers (fun w s' => Extended w (.select s) (.select s'))
      (s.bottomUp ⟨pure, finish⟩))
    ∧ ∀ q, p = .projection q → AddsLayers p.layers (fun w q' => Extended w (.projection q) (.projection q'))
      (q.bottomUp ⟨pure, finish⟩) := by
  induction plainly with
  | @node p here parts ih =>
    refine ⟨?_, ?_, ?_⟩
    · rintro e rfl
      rw [Expr.bottomUp, layers_eq]
      have walked := layering.expr (V := layers) e (fun c hc => ((ih _ hc).1 c rfl).does)
        (fun s hs => ((ih _ hs).2.1 s rfl).does) fun q hq => ((ih _ hq).2.2 q rfl).does
      refine AddsLayers.bind walked fun e' => .pure fun w shaped => ?_
      refine .of_parts ?_ rfl (shaped.parts.imp fun _ _ h =>
        extended_of_matches h (fun _ _ h => h) fun _ _ h => h)
      cases shaped <;> rfl
    · rintro s rfl
      rw [Select.bottomUp, layers_eq]
      have walked := layering.select (V := layers) s fun c hc => ((ih _ hc).1 c rfl).does
      have shape := Select.traverse_makes (Q := fun _ _ _ => True) s fun c hc => ((ih _ hc).1 c rfl).mints
      refine AddsLayers.bind_of_mints walked shape fun s' shape => ?_
      rw [ownLayers, ← layers_of_shaped shape]
      refine finish_adds.mono fun w s'' finished shaped => ?_
      have finished := finished (plainly_of_shaped shaped here)
      have binds : (Part.select s').binds = (Part.select s).binds := congrArg ([·]) shaped.rel.symm
      have extended := perm_of_parts binds
        (shaped.parts.imp fun _ _ h => extended_of_matches h (fun _ _ h => h.elim) fun _ _ h => h.elim)
      rw [Extended, layers_eq, List.map_append, ownLayers, ← layers_of_shaped shape, ← List.append_assoc]
      exact finished.trans (extended.append_right _)
    · rintro q rfl
      have own : (Part.projection q).ownLayers = [] := rfl
      rw [Projection.bottomUp, layers_eq, own, List.append_nil]
      have walked := layering.projection (V := layers) q (fun c hc => ((ih _ hc).1 c rfl).does)
        fun s hs => ((ih _ hs).2.1 s rfl).does
      exact AddsLayers.mono walked fun w q' shaped =>
        .of_parts rfl rfl (shaped.parts.imp fun _ _ h =>
          extended_of_matches h (fun _ _ h => h) fun _ _ h => h.elim)

end Part

theorem length_aliasesFrom (n k : Nat) : (aliasesFrom n k).length = k := by
  rw [aliasesFrom, List.length_map, List.length_range']

theorem mem_aliasesFrom {n k : Nat} {a : Alias} : a ∈ aliasesFrom n k ↔ n ≤ a.id ∧ a.id < n + k := by
  obtain ⟨i⟩ := a
  simp [aliasesFrom, List.mem_range'_1]

theorem nodup_aliasesFrom (n k : Nat) : (aliasesFrom n k).Nodup :=
  (List.nodup_range' 1).map fun _ _ h => congrArg Alias.id h

/-- Distinct layers can be named in any way. -/
theorem exists_naming {ks : List (Alias × Nat)} (nodup : ks.Nodup) {as : List Alias}
    (lengths : as.length = ks.length) : ∃ w : Alias × Nat → Alias, ks.map w = as := by
  refine ⟨fun k => as[ks.idxOf k]?.getD ⟨0⟩, List.ext_getElem (by simp [lengths]) fun i hi hi' => ?_⟩
  have there : i < ks.length := by simpa using hi
  rw [List.getElem_map, nodup.idxOf_getElem i there, List.getElem?_eq_getElem hi', Option.getD_some]

/-- Skipping by row numbers adds one alias for each layer, from the supply, and keeps the others. -/
theorem Expr.declared_skipByRowNumbers {e : Expr} (plainly : (Part.expr e).Every Part.PagesPlainly)
    (nodup : (Part.expr e).declared.Nodup) (supply : Supply) :
    (Part.expr (e.skipByRowNumbers.run supply).1).declared.Perm
      ((Part.expr e).declared ++ aliasesFrom supply.next (Part.expr e).layers.length) := by
  obtain ⟨e', run, extended⟩ := plainly.adds_layers.1 e rfl supply.next
  have run : e.skipByRowNumbers.run supply = (e', ⟨supply.next + (Part.expr e).layers.length⟩) := run
  obtain ⟨w, named⟩ := exists_naming (Part.nodup_layers nodup) (length_aliasesFrom supply.next _)
  rw [run, ← named]
  exact extended w named

/-- Distinct aliases stay distinct. -/
theorem Expr.nodup_skipByRowNumbers {e : Expr} (plainly : (Part.expr e).Every Part.PagesPlainly)
    (nodup : (Part.expr e).declared.Nodup) (supply : Supply)
    (below : ∀ a ∈ (Part.expr e).declared, a.id < supply.next) :
    (Part.expr (e.skipByRowNumbers.run supply).1).declared.Nodup := by
  rw [(declared_skipByRowNumbers plainly nodup supply).nodup_iff, List.nodup_append]
  refine ⟨nodup, nodup_aliasesFrom _ _, fun a ha b hb same => ?_⟩
  have low := below a ha
  have high := (mem_aliasesFrom.mp hb).1
  rw [same] at low
  omega

namespace Sample

def followers : Expr :=
  let team : Select Expr :=
    .plain ⟨3⟩ [⟨"Count", .aggregate .count none false, .int⟩] (some (.table ⟨⟨2⟩, "Employee", "Staff"⟩))
      (some (.equals (.column ⟨⟨2⟩, "boss_id", .int⟩) (.column ⟨⟨1⟩, "ID", .int⟩)))
  let employees : Select Expr :=
    .plain ⟨4⟩ [⟨"Name", .column ⟨⟨1⟩, "Name", .text⟩, .text⟩] (some (.table ⟨⟨1⟩, "Employee", "Staff"⟩)) none
  .select { employees with orderBy := [⟨.descending, .scalar team⟩], skip := some (.int 1) }

/-- The ordering by teams stands in the row number as well, under the same aliases. -/
example : (Part.expr followers).declared = [⟨4⟩, ⟨1⟩, ⟨3⟩, ⟨2⟩]
    ∧ (Part.expr (followers.skipByRowNumbers.run ⟨5⟩).1).declared
      = [⟨4⟩, ⟨5⟩, ⟨1⟩, ⟨3⟩, ⟨2⟩, ⟨3⟩, ⟨2⟩] := by
  decide +kernel

end Sample

end ObjectQuery
