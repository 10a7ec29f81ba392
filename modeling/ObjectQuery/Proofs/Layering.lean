import ObjectQuery.Bind.Basic
import ObjectQuery.Proofs.FlatSelects

/-!
Selects that are put over a relation. The shape of an element is split into columns of a new select;
from a row of it the client makes the same object as from the frame that the row was computed in. So
a layer over a projection has the same elements.
-/

namespace ObjectQuery

open Eval

structure Expr.Splits (D R : Alias → Prop) (shape : Expr) : Prop where
  tame : (Part.expr shape).Every (Part.Tame D R)
  aggregates : (Part.expr shape).aggregates = false
  unjoined : (Part.expr shape).Every Part.Unjoined

def Expr.splitOver (shape : Expr) (affinity : Affinity) (rel : Alias) (base : Expr) : Select Expr :=
  .plain rel (shape.split affinity [] rel base.declares).columns (some base) none

variable {D R : Alias → Prop} {rel : Alias} (affinity : Affinity)

namespace Expr.Splits

variable {shape : Expr} (splits : shape.Splits D R) (base : Expr)
  (declared : ∀ a, D a → a ∉ base.declares ∧ a ≠ rel) (reads : ∀ a, R a → a ≠ rel)
include splits declared reads

/-- The columns that are split off a shape. -/
theorem columns :
    (∀ d ∈ (shape.splitOver affinity rel base).columns, d.Single)
      ∧ (shape.splitOver affinity rel base).columnNames.Nodup := by
  obtain ⟨⟨added, columns, names, fits⟩, -⟩ :=
    Expr.split_rebuilds affinity ⟨[]⟩ [] splits.tame splits.aggregates declared reads
  refine ⟨fun d hd => ?_, names List.nodup_nil⟩
  rw [splitOver, Select.plain, columns, List.nil_append] at hd
  exact ⟨(fits d hd).2, Expr.not_rowNumber (fits d hd).1⟩

/-- What is left of a shape reads the select besides. -/
theorem rest :
    (Part.expr (shape.split affinity [] rel base.declares).projector).Every
        (Part.Tame D fun a => R a ∨ a = rel)
      ∧ (Part.expr (shape.split affinity [] rel base.declares).projector).Every Part.Unjoined := by
  obtain ⟨-, shown⟩ :=
    Expr.split_rebuilds affinity ⟨[]⟩ [] splits.tame splits.aggregates declared reads
  exact ⟨shown.tame, shown.unjoined splits.unjoined⟩

/-- From a row of the select the client makes what it makes from the frame of the source that passed the
filter. -/
theorem filtered {filter : Option Expr} (unaggregated : ∀ e ∈ filter, (Part.expr e).aggregates = false)
    {tables : Tables} {σ : Scope} {rows : List Row}
    (h : Eval.select tables { shape.splitOver affinity rel base with filter } σ = .ok rows) :
    ∃ frames kept, Eval.source tables base σ = .ok frames
      ∧ frames.filterM (fun f => meets tables filter (σ.extend f)) = .ok kept
      ∧ List.Forall₂ (fun f row => FollowsRun (client tables shape (σ.extend f))
        (client tables (shape.split affinity [] rel base.declares).projector (σ.bind rel row))) kept rows := by
  obtain ⟨-, shown⟩ :=
    Expr.split_rebuilds affinity tables [] splits.tame splits.aggregates declared reads
  obtain ⟨single, names⟩ := splits.columns affinity base declared reads
  obtain ⟨frames, kept, hframes, hkept, computed, rfl⟩ := Select.of_filtered_rows single unaggregated h
  refine ⟨frames, kept, hframes, hkept, ?_⟩
  rw [List.forall₂_map_right_iff, List.forall₂_same]
  intro f hf
  refine shown.objects splits.unjoined (σ.extend f) _ _ _
    (fun d hd => ⟨_, get?_rowIn names f hd, computed f hf d hd⟩) ⟨?_, fun _ => rfl, rfl, rfl⟩
  exact Split.viewing_rows (s := shape.splitOver affinity rel base) hframes (mem_of_filterM hkept f hf) _ σ

theorem elements (tables : Tables) (σ : Scope) :
    Follows (List.Forall₂ fun f row => FollowsRun (client tables shape (σ.extend f))
        (client tables (shape.split affinity [] rel base.declares).projector (σ.bind rel row)))
      (Eval.source tables base σ) (Eval.select tables (shape.splitOver affinity rel base) σ) := by
  intro rows h
  have unaggregated : ∀ e ∈ (none : Option Expr), (Part.expr e).aggregates = false := by simp
  obtain ⟨frames, kept, hframes, hkept, elements⟩ := splits.filtered affinity base declared reads unaggregated h
  obtain rfl := Except.ok.inj (hkept.symm.trans (filterM_meets_none frames _))
  exact ⟨_, hframes, elements⟩

end Expr.Splits

def Eval.elements (tables : Tables) (p : Projection Expr) (scope : Scope) : Client (List ClientValue) := do
  let rows ← liftM (Eval.select tables p.select scope)
  rows.mapM fun row => client tables p.projector (scope.bind p.select.rel row)

theorem Eval.elements_run {tables : Tables} {p : Projection Expr} {scope : Scope}
    {s : List (Alias × JoinedRows)} {r : List ClientValue × List (Alias × JoinedRows)} :
    (elements tables p scope).run s = .ok r ↔ ∃ rows, Eval.select tables p.select scope = .ok rows
      ∧ (rows.mapM fun row => client tables p.projector (scope.bind p.select.rel row)).run s = .ok r := by
  rw [elements, StateT.run_bind, bind_eq_ok]
  refine ⟨fun ⟨x, hx, h⟩ => ?_, fun ⟨rows, hrows, h⟩ => ⟨(rows, s), ?_, h⟩⟩
  · obtain ⟨rows, hrows, hx⟩ := bind_eq_ok.mp hx
    obtain rfl := Except.ok.inj hx
    exact ⟨rows, hrows, h⟩
  · exact bind_eq_ok.mpr ⟨rows, hrows, rfl⟩

theorem Eval.elements_lifted {p : Projection Expr} (unjoined : (Part.expr p.projector).Every Part.Unjoined)
    (tables : Tables) (scope : Scope) : Lifted (elements tables p scope) :=
  (Lifted.lift _).bind fun _ => Lifted.mapM fun _ _ => client_lifted unjoined tables _

theorem Eval.project_elements (tables : Tables) (p : Projection Expr) (scope : Scope) :
    project tables p scope = (do liftM (picked p.pick (← elements tables p scope))) := by
  rw [project_eq, elements, bind_assoc]

theorem Eval.client_elements_run {tables : Tables} {p : Projection Expr} (all : p.pick = none) {scope : Scope}
    {s : List (Alias × JoinedRows)} {r : ClientValue × List (Alias × JoinedRows)} :
    (client tables (.projection p) scope).run s = .ok r ↔
      ∃ values, (elements tables p scope).run s = .ok (values, r.2) ∧ r.1 = .list values := by
  have client_eq : client tables (.projection p) scope
      = (do return .list (← elements tables p scope)) := by
    rw [client, project_elements, all]
    rfl
  obtain ⟨v, joined⟩ := r
  rw [client_eq, StateT.run_bind, bind_eq_ok]
  constructor
  · rintro ⟨⟨values, _⟩, hvalues, run⟩
    obtain ⟨rfl, rfl⟩ := Prod.mk.inj (Except.ok.inj run)
    exact ⟨values, hvalues, rfl⟩
  · rintro ⟨values, hvalues, rfl⟩
    exact ⟨(values, joined), hvalues, rfl⟩

/-- What a query for all elements answers. -/
theorem Eval.execute_elements {tables : Tables} {p : Projection Expr} (all : p.pick = none)
    {v : ClientValue} : (Expr.projection p).execute tables = .ok v ↔
      ∃ values joined, (elements tables p .root).run [] = .ok (values, joined) ∧ v = .list values := by
  rw [Expr.execute_eq_ok]
  constructor
  · rintro ⟨-, joined, run⟩
    obtain ⟨values, hvalues, hv⟩ := (client_elements_run all).mp run
    exact ⟨values, joined, hvalues, hv⟩
  · rintro ⟨values, joined, run, hv⟩
    exact ⟨by simp, joined, (client_elements_run all).mpr ⟨values, run, hv⟩⟩

def Expr.elementsOver (shape : Expr) (affinity : Affinity) (rel : Alias) (base : Expr) : Projection Expr where
  select := shape.splitOver affinity rel base
  projector := (shape.split affinity [] rel base.declares).projector
  pick := none

/-- They are made from the frames of the relation. -/
theorem Expr.Splits.execute {shape : Expr} (splits : shape.Splits D R) (base : Expr)
    (declared : ∀ a, D a → a ∉ base.declares ∧ a ≠ rel) (reads : ∀ a, R a → a ≠ rel) {tables : Tables}
    {v : ClientValue} (h : (Expr.projection (shape.elementsOver affinity rel base)).execute tables = .ok v) :
    ∃ frames values, Eval.source tables base .root = .ok frames ∧ v = .list values
      ∧ (frames.mapM fun f => client tables shape (Scope.root.extend f)).run [] = .ok (values, []) := by
  obtain ⟨values, joined, run, rfl⟩ := (execute_elements rfl).mp h
  obtain ⟨rows, hrows, run⟩ := elements_run.mp run
  obtain ⟨frames, hframes, elements⟩ := splits.elements affinity base declared reads tables .root rows hrows
  have objects : (frames.mapM fun f => client tables shape (Scope.root.extend f)).run [] = .ok (values, joined) :=
    (FollowsRun.mapM elements (fun _ _ h => h) []).eq_ok run
  have lifted : Lifted (frames.mapM fun f => client tables shape (Scope.root.extend f)) :=
    Lifted.mapM fun f _ => client_lifted splits.unjoined tables _
  exact ⟨frames, values, hframes, rfl, lifted.run objects []⟩

namespace Projection

def layered (p : Projection Expr) (affinity : Affinity) (rel : Alias) : Projection Expr where
  select := p.projector.splitOver affinity rel (.select p.select)
  projector := (p.projector.split affinity [] rel [p.select.rel]).projector
  pick := none

variable {p : Projection Expr} (splits : p.projector.Splits D R)
  (declared : ∀ a, D a → a ∉ [p.select.rel] ∧ a ≠ rel) (reads : ∀ a, R a → a ≠ rel)
include splits declared reads

/-- A layer has the elements of what it is put over. -/
theorem layered_follows (tables : Tables) (σ : Scope) :
    FollowsRun (elements tables p σ) (elements tables (p.layered affinity rel) σ) := by
  have rows : Follows (List.Forall₂ fun row row' => FollowsRun
        (client tables p.projector (σ.bind p.select.rel row))
        (client tables (p.layered affinity rel).projector (σ.bind rel row')))
      (Eval.select tables p.select σ) (Eval.select tables (p.layered affinity rel).select σ) := by
    intro rows' h
    obtain ⟨frames, hframes, elements⟩ :=
      splits.elements affinity (.select p.select) declared reads tables σ rows' h
    rw [source_select] at hframes
    obtain ⟨rows, hrows, hframes⟩ := bind_eq_ok.mp hframes
    obtain rfl := Except.ok.inj hframes
    exact ⟨rows, hrows, List.forall₂_map_left_iff.mp elements⟩
  exact FollowsRun.liftBind rows fun _ _ h => FollowsRun.mapM h fun _ _ h => h

def filtered (p : Projection Expr) (affinity : Affinity) (rel : Alias) (condition : Expr) : Projection Expr :=
  { p.layered affinity rel with select := { (p.layered affinity rel).select with filter := some condition } }

/-- A filter keeps the rows for which its condition holds. -/
theorem filtered_elements {condition : Expr} (unaggregated : (Part.expr condition).aggregates = false)
    {tables : Tables} {σ : Scope} {s : List (Alias × JoinedRows)}
    {r : List ClientValue × List (Alias × JoinedRows)}
    (h : (elements tables (p.filtered affinity rel condition) σ).run s = .ok r) :
    ∃ rows kept, Eval.select tables p.select σ = .ok rows
      ∧ rows.filterM (fun row => meets tables (some condition) (σ.bind p.select.rel row)) = .ok kept
      ∧ (kept.mapM fun row => client tables p.projector (σ.bind p.select.rel row)).run s = .ok r := by
  obtain ⟨rows', hrows', run⟩ := elements_run.mp h
  have test : ∀ e ∈ some condition, (Part.expr e).aggregates = false := by
    rintro _ ⟨⟩
    exact unaggregated
  obtain ⟨frames, kept, hframes, hkept, elements⟩ :=
    splits.filtered affinity (.select p.select) declared reads test hrows'
  rw [source_select] at hframes
  obtain ⟨rows, hrows, hframes⟩ := bind_eq_ok.mp hframes
  obtain rfl := Except.ok.inj hframes
  obtain ⟨met, hmet, rfl⟩ := filterM_map hkept
  refine ⟨rows, met, hrows, hmet, ?_⟩
  exact (FollowsRun.mapM (List.forall₂_map_left_iff.mp elements) (fun _ _ h => h) s).eq_ok run

end Projection

end ObjectQuery
