import ObjectQuery.Proofs.StackOrdering
import ObjectQuery.Proofs.Tidiness
import ObjectQuery.Rewrite.Paging

/-!
Moving orderings and paging without the words for it keep a tree tidy. An ordering that passes a select
is computed by a column under a free name; a page is a select around others whose columns it forwards,
and the row number is a column of its own where nothing else has its name.
-/

namespace ObjectQuery

open Outcomes (ofState)

namespace Orderings

def TidyOrders (orders : List (Order Expr)) : Prop := ∀ o ∈ orders, o.expr.Tidy

theorem TidyOrders.inFront {first gathered : List (Order Expr)} (h : TidyOrders first)
    (h' : TidyOrders gathered) : TidyOrders (inFront first gathered) := fun o ho =>
  (List.mem_append.mp (mem_of_mem_inFront ho)).elim (h o) (h' o)

theorem TidyOrders.inverted {orders : List (Order Expr)} (h : TidyOrders orders) :
    TidyOrders (inverted orders) := by
  intro o ho
  obtain ⟨o, given, rfl⟩ := List.mem_map.mp ho
  exact h o given

theorem TidyOrders.through {orders : List (Order Expr)} (h : TidyOrders orders) (rel : Alias)
    (declared : List Alias) {columns : List (ColumnDecl Expr)} (tidy : TidyColumns columns) :
    TidyOrders (through rel declared orders columns).1
      ∧ TidyColumns (through rel declared orders columns).2 := by
  induction orders generalizing columns with
  | nil => exact ⟨h, tidy⟩
  | cons o rest ih =>
    have head := h o (by simp)
    have rest : TidyOrders rest := fun o ho => h o (by simp [ho])
    rw [Orderings.through]
    split
    · obtain ⟨orders, columns⟩ := ih rest tidy
      exact ⟨List.forall_mem_cons.mpr ⟨head, orders⟩, columns⟩
    · obtain ⟨orders, columns⟩ :=
        ih rest (tidy.provide (o.expr.baseName ("c" ++ toString columns.length)) head)
      exact ⟨List.forall_mem_cons.mpr ⟨Expr.tidy_column _, orders⟩, columns⟩

variable {α : Type} {R : α → Prop}

theorem keeps_isolated {step : Gather α} (h : (ofState _).Keeps TidyOrders R step) :
    (ofState _).Keeps TidyOrders R (isolated step) :=
  (Outcomes.keeps_get fun _ => id).bind fun _ saved =>
    (Outcomes.keeps_set (by simp [TidyOrders])).bind fun _ _ => h.bind fun _ result =>
      (Outcomes.keeps_set saved).bind fun _ _ => .pure result

/-- What is left to do once the orderings are gathered. -/
theorem keeps_placed {s : Select Expr} (clauses : s.TidyClauses) (receives mayOrder passesOn : Bool) :
    (ofState (List (Order Expr))).Keeps TidyOrders Select.Tidy (do
      let gathered ← get
      let orderBy := if receives then gathered else if mayOrder then s.orderBy else []
      let (passed, columns) :=
        if passesOn then through s.rel s.sourceAliases gathered s.columns else ([], s.columns)
      set (inFront passed [])
      return { s with columns, orderBy, reversed := false }) := by
  refine (Outcomes.keeps_get fun _ => id).bind fun gathered tidy => ?_
  have passing : TidyOrders (if passesOn then through s.rel s.sourceAliases gathered s.columns
      else ([], s.columns)).1 ∧ TidyColumns (if passesOn then
      through s.rel s.sourceAliases gathered s.columns else ([], s.columns)).2 := by
    split
    · exact tidy.through s.rel s.sourceAliases clauses.columns
    · exact ⟨by simp [TidyOrders], clauses.columns⟩
  generalize (if passesOn then through s.rel s.sourceAliases gathered s.columns
    else ([], s.columns)) = placed at passing ⊢
  obtain ⟨passed, columns⟩ := placed
  obtain ⟨tidyPassed, tidyColumns⟩ := passing
  refine (Outcomes.keeps_set (tidyPassed.inFront (by simp [TidyOrders]))).bind fun _ _ => .pure ?_
  refine Select.TidyClauses.tidy { clauses with columns := tidyColumns, orderBy := ?_ }
  split
  · exact tidy
  · split
    exacts [clauses.orderBy, by simp]

theorem keeps_settle (outermost : Bool) {s : Select Expr} (h : s.Tidy) :
    (ofState _).Keeps TidyOrders Select.Tidy (settle outermost s) := by
  have clauses := h.clauses
  rw [settle]
  refine (Outcomes.keeps_modify fun _ gathered => TidyOrders.inFront clauses.orderBy gathered).bind fun _ _ => ?_
  cases s.reversed with
  | true =>
    exact (Outcomes.keeps_modify fun _ gathered => gathered.inverted).bind fun _ _ =>
      keeps_placed clauses _ _ _
  | false => exact keeps_placed clauses _ _ _

def walker (outermost : Bool) : Walker Gather :=
  ⟨Expr.hoist outermost, Select.hoist outermost, Projection.hoist outermost⟩

theorem keeps_tidy {p : Part} (h : p.Tidy) (outermost : Bool) :
    (walker outermost).Keeps (ofState _) TidyOrders Part.NamesOnce p := by
  induction h generalizing outermost with
  | @node p here _ ih =>
    cases p with
    | expr e =>
      change (ofState _).Keeps TidyOrders Expr.Tidy (e.hoist outermost)
      have walked := Walker.Keeps.traverse (fun q hq => ih q hq outermost) Part.lasting_namesOnce here
      cases e with
      | setOp rel kind left right =>
        have onLeft := ih (.select left) (by simp [Part.parts]) outermost
        have onRight := ih (.select right) (by simp [Part.parts]) outermost
        rw [Expr.hoist]
        exact keeps_isolated (Outcomes.Keeps.bind onLeft fun left hl =>
          (Outcomes.keeps_set (by simp [TidyOrders])).bind fun _ _ => Outcomes.Keeps.bind onRight
            fun right hr => .pure (Expr.tidy_setOp.mpr ⟨hl, hr⟩))
      | join kind left right on =>
        have onLeft := ih (.expr left) (by simp [Part.parts]) outermost
        have onRight := ih (.expr right) (by simp [Part.parts]) outermost
        have onCondition := Outcomes.Keeps.option (o := on) fun c hc =>
          ih (.expr c) (by simp [Part.parts, Option.mem_def.mp hc]) outermost
        rw [Expr.hoist]
        refine Outcomes.Keeps.bind onLeft fun left hl => ?_
        refine (Outcomes.keeps_modifyGet (f := fun gathered => (gathered, [])) (R := TidyOrders)
          fun _ gathered => ⟨gathered, by simp [TidyOrders]⟩).bind fun fromLeft hf => ?_
        refine Outcomes.Keeps.bind onRight fun right hr => ?_
        refine (Outcomes.keeps_modify fun _ gathered => hf.inFront gathered).bind fun _ _ => ?_
        exact onCondition.bind fun on hon => .pure (Expr.tidy_join.mpr ⟨hl, hr, hon⟩)
      | _ =>
        rw [Expr.hoist.eq_3 _ _ (by simp) (by simp)]
        split
        exacts [keeps_isolated walked, walked]
    | select s =>
      change (ofState _).Keeps TidyOrders Select.Tidy (s.hoist outermost)
      rw [Select.hoist]
      exact (Walker.Keeps.traverseSelect (fun q hq => ih q hq false) Part.lasting_namesOnce here).bind
        fun s hs => keeps_settle outermost hs
    | projection p =>
      change (ofState _).Keeps TidyOrders Projection.Tidy (p.hoist outermost)
      rw [Projection.hoist]
      exact Walker.Keeps.traverseProjection (fun q hq => ih q hq outermost) Part.lasting_namesOnce here

end Orderings

theorem Expr.Tidy.hoistOrderings {e : Expr} (h : e.Tidy) : e.hoistOrderings.Tidy :=
  Outcomes.Keeps.result (Orderings.keeps_tidy h true) (s := []) (by simp [Orderings.TidyOrders])

theorem Select.Tidy.hoistOrderings {s : Select Expr} (h : s.Tidy) : s.hoistOrderings.Tidy :=
  Outcomes.Keeps.result (Orderings.keeps_tidy h true) (s := []) (by simp [Orderings.TidyOrders])

theorem Expr.tidy_plus {a b : Expr} (ha : a.Tidy) (hb : b.Tidy) : (a.plus b).Tidy := by
  obtain ⟨n, sum⟩ | sum := plus_eq a b
  · rw [sum]
    exact tidy_const _
  · rw [sum]
    exact tidy_binary.mpr ⟨ha, hb⟩

namespace NestedTop

theorem inverts {s : Select Expr} (h : s.Tidy) :
    Select.TidyClauses { s with orderBy := Orderings.inverted s.orderBy } := by
  have clauses := h.clauses
  have orders : Orderings.TidyOrders s.orderBy := clauses.orderBy
  exact { clauses with orderBy := orders.inverted }

theorem keeps_page {s : Select Expr} {skip take : Expr} (h : s.Tidy) (hs : skip.Tidy) (ht : take.Tidy) :
    (ofState Supply).Keeps (fun _ => True) Select.Tidy (page s skip take) := by
  have clauses := h.clauses
  have first : Select.TidyClauses { s with take := some (skip.plus take), skip := none } :=
    { clauses with take := by simpa using Expr.tidy_plus hs ht, skip := by simp }
  rw [page]
  refine Outcomes.Keeps.anything.bind fun inner _ => ?_
  have limited : Select.Tidy { Select.wrapped _ inner with take := some take } :=
    Select.TidyClauses.tidy { first.wrapped inner with take := by simpa using ht }
  have last := inverts limited.hoistOrderings
  refine Outcomes.Keeps.anything.bind fun outer _ => .pure ?_
  have sorted : Select.Tidy { Select.wrapped _ outer with take := some (.int 0) } :=
    Select.TidyClauses.tidy { last.wrapped outer with take := by simp [Expr.int] }
  exact Select.TidyClauses.tidy { inverts sorted.hoistOrderings with take := by simp }

theorem keeps_finish {s : Select Expr} (h : s.Tidy) :
    (ofState Supply).Keeps (fun _ => True) Select.Tidy (finish s) := by
  unfold finish
  split
  · rename_i skip take hs ht
    split
    · exact .pure h
    · exact keeps_page h (h.clauses.skip skip hs) (h.clauses.take take ht)
  · exact .pure h

end NestedTop

theorem Expr.Tidy.skipByNestedTop {e : Expr} (h : e.Tidy) (supply : Supply) :
    (e.skipByNestedTop.run supply).1.Tidy :=
  Outcomes.Keeps.result (Finish.keeps_tidy (I := fun _ => True) (fun _ he => .pure he)
    (fun _ hs => NestedTop.keeps_finish hs) h) trivial

def Part.Numberable : Part → Prop
  | .select s => s.columnNames.Nodup ∧ RowNumbers.columnName ∉ s.columnNames
  | _ => True

theorem Part.lasting_numberable : Lasting Numberable where
  expr _ _ := trivial
  select shaped h := by
    rw [Numberable, shaped.columnNames]
    exact h
  projection _ _ := trivial

theorem Part.Numberable.namesOnce : (p : Part) → p.Numberable → p.NamesOnce
  | .select _, h => h.1
  | .expr _, _ | .projection _, _ => trivial

namespace RowNumbers

open Orderings (TidyOrders)

variable {s : Select Expr}

theorem tidy_through {orders : List (Order Expr)} (h : TidyOrders orders) (rel : Alias)
    {columns : List (ColumnDecl Expr)} (tidy : TidyColumns columns) :
    TidyOrders (through rel orders columns).1 ∧ TidyColumns (through rel orders columns).2 := by
  induction orders generalizing columns with
  | nil => exact ⟨h, tidy⟩
  | cons o rest ih =>
    obtain ⟨orders, columns⟩ := ih (fun o ho => h o (by simp [ho]))
      (tidy.provide (o.expr.baseName "o") (h o (by simp)))
    exact ⟨List.forall_mem_cons.mpr ⟨Expr.tidy_column _, orders⟩, columns⟩

theorem columnNames_wrapped (s : Select Expr) (inner : Alias) : (s.wrapped inner).columnNames = s.columnNames := by
  simp [Select.wrapped, Select.plain, Select.columnNames, Function.comp_def]

theorem keeps_unpaged (h : s.Tidy) :
    (ofState Supply).Keeps (fun _ => True) (fun r => r.1.Tidy ∧ r.1.columnNames = s.columnNames
      ∧ TidyOrders r.2) (unpaged s) := by
  have clauses := h.clauses
  have bare : Select.TidyClauses { s with skip := none, take := none } :=
    { clauses with skip := by simp, take := by simp }
  have orders : TidyOrders s.orderBy := clauses.orderBy
  unfold unpaged
  simp only
  split
  · refine Outcomes.Keeps.anything.bind fun rel _ => .pure ?_
    obtain ⟨passed, columns⟩ := tidy_through orders rel clauses.columns
    have below : Select.Tidy { s with
        skip := none, take := none, rel, columns := (through rel s.orderBy s.columns).2 } :=
      Select.TidyClauses.tidy { bare with columns }
    refine ⟨Select.TidyClauses.tidy { bare.wrapped rel with source := by simpa using below }, ?_, passed⟩
    exact columnNames_wrapped _ rel
  · exact .pure ⟨bare.tidy, rfl, orders⟩

theorem tidy_inPage {number skip : Expr} {take : Option Expr} (hn : number.Tidy) (hs : skip.Tidy)
    (ht : ∀ e ∈ take, e.Tidy) : (inPage number skip take).Tidy := by
  cases take with
  | none => exact Expr.tidy_binary.mpr ⟨hn, hs⟩
  | some take =>
    exact Expr.tidy_between.mpr ⟨hn, Expr.tidy_plus hs (Expr.tidy_const _), Expr.tidy_plus hs (ht take rfl)⟩

theorem keeps_finish (h : s.Tidy) (free : columnName ∉ s.columnNames) :
    (ofState Supply).Keeps (fun _ => True) Select.Tidy (finish s) := by
  unfold finish
  split
  · exact .pure h
  · rename_i skip hs
    refine (keeps_unpaged h).bind ?_
    rintro ⟨unpaged, orderBy⟩ ⟨tidy, names, orders⟩
    have clauses := tidy.clauses
    have unused : columnName ∉ unpaged.columnNames := by rwa [names]
    have numbered : Select.TidyClauses
        { unpaged with columns := unpaged.columns ++ [⟨columnName, .rowNumber orderBy, .int⟩] } :=
      { clauses with columns := clauses.columns.concat unused (Expr.tidy_rowNumber.mpr orders) }
    refine Outcomes.Keeps.anything.bind fun rel _ => .pure (Select.TidyClauses.tidy ?_)
    have outer := numbered.wrapped rel
    have filter := tidy_inPage (Expr.tidy_column ⟨rel, columnName, .int⟩) (h.clauses.skip skip hs) h.clauses.take
    exact { outer with columns := outer.columns.sublist List.filter_sublist, filter := by simpa using filter }

end RowNumbers

theorem Expr.Tidy.skipByRowNumbers {e : Expr} (h : e.Tidy)
    (free : ∀ s ∈ (Part.expr e).selects, RowNumbers.columnName ∉ s.columnNames) (supply : Supply) :
    (e.skipByRowNumbers.run supply).1.Tidy := by
  have numberable : (Part.expr e).Every Part.Numberable := by
    refine (h.and ((Part.expr e).every_of_gather free)).mono fun q here => ?_
    cases q with
    | select s => exact ⟨here.1, here.2 s (by simp)⟩
    | expr _ | projection _ => trivial
  exact Outcomes.Keeps.result (Finish.keeps_tidy_of (I := fun _ => True) Part.lasting_numberable
    Part.Numberable.namesOnce (fun _ _ he => .pure he)
    (fun _ here hs => RowNumbers.keeps_finish hs here.2) numberable) trivial

end ObjectQuery
