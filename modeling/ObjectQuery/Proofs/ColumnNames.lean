import ObjectQuery.Compile
import ObjectQuery.Proofs.TidyClientJoins
import ObjectQuery.Proofs.TidyLayers
import ObjectQuery.Proofs.TidyNavigation
import ObjectQuery.Proofs.TidyOrderings
import ObjectQuery.Proofs.TidyRewrites
import ObjectQuery.Sample
import Mathlib

/-!
Rows find their values by column names, the first one of a name, so a select with two columns of one
name would silently answer with the wrong value. No pass makes such a select: each keeps a tree tidy,
under the conditions that only some of them need. The keys of a client join are columns of different
names if a column is read at one type only, and the alias that they get is new if no column is read of
it; the column of row numbers has a name of its own.
-/

namespace ObjectQuery

theorem Supply.fst_of_lifted {ε α : Type} {mint : Mint α} {a : α} {supply supply' : Supply}
    (run : (liftM mint : Minting ε α).run supply = .ok (a, supply')) : (mint.run supply).1 = a :=
  congrArg Prod.fst (Except.ok.inj run)

/-- Whichever pass is applied, the columns of every select still differ in their names. The supply is
past the aliases that the tree reads. -/
theorem Pass.columnNames_nodup (ctx : Context) (pass : Pass) {e e' : Expr} {supply supply' : Supply}
    (nodup : ∀ s ∈ (Part.expr e).selects, s.columnNames.Nodup)
    (alike : ReadAlike (Part.expr e).columnRefs)
    (below : ∀ c ∈ (Part.expr e).columnRefs, c.rel.id < supply.next)
    (unnumbered : ∀ s ∈ (Part.expr e).selects, RowNumbers.columnName ∉ s.columnNames)
    (run : (pass.apply ctx e).run supply = .ok (e', supply')) :
    ∀ s ∈ (Part.expr e').selects, s.columnNames.Nodup := by
  have tidy : e.Tidy := Part.tidy_iff_selects.mpr nodup
  refine Part.tidy_iff_selects.mp ?_
  cases pass with
  | groupColumns =>
    cases run
    exact tidy.withGroupColumns
  | orderings =>
    cases run
    exact tidy.hoistOrderings
  | associations => exact tidy.followAssociations run
  | comparisons =>
    cases expanded : e.expandComparisons ctx.mapping with
    | error _ =>
      rw [Pass.apply, expanded] at run
      cases run
    | ok tree =>
      rw [Pass.apply, expanded] at run
      cases run
      exact tidy.expandComparisons expanded
  | singletons => exact Supply.fst_of_lifted run ▸ tidy.withSingletonsJoined ctx supply
  | clientJoins =>
    exact Supply.fst_of_lifted run ▸ tidy.withClientJoins ctx.affinity ⟨alike, below⟩
  | crossJoins => exact Supply.fst_of_lifted run ▸ tidy.withCrossJoinsIsolated supply
  | applies =>
    cases run
    exact tidy.downgradeApplies ctx.affinity
  | repeatedJoins =>
    cases run
    exact tidy.dropRepeatedJoins
  | layers =>
    cases run
    exact tidy.collapseLayers
  | unusedColumns =>
    cases run
    exact tidy.dropUnusedColumns
  | repeatedColumns =>
    cases run
    exact tidy.dropRepeatedColumns
  | nestedTop => exact Supply.fst_of_lifted run ▸ tidy.skipByNestedTop supply
  | rowNumbers => exact Supply.fst_of_lifted run ▸ tidy.skipByRowNumbers unnumbered supply

namespace Sample

def colleagues : Select Expr :=
  .plain ⟨2⟩ [⟨"ID", .column ⟨⟨1⟩, "ID", .int⟩, .int⟩, ⟨"Name", .column ⟨⟨1⟩, "Name", .text⟩, .text⟩]
    (some (.table ⟨⟨1⟩, "Employee", "Staff"⟩)) none

def reporting : Select Expr :=
  .plain ⟨4⟩ [⟨"ID", .column ⟨⟨3⟩, "ID", .int⟩, .int⟩, ⟨"Name", .column ⟨⟨3⟩, "Name", .text⟩, .text⟩]
    (some (.table ⟨⟨3⟩, "Employee", "Staff"⟩))
    (some (.equals (.column ⟨⟨3⟩, "boss_id", .int⟩) (.column ⟨⟨2⟩, "ID", .int⟩)))

def nestedTeams : Expr :=
  .projection ⟨colleagues, .construct none [⟨"Name", .column ⟨⟨2⟩, "Name", .text⟩⟩,
    ⟨"Team", .projection ⟨reporting, .construct none [⟨"ID", .column ⟨⟨4⟩, "ID", .int⟩⟩,
      ⟨"Name", .column ⟨⟨4⟩, "Name", .text⟩⟩], none⟩⟩], none⟩

/-- The number of the boss is joined under another name than the number of who reports. -/
theorem columnNames_nestedTeams :
    (Part.expr ((nestedTeams.withClientJoins .client).run ⟨5⟩).1).selects.map (·.columnNames)
        = [["ID", "Name"], ["ID", "Name", "ID1"], ["ID"], ["ID", "Name"], ["ID", "Name"]]
      ∧ ∀ s ∈ (Part.expr ((nestedTeams.withClientJoins .client).run ⟨5⟩).1).selects,
        s.columnNames.Nodup := by
  refine ⟨by cbv, ?_⟩
  have alike : ReadAlike (Part.expr nestedTeams).columnRefs := by
    unfold ReadAlike
    decide +kernel
  exact Pass.columnNames_nodup (context .ansi .client) .clientJoins (e := nestedTeams) (by decide +kernel)
    alike (by decide +kernel) (by decide +kernel) rfl

end Sample

end ObjectQuery
