import ObjectQuery.Bind.Query
import ObjectQuery.Rewrite.Applies
import ObjectQuery.Rewrite.Associations
import ObjectQuery.Rewrite.ClientJoins
import ObjectQuery.Rewrite.Comparisons
import ObjectQuery.Rewrite.CrossJoins
import ObjectQuery.Rewrite.GroupColumns
import ObjectQuery.Rewrite.Layers
import ObjectQuery.Rewrite.Paging
import ObjectQuery.Rewrite.RepeatedColumns
import ObjectQuery.Rewrite.RepeatedJoins
import ObjectQuery.Rewrite.Singletons
import ObjectQuery.Rewrite.UsedColumns

/-!
Compiling a query: binding it, and running the passes over the bound tree.
-/

namespace ObjectQuery

def Pass.apply (ctx : Context) : Pass → Expr → Minting RewriteError Expr
  | .groupColumns, e => return e.withGroupColumns
  | .orderings, e => return e.hoistOrderings
  | .associations, e => e.followAssociations ctx.mapping
  | .comparisons, e => e.expandComparisons ctx.mapping
  | .singletons, e => e.withSingletonsJoined ctx
  | .clientJoins, e => e.withClientJoins ctx.affinity
  | .crossJoins, e => e.withCrossJoinsIsolated
  | .applies, e => return e.downgradeApplies ctx.affinity
  | .repeatedJoins, e => return e.dropRepeatedJoins
  | .layers, e => return e.collapseLayers
  | .unusedColumns, e => return e.dropUnusedColumns
  | .repeatedColumns, e => return e.dropRepeatedColumns
  | .nestedTop, e => e.skipByNestedTop
  | .rowNumbers, e => e.skipByRowNumbers

structure Rewritten where
  tree : Expr
  passes : List Pass

def Rewritten.next (ctx : Context) (r : Rewritten) (pass : Pass) :
    Minting RewriteError Rewritten := do
  let tree ← pass.apply ctx r.tree
  return { tree, passes := if tree == r.tree then r.passes else r.passes ++ [pass] }

namespace Pipeline

/-- The passes that every tree goes through, in order. Joins are deduplicated once more after layers
are collapsed, because joins from separate accesses meet only then. -/
def passes : List Pass :=
  [.groupColumns, .unusedColumns, .layers, .orderings, .associations, .comparisons, .singletons,
    .clientJoins, .crossJoins, .applies, .repeatedJoins, .layers, .repeatedJoins, .unusedColumns,
    .repeatedColumns]

def pagingPass? : Pagination → Option Pass
  | .offsetFetch => none
  | .nestedTop => some .nestedTop
  | .rowNumber => some .rowNumbers

/-- Runs all passes. Paging leaves orderings in inner selects, which are moved once more if paging
changed anything. -/
def run (ctx : Context) (e : Expr) : Minting RewriteError Rewritten := do
  let r ← passes.foldlM (Rewritten.next ctx) ⟨e, []⟩
  match pagingPass? ctx.dialect.paging with
  | none => return r
  | some pass =>
    let paged ← r.next ctx pass
    if paged.passes.length = r.passes.length then return r
    paged.next ctx .orderings

end Pipeline

inductive CompileError where
  | bind (e : BindError)
  | rewrite (e : RewriteError)

def CompileError.message : CompileError → String
  | .bind e => "BinderError: " ++ e.message
  | .rewrite e => "RewriterError: " ++ e.message

def Expr.compile (ctx : Context) (e : Expr) : Minting CompileError Rewritten := fun supply =>
  match (e.bind ctx).run supply with
  | .error e => .error (.bind e)
  | .ok (bound, supply) =>
    match (Pipeline.run ctx bound).run supply with
    | .error e => .error (.rewrite e)
    | .ok r => .ok r

end ObjectQuery
