import ObjectQuery.Settings

/-!
The passes that simplify a bound tree, by name, and the ways in which one can fail.
-/

namespace ObjectQuery

inductive Pass where
  | groupColumns
  | orderings
  | associations
  | comparisons
  | singletons
  | clientJoins
  | crossJoins
  | applies
  | repeatedJoins
  | layers
  | unusedColumns
  | repeatedColumns
  | nestedTop
  | rowNumbers
deriving DecidableEq, Repr

namespace Pass

def all : List Pass :=
  [.groupColumns, .orderings, .associations, .comparisons, .singletons, .clientJoins, .crossJoins,
    .applies, .repeatedJoins, .layers, .unusedColumns, .repeatedColumns, .nestedTop, .rowNumbers]

def name : Pass → String
  | .groupColumns => "AggregateRewriter"
  | .orderings => "OrderByRewriter"
  | .associations => "RelationshipBinder"
  | .comparisons => "EntityComparison"
  | .singletons => "SingletonProjection"
  | .clientJoins => "ClientJoin"
  | .crossJoins => "CrossJoinIsolator"
  | .applies => "CrossApplyRewriter"
  | .repeatedJoins => "RedundantJoinRemover"
  | .layers => "RedundantSubqueryRemover"
  | .unusedColumns => "UnusedColumnRemover"
  | .repeatedColumns => "RedundantColumnRemover"
  | .nestedTop => "SkipTakeToTop"
  | .rowNumbers => "SkipToRowNumber"

def ofName? (name : String) : Option Pass :=
  all.find? (·.name == name)

end Pass

inductive RewriteError where
  | incomparable (left right : List String)
  | mapping (pass : Pass) (e : Mapping.Error)
deriving DecidableEq, Repr

def RewriteError.message : RewriteError → String
  | .incomparable left right =>
    Pass.comparisons.name ++ ": cannot compare constructed types with members ["
      ++ ", ".intercalate left ++ "] and [" ++ ", ".intercalate right ++ "]"
  | .mapping pass e => "MappingError: " ++ pass.name ++ ": " ++ e.message ++ "."

end ObjectQuery
