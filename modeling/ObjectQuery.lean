import ObjectQuery.Bind.Basic
import ObjectQuery.Bind.Groups
import ObjectQuery.Bind.Query
import ObjectQuery.Bind.Sequences
import ObjectQuery.Bind.Sets
import ObjectQuery.Bind.Tests
import ObjectQuery.Bind.Writes
import ObjectQuery.Columns
import ObjectQuery.CommandLine.Arguments
import ObjectQuery.CommandLine.Run
import ObjectQuery.Compile
import ObjectQuery.Dialect
import ObjectQuery.Document
import ObjectQuery.EnvFile
import ObjectQuery.Eval.Arithmetic
import ObjectQuery.Eval.Client
import ObjectQuery.Eval.Error
import ObjectQuery.Eval.Relation
import ObjectQuery.Eval.Scope
import ObjectQuery.Json
import ObjectQuery.Language.Lower
import ObjectQuery.Language.Parser
import ObjectQuery.Language.Syntax
import ObjectQuery.Main
import ObjectQuery.Mapping.Basic
import ObjectQuery.Mapping.Relations
import ObjectQuery.Numeral
import ObjectQuery.OuterJoin
import ObjectQuery.Query
import ObjectQuery.Rewrite.Applies
import ObjectQuery.Rewrite.Associations
import ObjectQuery.Rewrite.ClientJoins
import ObjectQuery.Rewrite.Comparisons
import ObjectQuery.Rewrite.CrossJoins
import ObjectQuery.Rewrite.GroupColumns
import ObjectQuery.Rewrite.Layers
import ObjectQuery.Rewrite.Orderings
import ObjectQuery.Rewrite.Paging
import ObjectQuery.Rewrite.Pass
import ObjectQuery.Rewrite.RepeatedColumns
import ObjectQuery.Rewrite.RepeatedJoins
import ObjectQuery.Rewrite.Singletons
import ObjectQuery.Rewrite.UsedColumns
import ObjectQuery.Sample
import ObjectQuery.Settings
import ObjectQuery.Text.Case
import ObjectQuery.Text.CaseTables
import ObjectQuery.Text.Decimal
import ObjectQuery.Text.HiddenTables
import ObjectQuery.Text.LetterTables
import ObjectQuery.Tree.Aliases
import ObjectQuery.Tree.Alike
import ObjectQuery.Tree.Basic
import ObjectQuery.Tree.Canonical
import ObjectQuery.Tree.Copy
import ObjectQuery.Tree.Decode
import ObjectQuery.Tree.Encode
import ObjectQuery.Tree.Member
import ObjectQuery.Tree.Operands
import ObjectQuery.Tree.Parts
import ObjectQuery.Tree.Render
import ObjectQuery.Tree.Same
import ObjectQuery.Tree.Substitute
import ObjectQuery.Tree.Traverse
import ObjectQuery.Value
import ObjectQuery.Yaml
import ObjectQuery.Yaml.Cursor
import ObjectQuery.Yaml.Property
import ObjectQuery.Yaml.Scalar
import ObjectQuery.Yaml.Token
import ObjectQuery.Proofs.StableSort
import ObjectQuery.Proofs.KeyOrder
import ObjectQuery.Proofs.Plain
import ObjectQuery.Proofs.Stack
import ObjectQuery.Proofs.StackSimulation
import ObjectQuery.Proofs.StackWalk
import ObjectQuery.Proofs.StackColumns
import ObjectQuery.Proofs.StackLayers
import ObjectQuery.Proofs.Naming
import ObjectQuery.Proofs.StackOrdering
import ObjectQuery.Proofs.Expansion
import ObjectQuery.Proofs.StackComparisons
import ObjectQuery.Proofs.Ranking
import ObjectQuery.Proofs.StackNumbering
import ObjectQuery.Proofs.Members
import ObjectQuery.Proofs.Splitting
import ObjectQuery.Proofs.Chains
import ObjectQuery.Proofs.Pipeline
import ObjectQuery.Proofs.Following
import ObjectQuery.Proofs.Shape
import ObjectQuery.Proofs.Congruence
import ObjectQuery.Proofs.Nodes
import ObjectQuery.Proofs.Correspondence
import ObjectQuery.Proofs.Residual
import ObjectQuery.Proofs.FaithfulSplit
import ObjectQuery.Proofs.FlatSelects
import ObjectQuery.Proofs.ApplyJoins
import ObjectQuery.Proofs.Downgrading
import ObjectQuery.Proofs.Scoping
import ObjectQuery.Proofs.Marking
import ObjectQuery.Proofs.Narrowing
import ObjectQuery.Proofs.UnusedColumns
import ObjectQuery.Proofs.Layering
import ObjectQuery.Proofs.Unions
import ObjectQuery.Proofs.AlikeCopies
import ObjectQuery.Proofs.AlikeSelects
import ObjectQuery.Proofs.NumberedPages
import ObjectQuery.Proofs.SkippedRows
import ObjectQuery.Proofs.Renaming
import ObjectQuery.Proofs.Comparison
import ObjectQuery.Proofs.Lockstep
import ObjectQuery.Proofs.Copies
import ObjectQuery.Proofs.PagedAliases
import ObjectQuery.Proofs.Retracing
import ObjectQuery.Proofs.SettledColumns
import ObjectQuery.Proofs.LockstepObjects
import ObjectQuery.Proofs.Realiasing
import ObjectQuery.Proofs.Keeping
import ObjectQuery.Proofs.Tidiness
import ObjectQuery.Proofs.TidyRewrites
import ObjectQuery.Proofs.TidyLayers
import ObjectQuery.Proofs.TidyOrderings
import ObjectQuery.Proofs.TidyNavigation
import ObjectQuery.Proofs.TidyClientJoins
import ObjectQuery.Proofs.ColumnNames
import ObjectQuery.Proofs.KeyGroups
import ObjectQuery.Proofs.Records
import ObjectQuery.Proofs.RecordCopies
import ObjectQuery.Proofs.GroupedSelects
import ObjectQuery.Proofs.Groupings
import ObjectQuery.Proofs.Partition
import ObjectQuery.Proofs.GroupTotals
import ObjectQuery.Proofs.GroupColumns
import ObjectQuery.Proofs.GroupReports
import ObjectQuery.Proofs.JoinFamilies
import ObjectQuery.Proofs.PlacedAggregates
import ObjectQuery.Proofs.Navigations
import ObjectQuery.Proofs.Hops
import ObjectQuery.Proofs.CountedRows
import ObjectQuery.Proofs.SourcedDialects
import ObjectQuery.Proofs.Views
import ObjectQuery.Proofs.Flattening
import ObjectQuery.Proofs.Agreement
import ObjectQuery.Proofs.Memberships
import ObjectQuery.Proofs.GroupJoins
import ObjectQuery.Proofs.ExpandedComparisons
import ObjectQuery.Proofs.Printing
import ObjectQuery.Proofs.ReadTokens
import ObjectQuery.Proofs.ReadTerms
import ObjectQuery.Proofs.ReadOperators
import ObjectQuery.Proofs.StraightenedRows
import ObjectQuery.Proofs.HoistedOrderings
import ObjectQuery.Proofs.Mirroring
import ObjectQuery.Proofs.EqualColumns
import ObjectQuery.Proofs.FoldedColumns
import ObjectQuery.Proofs.Likeness
import ObjectQuery.Proofs.QueryScopes
import ObjectQuery.Proofs.RenamedQueries
import ObjectQuery.Proofs.MemberValues
import ObjectQuery.Proofs.ResolvedMappings
import ObjectQuery.Proofs.Conditions
import ObjectQuery.Proofs.ConstantLists
import ObjectQuery.Proofs.MatchingSteps
import ObjectQuery.Proofs.OrderingChains
import ObjectQuery.Proofs.JoinTests
import ObjectQuery.Proofs.NullSafeKeys
import ObjectQuery.Proofs.ExpansionRuns
import ObjectQuery.Proofs.FloatOrder
import ObjectQuery.Proofs.SortOrder
import ObjectQuery.Proofs.Substitution
import ObjectQuery.Proofs.NameSearch
import ObjectQuery.Proofs.SettledLayers
import ObjectQuery.Proofs.ScopeSafety
import ObjectQuery.Proofs.DroppedJoins
