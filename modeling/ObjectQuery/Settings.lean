import ObjectQuery.Dialect
import ObjectQuery.Mapping.Relations
import ObjectQuery.Text.Case
import ObjectQuery.Yaml

/-!
The settings of a compilation: the dialect, the side that computes what both sides could, and the
associations whose rows are fetched by a query of their own. They come from environment variables or
from a file. With a mapping they are what a compilation knows besides the query.
-/

namespace ObjectQuery

/-- The members to fetch separately: each entry is a member, or an entity and a member with a point
between them. -/
structure Policy where
  deferred : List String
deriving DecidableEq, Repr

namespace Policy

def splitEntry (entry : String) : Option (String × String) :=
  match entry.toList.span (· ≠ '.') with
  | (_, []) => none
  | (before, _ :: after) => some (String.ofList before, String.ofList after)

def isDeferred (p : Policy) (entity : Option String) (member : String) : Bool :=
  p.deferred.any fun entry =>
    match splitEntry entry with
    | some (e, m) => m == member && entity == some e
    | none => entry == member

def isSound (p : Policy) : Bool :=
  p.deferred.all fun entry => Text.trimmed entry ≠ "" && entry.toList.count '.' ≤ 1

end Policy

structure Settings where
  dialect : Dialect
  policy : Policy
  affinity : Affinity
deriving DecidableEq, Repr

namespace Settings

inductive Error where
  | unreadable (path : String)
  | unparsable
  | badValue (key value : String)
  | unsound
deriving DecidableEq, Repr

def Error.message : Error → String
  | .unreadable path => "Failed to read config file " ++ path
  | .unparsable => "Failed to parse config YAML"
  | .badValue key value => "Invalid value for " ++ key ++ ": " ++ value
  | .unsound => "Validation error"

def default : Settings := ⟨.ansi, ⟨[]⟩, .client⟩

def check (s : Settings) : Except Error Settings :=
  if s.dialect.name ≠ "" && s.policy.isSound then .ok s else .error .unsound

def dialectVariable : String := "RELBIND_DIALECT"

def affinityVariable : String := "RELBIND_AFFINITY"

def deferredVariable : String := "RELBIND_DEFERRED"

def ofVariables (value? : String → Option String) : Except Error Settings := do
  let dialect ← match value? dialectVariable with
    | none => pure default.dialect
    | some value =>
      match Dialect.ofName? value with
      | some d => pure d
      | none => throw (.badValue dialectVariable value)
  let affinity ← match value? affinityVariable with
    | none => pure default.affinity
    | some value =>
      match value.toLower with
      | "client" => pure .client
      | "server" => pure .server
      | _ => throw (.badValue affinityVariable value)
  let policy : Policy := match value? deferredVariable with
    | none => default.policy
    | some value => ⟨((value.splitOn ",").map Text.trimmed).filter (· ≠ "")⟩
  check { dialect, policy, affinity }

end Settings

def Pagination.label : Pagination → String
  | .offsetFetch => "offset_fetch"
  | .nestedTop => "nested_top"
  | .rowNumber => "row_number"

def Affinity.label : Affinity → String
  | .client => "client"
  | .server => "server"

def Pagination.read? : Document → Option Pagination :=
  Document.choice? ([.offsetFetch, .nestedTop, .rowNumber].map fun p => (label p, p))

def Affinity.read? : Document → Option Affinity :=
  Document.choice? ([.client, .server].map fun a => (label a, a))

def Dialect.read? (d : Document) : Option Dialect := do
  let members ← d.asRecord? ["name", "supports_offset_fetch",
    "allows_subquery_in_select_without_from", "allows_distinct_in_aggregates", "pagination"]
  some {
    name := ← Members.require members "name" Document.asText?
    supportsOffsetFetch := ← Members.orElse members "supports_offset_fetch" false Document.asFlag?
    allowsSelectWithoutSource :=
      ← Members.orElse members "allows_subquery_in_select_without_from" true Document.asFlag?
    allowsDistinctInAggregates :=
      ← Members.orElse members "allows_distinct_in_aggregates" true Document.asFlag?
    pagination := ← Members.orElse members "pagination" .offsetFetch Pagination.read? }

def Policy.read? (d : Document) : Option Policy := do
  let members ← d.asRecord? ["deferred"]
  some ⟨← Members.orElse members "deferred" [] (Document.listOf? Document.asText?)⟩

namespace Settings

def read? (d : Document) : Option Settings := do
  let members ← d.asRecord? ["dialect", "policy", "affinity"]
  some {
    dialect := ← Members.orElse members "dialect" default.dialect Dialect.read?
    policy := ← Members.orElse members "policy" default.policy Policy.read?
    affinity := ← Members.orElse members "affinity" default.affinity Affinity.read? }

def parse (text : String) : Except Error Settings :=
  match (Yaml.parse? text).bind read? with
  | none => .error .unparsable
  | some s => s.check

end Settings

def Dialect.toJson (d : Dialect) : Json :=
  .obj [("name", .str d.name), ("supports_offset_fetch", .bool d.supportsOffsetFetch),
    ("allows_subquery_in_select_without_from", .bool d.allowsSelectWithoutSource),
    ("allows_distinct_in_aggregates", .bool d.allowsDistinctInAggregates),
    ("pagination", .str d.pagination.label)]

def Settings.toJson (s : Settings) : Json :=
  .obj [("dialect", s.dialect.toJson),
    ("policy", .obj [("deferred", .arr (s.policy.deferred.map .str))]),
    ("affinity", .str s.affinity.label)]

structure Context where
  mapping : Mapping
  dialect : Dialect
  policy : Policy
  affinity : Affinity

def Context.ofSettings (mapping : Mapping) (s : Settings) : Context :=
  { mapping, dialect := s.dialect, policy := s.policy, affinity := s.affinity }

end ObjectQuery
