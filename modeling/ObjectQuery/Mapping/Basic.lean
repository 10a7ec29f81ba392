import ObjectQuery.Value
import ObjectQuery.Yaml

/-!
How the entities of a query map to stored tables: the members of an entity are columns of its table,
and its associations lead to other entities through equal keys.
-/

namespace ObjectQuery

namespace Mapping

structure Member where
  name : String
  column : Option String
  type : ColumnType
  primaryKey : Bool
  generated : Bool
deriving DecidableEq, Repr

def Member.columnName (m : Member) : String := m.column.getD m.name

structure Association where
  name : String
  target : String
  keys : List String
  relatedKeys : List String
  singleton : Bool
deriving DecidableEq, Repr

structure Entity where
  name : String
  table : String
  members : List Member
  associations : List Association
deriving DecidableEq, Repr

namespace Entity

def member? (e : Entity) (name : String) : Option Member :=
  e.members.find? (·.name == name)

def hasMember (e : Entity) (name : String) : Bool :=
  e.members.any (·.name == name)

def association? (e : Entity) (name : String) : Option Association :=
  e.associations.find? (·.name == name)

def primaryKey (e : Entity) : List Member :=
  e.members.filter (·.primaryKey)

end Entity

structure Config where
  entities : List Entity
deriving DecidableEq, Repr

inductive Error where
  | entityNotFound (entity : String)
  | memberNotFound (entity member : String)
  | noPrimaryKey (entity : String)
  | unreadable
  | unparsable
  | emptyField
  | unknownTarget (entity association target : String)
  | keyCount (entity association : String) (keys relatedKeys : Nat)
deriving DecidableEq, Repr

def Error.message : Error → String
  | .entityNotFound entity => "No mapping found for entity `" ++ entity ++ "`"
  | .memberNotFound entity member => "Entity `" ++ entity ++ "` has no mapped member `" ++ member ++ "`"
  | .noPrimaryKey entity => "Entity `" ++ entity ++ "` has no primary key members"
  | .unreadable => "Failed to read mapping file"
  | .unparsable => "Failed to parse mapping"
  | .emptyField => "Invalid mapping: a name or a list is empty"
  | .unknownTarget entity association target =>
    "Invalid mapping: association `" ++ entity ++ "." ++ association ++ "` targets unknown entity `"
      ++ target ++ "`"
  | .keyCount entity association keys relatedKeys =>
    "Invalid mapping: association `" ++ entity ++ "." ++ association ++ "` has " ++ toString keys
      ++ " keys but " ++ toString relatedKeys ++ " related keys"

def Association.isFilled (a : Association) : Bool :=
  a.name ≠ "" && a.target ≠ "" && !a.keys.isEmpty && !a.relatedKeys.isEmpty

def Entity.isFilled (e : Entity) : Bool :=
  e.name ≠ "" && e.table ≠ "" && !e.members.isEmpty && e.members.all (·.name ≠ "")
    && e.associations.all (·.isFilled)

namespace Config

def isFilled (c : Config) : Bool :=
  !c.entities.isEmpty && c.entities.all (·.isFilled)

def checkAssociation (c : Config) (e : Entity) (a : Association) : Except Error Unit :=
  match c.entities.find? (·.name == a.target) with
  | none => .error (.unknownTarget e.name a.name a.target)
  | some target => do
    if a.keys.length ≠ a.relatedKeys.length then
      throw (.keyCount e.name a.name a.keys.length a.relatedKeys.length)
    if let some key := a.keys.find? (!e.hasMember ·) then
      throw (.memberNotFound e.name key)
    if let some key := a.relatedKeys.find? (!target.hasMember ·) then
      throw (.memberNotFound target.name key)

def checkEntity (c : Config) (e : Entity) : Except Error Unit := do
  if e.primaryKey.isEmpty then throw (.noPrimaryKey e.name)
  e.associations.forM (c.checkAssociation e)

def check (c : Config) : Except Error Unit := do
  if !c.isFilled then throw .emptyField
  c.entities.forM c.checkEntity

end Config

def Member.read? (d : Document) : Option Member := do
  let members ← d.asRecord? ["name", "column", "sql_type", "primary_key", "generated"]
  some {
    name := ← Members.require members "name" Document.asText?
    column := ← Members.orElse members "column" none (Document.optional? Document.asText?)
    type := ← Members.orElse members "sql_type" .unknown
      (Document.choice? (ColumnType.all.map fun t => (t.label, t)))
    primaryKey := ← Members.orElse members "primary_key" false Document.asFlag?
    generated := ← Members.orElse members "generated" false Document.asFlag? }

def Association.read? (d : Document) : Option Association := do
  let members ← d.asRecord? ["name", "target", "keys", "related_keys", "singleton"]
  some {
    name := ← Members.require members "name" Document.asText?
    target := ← Members.require members "target" Document.asText?
    keys := ← Members.require members "keys" (Document.listOf? Document.asText?)
    relatedKeys := ← Members.require members "related_keys" (Document.listOf? Document.asText?)
    singleton := ← Members.orElse members "singleton" false Document.asFlag? }

def Entity.read? (d : Document) : Option Entity := do
  let members ← d.asRecord? ["name", "table", "members", "associations"]
  some {
    name := ← Members.require members "name" Document.asText?
    table := ← Members.require members "table" Document.asText?
    members := ← Members.require members "members" (Document.listOf? Member.read?)
    associations := ← Members.orElse members "associations" []
      (Document.listOf? Association.read?) }

namespace Config

def read? (d : Document) : Option Config := do
  let members ← d.asRecord? ["entities"]
  some { entities := ← Members.require members "entities" (Document.listOf? Entity.read?) }

def parse (text : String) : Except Error Config :=
  match (Yaml.parse? text).bind read? with
  | none => .error .unparsable
  | some c => do
    c.check
    return c

end Config

def Member.toJson (m : Member) : Json :=
  .obj [("name", .str m.name), ("column", .ofOption .str m.column),
    ("sql_type", .str m.type.label), ("primary_key", .bool m.primaryKey),
    ("generated", .bool m.generated)]

def Association.toJson (a : Association) : Json :=
  .obj [("name", .str a.name), ("target", .str a.target), ("keys", .arr (a.keys.map .str)),
    ("related_keys", .arr (a.relatedKeys.map .str)), ("singleton", .bool a.singleton)]

def Entity.toJson (e : Entity) : Json :=
  .obj [("name", .str e.name), ("table", .str e.table),
    ("members", .arr (e.members.map (·.toJson))),
    ("associations", .arr (e.associations.map (·.toJson)))]

def Config.toJson (c : Config) : Json :=
  .obj [("entities", .arr (c.entities.map (·.toJson)))]

end Mapping

structure Mapping where
  entities : List Mapping.Entity
deriving DecidableEq, Repr

namespace Mapping

/-- The mapping of a sound configuration. Where a name is given twice, the later entity counts. -/
def ofConfig (c : Config) : Except Error Mapping := do
  c.check
  return ⟨c.entities.foldl (fun entities e => entities.filter (·.name ≠ e.name) ++ [e]) []⟩

def parse (text : String) : Except Error Mapping := do
  ofConfig (← Config.parse text)

def entity? (m : Mapping) (name : String) : Option Entity :=
  m.entities.find? (·.name == name)

def entity (m : Mapping) (name : String) : Except Error Entity :=
  match m.entity? name with
  | some e => .ok e
  | none => .error (.entityNotFound name)

def resolve (m : Mapping) (name : String) : Except Error Entity :=
  match (m.entity? name).or (m.entities.find? (·.table == name)) with
  | some e => .ok e
  | none => .error (.entityNotFound name)

def association? (m : Mapping) (entity member : String) : Option Association :=
  (m.entity? entity).bind (·.association? member)

def isAssociation (m : Mapping) (entity member : String) : Bool :=
  (m.association? entity member).isSome

def isSingleton (m : Mapping) (entity member : String) : Bool :=
  (m.association? entity member).any (·.singleton)

def primaryKey (m : Mapping) (entity : String) : Except Error (List String) := do
  let keys := (← m.resolve entity).primaryKey.map (·.name)
  if keys.isEmpty then throw (.noPrimaryKey entity)
  return keys

end Mapping

end ObjectQuery
