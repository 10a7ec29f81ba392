import ObjectQuery.Json

/-!
Configuration documents: what a settings or mapping file says, before it is read as one. Strict
documents tell texts, flags and numbers apart. In lenient ones a scalar without quotes is kept as it
was written and takes the type that its reader expects, and a value may carry a tag.
-/

namespace ObjectQuery

inductive Document where
  | null
  | flag (b : Bool)
  | number
  | text (s : String)
  | plain (s : String)
  | list (items : List Document)
  | row (items : List Document)
  | record (members : List (String × Document))
  | tagged (tag : String) (content : Document)
  | unreadable
deriving Inhabited

mutual

def Json.toDocument : Json → Document
  | .null => .null
  | .bool b => .flag b
  | .int _ | .float _ => .number
  | .str s => .text s
  | .arr items => .row (itemDocuments items)
  | .obj members => .record (memberDocuments members)
termination_by structural j => j

def Json.itemDocuments : List Json → List Document
  | [] => []
  | item :: rest => item.toDocument :: Json.itemDocuments rest
termination_by structural items => items

def Json.memberDocuments : List (String × Json) → List (String × Document)
  | [] => []
  | (key, value) :: rest =>
    let others := Json.memberDocuments rest
    if rest.any (·.1 == key) then others else (key, value.toDocument) :: others
termination_by structural members => members

end

namespace Document

def content : Document → Document
  | .tagged _ d => d
  | d => d

def asText? (d : Document) : Option String :=
  match d.content with
  | .text s | .plain s => some s
  | _ => none

def asFlag? (d : Document) : Option Bool :=
  match d.content with
  | .flag b => some b
  | .plain s =>
    if ["true", "True", "TRUE"].contains s then some true
    else if ["false", "False", "FALSE"].contains s then some false
    else none
  | _ => none

def asList? (d : Document) : Option (List Document) :=
  match d.content with
  | .list items | .row items => some items
  | .plain "" => some []
  | _ => none

def asRecord? (keys : List String) (d : Document) : Option (List (String × Document)) :=
  match d.content with
  | .record members => some members
  | .row items => if items.length ≤ keys.length then some (keys.zip items) else none
  | .plain "" => some []
  | _ => none

def listOf? (read : Document → Option α) (d : Document) : Option (List α) := do
  (← d.asList?).mapM read

def nullWords : List String := ["~", "null", "Null", "NULL"]

def isNull : Document → Bool
  | .null => true
  | .plain s => s == "" || nullWords.contains s
  | _ => false

def nullTag : String := "tag:yaml.org,2002:null"

/-- A value that may be absent. With the tag of absence a word for it must be written, and under any
other tag something is there. -/
def optional? (read : Document → Option α) : Document → Option (Option α)
  | .tagged tag (.plain s) =>
    if tag = nullTag then
      if nullWords.contains s then some none else none
    else (read (.plain s)).map some
  | d => if d.isNull then some none else (read d).map some

def tagName? (tag : String) : Option String :=
  match tag.toList with
  | ['!'] => some "!"
  | '!' :: name => some (String.ofList name)
  | _ => none

/-- The name of a value without content: the text itself, a tag before nothing, or the one key of a
strict record. -/
def name? (d : Document) : Option String :=
  match d with
  | .record [(name, .null)] => some name
  | .tagged tag content =>
    match tagName? tag with
    | some name => if content.isNull then some name else none
    | none => content.asText?
  | d => d.asText?

def choice? (choices : List (String × α)) (d : Document) : Option α := do
  choices.lookup (← d.name?)

end Document

abbrev Members := List (String × Document)

namespace Members

def require (members : Members) (key : String) (read : Document → Option α) : Option α :=
  match members.filter (·.1 == key) with
  | [(_, d)] => read d
  | _ => none

def orElse (members : Members) (key : String) (default : α) (read : Document → Option α) :
    Option α :=
  match members.filter (·.1 == key) with
  | [] => some default
  | [(_, d)] => read d
  | _ => none

end Members

end ObjectQuery
