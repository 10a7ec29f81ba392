import ObjectQuery.Document
import ObjectQuery.Yaml.Token

/-!
Documents from YAML texts. A text holds one document; nothing but the marks of its end may follow.
Where a value is left out, nothing is written, and an empty plain scalar stands for it.
-/

namespace ObjectQuery.Yaml

structure Reading where
  tokens : List Token
  anchors : List (String × Document)

abbrev Reader := StateT Reading Option

namespace Reader

def peek : Reader (Option Token) := return (← get).tokens.head?

def skip : Reader Unit := modify fun r => { r with tokens := r.tokens.tail }

def accept (t : Token) : Reader Bool := do
  if (← peek) = some t then
    skip
    return true
  else return false

def expect (t : Token) : Reader Unit := do
  if !(← accept t) then failure

def isNext (ts : List Token) : Reader Bool := return (← peek).any ts.contains

/-- Names a value before it is read, for inside itself it has no reading; gives the place of the
name. -/
def declare (name : String) : Reader Nat := do
  let place := (← get).anchors.length
  modify fun r => { r with anchors := (name, .unreadable) :: r.anchors }
  return place

def define (name : String) (place : Nat) (d : Document) : Reader Unit :=
  modify fun r => { r with anchors := r.anchors.set (r.anchors.length - 1 - place) (name, d) }

def reference (name : String) : Reader Document := do
  match (← get).anchors.lookup name with
  | some d => return d
  | none => failure

def anchor : Reader (Option String) := do
  match ← peek with
  | some (.anchor name) =>
    skip
    return some name
  | _ => return none

def tag (handles : List (String × String)) : Reader (Option String) := do
  match ← peek with
  | some (.tag t) =>
    skip
    return some (← t.resolve? handles)
  | _ => return none

def properties (handles : List (String × String)) : Reader (Option String × Option String) := do
  let before ← anchor
  let tag ← tag handles
  if before.isNone && tag.isSome then return (← anchor, tag) else return (before, tag)

end Reader

def nothing : Document := .plain ""

def withTag : Option String → Document → Document
  | some tag, d => .tagged tag d
  | none, d => d

def flagTag : String := "tag:yaml.org,2002:bool"

/-- A scalar with its tag; a lone exclamation mark is none. A literal block that is tagged as a flag
reads as a plain scalar does. -/
def scalar (tag : Option String) (text : String) (style : Style) : Document :=
  let isPlain := style = .plain || (style = .literal && tag = some flagTag && text ≠ "")
  withTag (tag.filter (· ≠ "!")) (if isPlain then .plain text else .text text)

def record (members : List (Document × Document)) : Document :=
  match members.mapM fun (key, value) => key.asText?.map fun key => (key, value) with
  | some members => .record members
  | none => .unreadable

section

open Reader

variable (handles : List (String × String))

mutual

/-- A value. Blocks may only stand in blocks, and a list that is the value of a key may have its
dashes in the column of the key. -/
def node (fuel : Nat) (block atKey : Bool) : Reader Document :=
  match fuel with
  | 0 => failure
  | fuel + 1 => do
    if let some (.reference name) := ← peek then
      skip
      return ← reference name
    let (name, tag) ← properties handles
    let place ← name.mapM declare
    let d ← match ← peek, block, atKey with
      | some .item, _, true => do pure (withTag tag (.list (← dashedItems fuel)))
      | some (.scalar text style), _, _ => do
        skip
        pure (scalar tag text style)
      | some .flowList, _, _ => do
        skip
        pure (withTag tag (.list (← flowItems fuel true)))
      | some .flowRecord, _, _ => do
        skip
        pure (withTag tag (record (← flowMembers fuel true)))
      | some .blockList, true, _ => do
        skip
        pure (withTag tag (.list (← blockItems fuel)))
      | some .blockRecord, true, _ => do
        skip
        pure (withTag tag (record (← blockMembers fuel)))
      | _, _, _ => if name.isSome || tag.isSome then pure (withTag tag nothing) else failure
    if let (some name, some place) := (name, place) then define name place d
    return d

def nodeBefore (fuel : Nat) (ends : List Token) (block atKey : Bool) : Reader Document :=
  match fuel with
  | 0 => failure
  | fuel + 1 => do
    if ← isNext ends then return nothing else node fuel block atKey

def valueBefore (fuel : Nat) (ends : List Token) (block : Bool) : Reader Document :=
  match fuel with
  | 0 => failure
  | fuel + 1 => do
    if ← accept .value then nodeBefore fuel ends block block else return nothing

def blockItems (fuel : Nat) : Reader (List Document) :=
  match fuel with
  | 0 => failure
  | fuel + 1 => do
    if ← accept .item then
      let d ← nodeBefore fuel [.item, .blockEnd] true false
      return d :: (← blockItems fuel)
    else
      expect .blockEnd
      return []

def dashedItems (fuel : Nat) : Reader (List Document) :=
  match fuel with
  | 0 => failure
  | fuel + 1 => do
    if ← accept .item then
      let d ← nodeBefore fuel [.item, .key, .value, .blockEnd] true false
      return d :: (← dashedItems fuel)
    else return []

def blockMembers (fuel : Nat) : Reader (List (Document × Document)) :=
  match fuel with
  | 0 => failure
  | fuel + 1 => do
    if ← accept .key then
      let ends : List Token := [.key, .value, .blockEnd]
      let key ← nodeBefore fuel ends true true
      let value ← valueBefore fuel ends true
      return (key, value) :: (← blockMembers fuel)
    else
      expect .blockEnd
      return []

def flowItems (fuel : Nat) (first : Bool) : Reader (List Document) :=
  match fuel with
  | 0 => failure
  | fuel + 1 => do
    if ← accept .flowListEnd then return []
    if !first then expect .entry
    if ← accept .key then
      let member ← flowPair fuel
      return record [member] :: (← flowItems fuel false)
    else if ← accept .flowListEnd then return []
    else
      let d ← node fuel false false
      return d :: (← flowItems fuel false)

/-- The one member of a record in a list. Where its key is left out, the token there is lost. -/
def flowPair (fuel : Nat) : Reader (Document × Document) :=
  match fuel with
  | 0 => failure
  | fuel + 1 => do
    let omitted ← isNext [.value, .entry, .flowListEnd]
    if omitted then skip
    let key ← if omitted then pure nothing else node fuel false false
    let value ← valueBefore fuel [.entry, .flowListEnd] false
    return (key, value)

def flowMembers (fuel : Nat) (first : Bool) : Reader (List (Document × Document)) :=
  match fuel with
  | 0 => failure
  | fuel + 1 => do
    if ← accept .flowRecordEnd then return []
    if !first then expect .entry
    if ← accept .key then
      let key ← nodeBefore fuel [.value, .entry, .flowRecordEnd] false false
      let value ← valueBefore fuel [.entry, .flowRecordEnd] false
      return (key, value) :: (← flowMembers fuel false)
    else if ← accept .flowRecordEnd then return []
    else
      let key ← node fuel false false
      return (key, nothing) :: (← flowMembers fuel false)

end

end

def leadingDirectives : List Token → List Directive
  | .directive d :: rest => d :: leadingDirectives rest
  | _ => []

def handles? (directives : List Directive) : Option (List (String × String)) :=
  let versions := directives.filterMap fun
    | .version major minor => some (major, minor)
    | .tag .. => none
  let handles := directives.filterMap fun
    | .version .. => none
    | .tag handle front => some (handle, front)
  let isKnown (v : Nat × Nat) : Bool := v.1 = 1 && (v.2 = 1 || v.2 = 2)
  if versions.length ≤ 1 && versions.all isKnown && (handles.map (·.1)).Nodup then
    some (handles ++ commonHandles)
  else none

def document : Reader Document := do
  let tokens := (← get).tokens
  let directives := leadingDirectives tokens
  let handles ← handles? directives
  modify fun r => { r with tokens := r.tokens.drop directives.length }
  let marked ← Reader.accept .documentStart
  if !directives.isEmpty && !marked then failure
  match ← Reader.peek with
  | none => return nothing
  | some .documentEnd => if marked then return nothing else failure
  | some _ => node handles (5 * tokens.length + 5) true false

def parse? (text : String) : Option Document := do
  let tokens ← Token.scan? (← source? text)
  let (d, after) ← document.run ⟨tokens, []⟩
  if after.tokens.all (· = .documentEnd) then some d else none

end ObjectQuery.Yaml
