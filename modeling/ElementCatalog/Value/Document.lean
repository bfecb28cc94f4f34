import ElementCatalog.Json.Printer
import ElementCatalog.Reading.Record
import ElementCatalog.Value.Path

/-!
# Values in documents

Every document tree reads as a value (`Value.ofJson`). An object is a reference if its keys are
`$ref`, with a text that reads as an identifier, and at most `$value`, each once; and so is a list
of one or two items of which the first is such a text. A snapshot that is `null` counts as absent.
Everything else is what it looks like.

`Value.toJson` writes a value.
-/

namespace ElementCatalog

namespace Value

/-- The key of a reference's target. -/
def targetKey : String := "$ref"

/-- The key of a reference's snapshot. -/
def snapshotKey : String := "$value"

/-- The snapshot that a value written for one stands for. -/
def snapshotOf : Value → Option Value
  | null => none
  | value => some value

/-- The reference with a target as it is written, if the target reads as an identifier. -/
def referenceOf? (target : Value) (snapshot : Option Value) : Option Value :=
  match target with
  | string text =>
    match ElementId.parse text with
    | .ok id => some (reference id (snapshot.bind snapshotOf))
    | .error _ => none
  | _ => none

/-- The value that a list of items stands for. -/
def ofItems (items : List Value) : Value :=
  let asReference := match items with
    | [target] => referenceOf? target none
    | [target, snapshot] => referenceOf? target (some snapshot)
    | _ => none
  asReference.getD (list items)

/-- The value that members stand for, which can have repeated keys. -/
def ofMembers (members : List (String × Value)) : Value :=
  let asReference := match members with
    | [(key, target)] => if key = targetKey then referenceOf? target none else none
    | [(first, a), (second, b)] =>
      if first = targetKey ∧ second = snapshotKey then referenceOf? a (some b)
      else if first = snapshotKey ∧ second = targetKey then referenceOf? b (some a)
      else none
    | _ => none
  asReference.getD (map (Keyed.ofMembers members))

mutual

/-- The value that a document tree stands for. -/
def ofJson : Json → Value
  | .null => null
  | .bool value => bool value
  | .number value => number value
  | .string value => string value
  | .list items => ofItems (ofJsonItems items)
  | .object members => ofMembers (ofJsonMembers members)

/-- The values that items stand for. -/
def ofJsonItems : List Json → List Value
  | [] => []
  | item :: rest => ofJson item :: ofJsonItems rest

/-- The values that members stand for. -/
def ofJsonMembers : List (String × Json) → List (String × Value)
  | [] => []
  | (key, value) :: rest => (key, ofJson value) :: ofJsonMembers rest

end

mutual

/-- The document tree of a value. -/
def toJson : Value → Json
  | reference target none => .object [(targetKey, .string target.fullName)]
  | reference target (some snapshot) =>
    .object [(targetKey, .string target.fullName), (snapshotKey, toJson snapshot)]
  | null => .null
  | bool value => .bool value
  | number value => .number value
  | string value => .string value
  | list items => .list (toJsonItems items)
  | map members => .object (toJsonMembers members)

/-- The document trees of items. -/
def toJsonItems : List Value → List Json
  | [] => []
  | item :: rest => toJson item :: toJsonItems rest

/-- The document trees of members. -/
def toJsonMembers : List (String × Value) → List (String × Json)
  | [] => []
  | (key, value) :: rest => (key, toJson value) :: toJsonMembers rest

end

/-- A value as a part of a name: texts as they are, nothing as the empty text, references as the
last part of their target, and values with parts as documents on one line. -/
def nameFragment : Value → String
  | string text => text
  | number value => value.text
  | bool value => if value then "true" else "false"
  | null => ""
  | reference target _ => target.name
  | value => value.toJson.compact

/-- The value that a draft stands for. -/
def ofDraft (room : Nat) (draft : Json.Draft) : Read Value :=
  ofJson <$> draft.tree room

end Value

namespace ValueMap

/-- The values that a document tree has under names. -/
def ofJson : Json → Except ShapeError ValueMap
  | .object members => .ok (Keyed.ofMembers (Value.ofJsonMembers members))
  | _ => .error .invalidType

/-- The values that a draft has under names. -/
def ofDraft (room : Nat) (draft : Json.Draft) : Read ValueMap :=
  Keyed.ofMembers <$> draft.members Value.ofDraft room

/-- The document tree of values under names. -/
def toJson (values : ValueMap) : Json :=
  .object (Value.toJsonMembers values)

end ValueMap

namespace ElementId

/-- The identifier that a document tree stands for. -/
def ofJson : Json → Except ShapeError ElementId
  | .string text => ofText text
  | _ => .error .invalidType

/-- The document tree of an identifier. -/
def toJson (id : ElementId) : Json :=
  .string id.fullName

end ElementId

namespace PathSegment

/-- The step that a document tree stands for: a natural number or a key. -/
def ofJson : Json → Except ShapeError PathSegment
  | .number (.int position _) =>
    if 0 ≤ position then .ok (index position.toNat) else .error (.noVariant "PathSegment")
  | .string name => .ok (key name)
  | _ => .error (.noVariant "PathSegment")

/-- The step that a draft stands for. -/
def ofDraft (room : Nat) (draft : Json.Draft) : Read PathSegment := do
  Read.ofShape (ofJson (← draft.tree room))

/-- The document tree of a step. -/
def toJson : PathSegment → Json
  | index position => Json.ofNat position
  | key name => .string name

end PathSegment

namespace Section

/-- The section with a name. -/
def ofName : String → Except ShapeError Section
  | "value" => .ok value
  | "annotation" => .ok annotations
  | name => .error (.unknownVariant name ["value", "annotation"])

/-- The section that a draft stands for: its name, or an object with nothing under its name.
Whatever else stands there is malformed from its first character on. -/
def ofDraft (room : Nat) : Json.Draft → Read Section
  | .atom (.string name) => Read.ofShape (ofName name)
  | .atom (.flawed flaw) => .error (.text flaw.glanced)
  | .object members ending => do
    let _ ← Json.Draft.roomInside room
    match members with
    | [] =>
      Read.ofText ending.read
      throw (.text .malformed)
    | (key, content) :: rest =>
      let found ← Read.ofShape (ofName (← Read.ofText key))
      match content with
      | .atom .null =>
        if rest.isEmpty then Read.ofText ending.last else throw (.text .malformed)
        return found
      | content => throw content.mismatch
  | _ => .error (.text .malformed)

end Section

namespace ValuePath

/-- The parts of a path that is being read. -/
structure Parts where
  /-- The section, once read. -/
  start : Option Section
  /-- The steps, once read. -/
  segments : Option (List PathSegment)

/-- A path as a record with the given room inside. -/
def record (room : Nat) : Record Parts Json.Draft DocumentError ValuePath where
  fields := [
    .slot "section" Parts.start (fun parts start => { parts with start := some start })
      (Section.ofDraft room),
    .slot "segments" Parts.segments
      (fun parts segments => { parts with segments := some segments })
      (Json.Draft.items PathSegment.ofDraft room)]
  start := ⟨none, none⟩
  complete missing parts := do
    let start ← Record.required missing "section" parts.start
    let segments ← Record.required missing "segments" parts.segments
    return ⟨start, segments⟩

/-- The path that a draft stands for. -/
def ofDraft (room : Nat) : Json.Draft → Read ValuePath :=
  Record.ofDraft record room

/-- The document tree of a path. -/
def toJson (path : ValuePath) : Json :=
  .object [
    ("section", .string path.start.keyword),
    ("segments", .list (path.segments.map PathSegment.toJson))]

end ValuePath

end ElementCatalog
