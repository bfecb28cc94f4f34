import ElementCatalog.Element.Basic
import ElementCatalog.Reading.Tagged
import ElementCatalog.Value.Document

/-!
# Elements in documents

An element is written with its variant, `type` or `instance`, under the tag `kind`. Everything
but the identifier can be left out and is then empty. Writing writes all fields.
-/

namespace ElementCatalog

namespace FieldDefinition

/-- The parts of a field that is being read. -/
structure Parts where
  /-- The identifier, once read. -/
  id : Option ElementId
  /-- The annotations, once read. -/
  annotations : Option ValueMap

/-- A field as a record. -/
def record : Record Parts Json ShapeError FieldDefinition where
  fields := [
    .slot "elem_id" Parts.id (fun parts id => { parts with id := some id }) ElementId.ofJson,
    .slot "annotations" Parts.annotations
      (fun parts values => { parts with annotations := some values }) ValueMap.ofJson]
  start := ⟨none, none⟩
  complete missing parts := do
    let id ← Record.required missing "elem_id" parts.id
    return ⟨id, parts.annotations.getD []⟩

/-- The field that a document tree stands for. -/
def ofJson : Json → Except ShapeError FieldDefinition :=
  record.ofJson

/-- The document tree of a field. -/
def toJson (field : FieldDefinition) : Json :=
  .object [("elem_id", field.id.toJson), ("annotations", ValueMap.toJson field.annotations)]

end FieldDefinition

namespace TypeDefinition

/-- The parts of a type that is being read. -/
structure Parts where
  /-- The identifier, once read. -/
  id : Option ElementId
  /-- The fields, once read. -/
  fields : Option (Keyed FieldDefinition)
  /-- The annotations, once read. -/
  annotations : Option ValueMap

/-- The fields that a document tree has under names. -/
def fieldsOfJson : Json → Except ShapeError (Keyed FieldDefinition)
  | .object members => do
    let fields ← members.mapM fun (name, field) => do
      return (name, ← FieldDefinition.ofJson field)
    return Keyed.ofMembers fields
  | _ => .error .invalidType

/-- A type as a record. -/
def record : Record Parts Json ShapeError TypeDefinition where
  fields := [
    .slot "elem_id" Parts.id (fun parts id => { parts with id := some id }) ElementId.ofJson,
    .slot "fields" Parts.fields (fun parts fields => { parts with fields := some fields })
      fieldsOfJson,
    .slot "annotations" Parts.annotations
      (fun parts values => { parts with annotations := some values }) ValueMap.ofJson]
  start := ⟨none, none, none⟩
  complete missing parts := do
    let id ← Record.required missing "elem_id" parts.id
    return ⟨id, parts.fields.getD [], parts.annotations.getD []⟩

/-- The members of a type's document tree. -/
def toMembers (definition : TypeDefinition) : List (String × Json) :=
  [("elem_id", definition.id.toJson),
    ("fields", .object (definition.fields.map fun (name, field) => (name, field.toJson))),
    ("annotations", ValueMap.toJson definition.annotations)]

end TypeDefinition

namespace Instance

/-- The parts of an instance that is being read. -/
structure Parts where
  /-- The identifier, once read. -/
  id : Option ElementId
  /-- The field values, once read. -/
  value : Option ValueMap
  /-- The annotations, once read. -/
  annotations : Option ValueMap

/-- An instance as a record. -/
def record : Record Parts Json ShapeError Instance where
  fields := [
    .slot "elem_id" Parts.id (fun parts id => { parts with id := some id }) ElementId.ofJson,
    .slot "value" Parts.value (fun parts values => { parts with value := some values })
      ValueMap.ofJson,
    .slot "annotations" Parts.annotations
      (fun parts values => { parts with annotations := some values }) ValueMap.ofJson]
  start := ⟨none, none, none⟩
  complete missing parts := do
    let id ← Record.required missing "elem_id" parts.id
    return ⟨id, parts.value.getD [], parts.annotations.getD []⟩

/-- The members of an instance's document tree. -/
def toMembers (self : Instance) : List (String × Json) :=
  [("elem_id", self.id.toJson), ("value", ValueMap.toJson self.value),
    ("annotations", ValueMap.toJson self.annotations)]

/-- The document tree of an instance, without the tag of its variant. -/
def toJson (self : Instance) : Json :=
  .object self.toMembers

end Instance

namespace Element

/-- The variants of an element. -/
inductive Variant where
  /-- A type definition. -/
  | type
  /-- An instance. -/
  | inst
deriving DecidableEq, Repr

/-- How the variants are written. -/
def variants : Variants Variant :=
  ⟨"kind", [("type", .type), ("instance", .inst)]⟩

/-- The element of a variant that a content stands for. -/
def ofContent : Variant × Json → Except ShapeError Element
  | (.type, content) => ofType <$> TypeDefinition.record.ofJson content
  | (.inst, content) => ofInstance <$> Instance.record.ofJson content

/-- The element that a document tree stands for. -/
def ofJson (tree : Json) : Except ShapeError Element := do
  ofContent (← variants.ofJson tree)

/-- The element that a draft stands for. -/
def ofDraft (room : Nat) (draft : Json.Draft) : Read Element := do
  Read.ofShape (ofContent (← variants.ofDraft room draft))

/-- The document tree of an element. -/
def toJson : Element → Json
  | ofType definition => .object (("kind", .string "type") :: definition.toMembers)
  | ofInstance contents => .object (("kind", .string "instance") :: contents.toMembers)

end Element

end ElementCatalog
