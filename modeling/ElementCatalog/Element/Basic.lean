import ElementCatalog.Value.References

/-!
# Elements

An element is a type definition with its fields, or an instance of a type with its field values.
Both carry annotations. Two annotations have a meaning of their own: `_parent` holds the
references to the parents of an instance, and `_changed_at` says when an element was last changed.
-/

namespace ElementCatalog

/-- The annotation that holds references to the parents of an instance. -/
def parentKey : String := "_parent"

/-- The annotation that says when an element was last changed. -/
def changedAtKey : String := "_changed_at"

/-- A field declared on a type definition. -/
structure FieldDefinition where
  /-- Identifier of the field. -/
  id : ElementId
  /-- Annotations of the field. -/
  annotations : ValueMap

/-- The declaration of a type. -/
structure TypeDefinition where
  /-- Identifier of the type. -/
  id : ElementId
  /-- Declared fields under their names, in the order of declaration. -/
  fields : Keyed FieldDefinition
  /-- Annotations of the type. -/
  annotations : ValueMap

/-- A concrete data element of a type. -/
structure Instance where
  /-- Identifier of the instance. Naming changes it. -/
  id : ElementId
  /-- The field values. -/
  value : ValueMap
  /-- The annotations, among them the parents. -/
  annotations : ValueMap

/-- An element of a graph. -/
inductive Element where
  /-- A type definition. -/
  | ofType (definition : TypeDefinition)
  /-- An instance. -/
  | ofInstance (contents : Instance)

namespace FieldDefinition

/-- The field of a type with a name, without annotations. -/
def declare (type : ElementId) (name : String) : FieldDefinition :=
  ⟨ElementId.ofField type.adapter type.typeName name, []⟩

/-- Whether two fields are equal. -/
def same (a b : FieldDefinition) : Bool :=
  a.id == b.id && Value.sameMap a.annotations b.annotations

end FieldDefinition

namespace TypeDefinition

/-- A type without fields and annotations. -/
def declare (adapter typeName : String) : TypeDefinition :=
  ⟨ElementId.ofType adapter typeName, [], []⟩

/-- The type with one more field. -/
def withField (name : String) (definition : TypeDefinition) : TypeDefinition :=
  { definition with
    fields := Keyed.put name (FieldDefinition.declare definition.id name) definition.fields }

/-- Whether two types are equal. The order of their fields does not count. -/
def same (a b : TypeDefinition) : Bool :=
  a.id == b.id && Value.sameMap a.annotations b.annotations &&
    a.fields.length == b.fields.length &&
    a.fields.all fun (name, field) =>
      match Keyed.get? b.fields name with
      | some other => field.same other
      | none => false

end TypeDefinition

namespace Instance

/-- A top-level instance without annotations. -/
def declare (adapter typeName name : String) (value : ValueMap) : Instance :=
  ⟨ElementId.ofInstance adapter typeName name, value, []⟩

/-- Name of the type that the instance belongs to. -/
def typeName (self : Instance) : String :=
  self.id.typeName

/-- Identifier of the type that the instance belongs to. -/
def typeId (self : Instance) : ElementId :=
  self.id.owningType

/-- The instance with an annotation set. -/
def annotate (name : String) (value : Value) (self : Instance) : Instance :=
  { self with annotations := Keyed.put name value self.annotations }

/-- The instance with the given parents. -/
def withParents (parents : List ElementId) (self : Instance) : Instance :=
  self.annotate parentKey (.list (parents.map Value.ofTarget))

/-- The references to the parents, in declared order: the references of a list, or a single
reference. -/
def parents (self : Instance) : List Reference :=
  match Keyed.get? self.annotations parentKey with
  | some (.list items) => items.filterMap Value.asReference?
  | some value => value.asReference?.toList
  | none => []

/-- The values that a path starts from. -/
def valuesOf (self : Instance) : Section → ValueMap
  | .value => self.value
  | .annotations => self.annotations

/-- The instance with other values where a path starts. -/
def withValues (self : Instance) (values : ValueMap) : Section → Instance
  | .value => { self with value := values }
  | .annotations => { self with annotations := values }

/-- The references of the field values and then of the annotations, each with its path. -/
def references (self : Instance) : List (ValuePath × Reference) :=
  [Section.value, Section.annotations].flatMap fun start =>
    (Value.memberReferences (self.valuesOf start)).map fun (segments, reference) =>
      (⟨start, segments⟩, reference)

/-- The value at a path. A path starts with a key. -/
def valueAt? (self : Instance) (path : ValuePath) : Option Value :=
  match path.segments with
  | [] => none
  | .index _ :: _ => none
  | .key name :: rest => do
    (← Keyed.get? (self.valuesOf path.start) name).at? rest

/-- The instance with the value at a path changed, and nothing if there is no such place or the
change is declined. -/
def updateAt? (change : Value → Option Value) (self : Instance) (path : ValuePath) :
    Option Instance :=
  match path.segments with
  | [] => none
  | .index _ :: _ => none
  | .key name :: rest => do
    let values := self.valuesOf path.start
    let part ← (← Keyed.get? values name).update? change rest
    return self.withValues (Keyed.put name part values) path.start

/-- Whether two instances are equal. -/
def same (a b : Instance) : Bool :=
  a.id == b.id && Value.sameMap a.value b.value && Value.sameMap a.annotations b.annotations

end Instance

namespace Element

/-- Identifier of the element. -/
def id : Element → ElementId
  | ofType definition => definition.id
  | ofInstance contents => contents.id

/-- Annotations of the element. -/
def annotations : Element → ValueMap
  | ofType definition => definition.annotations
  | ofInstance contents => contents.annotations

/-- The instance, if the element is one. -/
def asInstance? : Element → Option Instance
  | ofType _ => none
  | ofInstance contents => some contents

/-- The type definition, if the element is one. -/
def asType? : Element → Option TypeDefinition
  | ofType definition => some definition
  | ofInstance _ => none

/-- The element with its instance changed, if it is one. -/
def mapInstance (change : Instance → Instance) : Element → Element
  | ofType definition => ofType definition
  | ofInstance contents => ofInstance (change contents)

/-- Whether the element's identifier is one of an instance. -/
def hasInstanceId (element : Element) : Bool :=
  element.id.kind = .inst

/-- Whether two elements are equal. -/
def same : Element → Element → Bool
  | ofType a, ofType b => a.same b
  | ofInstance a, ofInstance b => a.same b
  | _, _ => false

end Element

end ElementCatalog
