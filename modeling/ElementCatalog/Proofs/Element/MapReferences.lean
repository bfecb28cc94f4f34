import ElementCatalog.Element.Graph
import ElementCatalog.Proofs.Element.Place
import ElementCatalog.Proofs.Value.MapReferences

/-!
# Elements with other references

`Element.mapReferences` puts another reference in the place of each reference in an element, in field
values and in annotations. Identifiers stay, the references and the parents of an instance are the
changed ones (`Instance.references_mapReferences`, `Instance.parents_mapReferences`), and a change at
a place of an instance can be made before or after (`Instance.updateAt?_mapReferences`).
-/

namespace ElementCatalog

variable (change : Reference → Reference)

namespace FieldDefinition

/-- The field with each reference changed. -/
def mapReferences (field : FieldDefinition) : FieldDefinition :=
  { field with annotations := Value.mapMemberReferences change field.annotations }

end FieldDefinition

namespace TypeDefinition

/-- The type with each reference changed. -/
def mapReferences (definition : TypeDefinition) : TypeDefinition where
  id := definition.id
  fields := definition.fields.map fun (name, field) => (name, field.mapReferences change)
  annotations := Value.mapMemberReferences change definition.annotations

end TypeDefinition

namespace Instance

/-- The instance with each reference changed. -/
def mapReferences (self : Instance) : Instance where
  id := self.id
  value := Value.mapMemberReferences change self.value
  annotations := Value.mapMemberReferences change self.annotations

/-- Nothing changes where all references stay. -/
theorem mapReferences_id (self : Instance) : self.mapReferences (fun held => held) = self := by
  exact congrArg₂ (Instance.mk self.id) (Value.mapMemberReferences_id _)
    (Value.mapMemberReferences_id _)

variable {change : Reference → Reference}

/-- The values of a section are those with their references changed. -/
theorem valuesOf_mapReferences (self : Instance) (start : Section) :
    (self.mapReferences change).valuesOf start =
      Value.mapMemberReferences change (self.valuesOf start) := by
  cases start <;> rfl

/-- Other values can be put into a section before or after references are changed. -/
theorem mapReferences_withValues (self : Instance) (values : ValueMap) (start : Section) :
    (self.withValues values start).mapReferences change =
      (self.mapReferences change).withValues (Value.mapMemberReferences change values) start := by
  cases start <;> rfl

/-- The references of an instance are the changed ones. -/
theorem references_mapReferences (self : Instance) :
    (self.mapReferences change).references =
      self.references.map fun placed => (placed.1, change placed.2) := by
  simp only [references, List.map_flatMap, List.map_map, valuesOf_mapReferences,
    Value.memberReferences_mapMemberReferences, Value.mapPlaced, Function.comp_def]

/-- The parents of an instance are the changed ones. -/
theorem parents_mapReferences (self : Instance) :
    (self.mapReferences change).parents = self.parents.map change := by
  rw [parents, parents, mapReferences, Value.get?_mapMemberReferences]
  cases Keyed.get? self.annotations parentKey with
  | none => rfl
  | some value =>
    cases value with
    | list items =>
      simp only [Option.map_some, Value.mapReferences, Value.mapItemReferences_eq_map]
      rw [List.filterMap_map, List.map_filterMap]
      exact List.filterMap_congr fun item _ => Value.asReference?_mapReferences item
    | reference target snapshot | null | bool value | number value | string value | map members =>
      rfl

/-- A change that can be made before or after references are changed can be so at every place. -/
theorem updateAt?_mapReferences {update : Value → Option Value}
    (hupdate : ∀ part : Value,
      update (part.mapReferences change) = (update part).map (Value.mapReferences change))
    (self : Instance) (path : ValuePath) :
    (self.mapReferences change).updateAt? update path =
      (self.updateAt? update path).map (mapReferences change) := by
  obtain ⟨start, segments⟩ := path
  -- The first segment of a path is a key, under which a value is updated.
  cases segments with
  | nil => rfl
  | cons segment rest =>
    cases segment with
    | index position => rfl
    | key name =>
      simp only [updateAt?, valuesOf_mapReferences, Value.get?_mapMemberReferences]
      cases Keyed.get? (self.valuesOf start) name with
      | none => rfl
      | some part =>
        simp only [Option.map_some, Option.bind_eq_bind, Option.bind_some,
          Value.update?_mapReferences hupdate]
        cases part.update? update rest with
        | none => rfl
        | some new =>
          simp only [Option.map_some, Option.bind_some, Option.pure_def, mapReferences_withValues,
            Value.mapMemberReferences_eq_map, Keyed.put_map_snd]

end Instance

namespace Element

/-- The element with each reference changed. -/
def mapReferences : Element → Element
  | ofType definition => ofType (definition.mapReferences change)
  | ofInstance contents => ofInstance (contents.mapReferences change)

variable {change : Reference → Reference}

/-- An element keeps its identifier. -/
@[simp]
theorem id_mapReferences (element : Element) : (element.mapReferences change).id = element.id := by
  cases element <;> rfl

end Element

/-- The instances among changed elements are the changed instances. -/
theorem instancesOf_map_mapReferences {change : Reference → Reference} (elements : List Element) :
    instancesOf (elements.map (Element.mapReferences change)) =
      (instancesOf elements).map (Instance.mapReferences change) := by
  rw [instancesOf, instancesOf, List.filterMap_map, List.map_filterMap]
  refine List.filterMap_congr fun element _ => ?_
  cases element <;> rfl

end ElementCatalog
