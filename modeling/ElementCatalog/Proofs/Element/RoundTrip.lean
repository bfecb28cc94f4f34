import ElementCatalog.Proofs.Element.Document
import ElementCatalog.Proofs.Store.Document

/-!
# Graphs that are written and read

A graph whose elements are loaded reads back from its text (`ElementGraph.read_pretty`). Identifiers,
names, variants and the metadata come back as they were, so what comes back differs at most in the
values, and it is the same graph exactly if no map in a value looks like a reference
(`ElementGraph.reread_eq_iff`).

## Main definitions

* `ElementGraph.reread`: what a graph is after it has been written and read;
* `Element.values`: the values of an element.
-/

namespace ElementCatalog

/-- An identifier with a written form is read from it. -/
theorem ElementId.ofJson_toJson {id : ElementId} (h : id.IsWritable) :
    ElementId.ofJson id.toJson = .ok id := by
  rw [toJson, ofJson, ofText, parse_fullName h]
  rfl

/-- Parts stay what they are where they are changed exactly if each does. -/
theorem map_eq_self_iff {α : Type} {change : α → α} {parts : List α} :
    parts.map change = parts ↔ ∀ part ∈ parts, change part = part := by
  have h := List.map_eq_map_iff (f := change) (g := id) (l := parts)
  rwa [List.map_id] at h

namespace FieldDefinition

/-- What a field is after it has been written and read. -/
def reread (field : FieldDefinition) : FieldDefinition :=
  { field with annotations := field.annotations.reread }

variable {room : Nat} {field : FieldDefinition}

/-- A loaded field is read from what is written for it. -/
theorem ofJson_toJson (loaded : field.Loaded room) : ofJson field.toJson = .ok field.reread := by
  have hid := ElementId.ofJson_toJson loaded.isWritable
  have hannotations := ValueMap.ofJson_toJson (Value.loaded_map_iff.1 loaded.annotations).1
  simp [ofJson, toJson, Record.ofJson, Record.readMembers, Record.field?, record, Field.slot, hid,
    hannotations]
  rfl

/-- Written, a loaded field goes two levels deeper. -/
theorem depth_toJson_le (loaded : field.Loaded room) : field.toJson.depth ≤ room + 2 := by
  have hannotations : (ValueMap.toJson field.annotations).depth ≤ room + 1 :=
    loaded.annotations.depth_le
  simp only [toJson, ElementId.toJson, Json.depth, Json.memberDepth]
  omega

end FieldDefinition

namespace TypeDefinition

/-- What a type is after it has been written and read. -/
def reread (definition : TypeDefinition) : TypeDefinition :=
  { definition with
    fields := definition.fields.map fun field => (field.1, field.2.reread)
    annotations := definition.annotations.reread }

variable {room : Nat} {definition : TypeDefinition}

/-- Loaded fields under distinct names are read from what is written for them. -/
theorem fieldsOfJson_toJson {fields : Keyed FieldDefinition} (distinct : (Keyed.keys fields).Nodup)
    (loaded : ∀ field ∈ fields, field.2.Loaded room) :
    fieldsOfJson (.object (fields.map fun (name, field) => (name, field.toJson))) =
      .ok (fields.map fun field => (field.1, field.2.reread)) := by
  let readField (member : String × Json) : Except ShapeError (String × FieldDefinition) := do
    return (member.1, ← FieldDefinition.ofJson member.2)
  have hfields : (fields.map fun (name, field) => (name, field.toJson)).mapM readField =
      .ok (fields.map fun field => (field.1, field.2.reread)) := by
    clear distinct
    induction fields with
    | nil => rfl
    | cons field rest ih =>
      obtain ⟨hfield, hrest⟩ := List.forall_mem_cons.1 loaded
      have hread : readField (field.1, field.2.toJson) = .ok (field.1, field.2.reread) := by
        show (do return (field.1, ← FieldDefinition.ofJson field.2.toJson)) = _
        rw [FieldDefinition.ofJson_toJson hfield]
        rfl
      rw [List.map_cons, List.mapM_cons, hread, ih hrest]
      rfl
  show (fields.map fun (name, field) => (name, field.toJson)).mapM readField >>= _ = _
  rw [hfields]
  refine congrArg Except.ok (Keyed.ofMembers_of_nodup ?_)
  rwa [Keyed.keys, List.map_map]

/-- A loaded type is read from what is written for it. -/
theorem ofJson_toMembers (loaded : definition.Loaded room) :
    record.ofJson (.object definition.toMembers) = .ok definition.reread := by
  have hid := ElementId.ofJson_toJson loaded.isWritable
  have hfields := fieldsOfJson_toJson loaded.distinct loaded.fields
  have hannotations := ValueMap.ofJson_toJson (Value.loaded_map_iff.1 loaded.annotations).1
  simp [toMembers, Record.ofJson, Record.readMembers, Record.field?, record, Field.slot, hid,
    hfields, hannotations]
  rfl

/-- Written, the members of a loaded type go three levels deeper. -/
theorem memberDepth_toMembers_le (loaded : definition.Loaded room) :
    Json.memberDepth definition.toMembers ≤ room + 3 := by
  have hannotations : (ValueMap.toJson definition.annotations).depth ≤ room + 3 :=
    loaded.annotations.depth_le
  have hfields : Json.memberDepth (definition.fields.map fun field => (field.1, field.2.toJson)) ≤
      room + 2 := by
    refine Json.memberDepth_le_iff.2 (List.forall_mem_map.2 fun field hfield => ?_)
    exact FieldDefinition.depth_toJson_le (loaded.fields field hfield)
  simp only [toMembers, ElementId.toJson, Json.depth, Json.memberDepth]
  omega

end TypeDefinition

namespace Instance

/-- What an instance is after it has been written and read. -/
def reread (self : Instance) : Instance :=
  { self with value := self.value.reread, annotations := self.annotations.reread }

variable {room : Nat} {self : Instance}

/-- A loaded instance is read from what is written for it. -/
theorem ofJson_toMembers (loaded : self.Loaded room) :
    record.ofJson (.object self.toMembers) = .ok self.reread := by
  have hid := ElementId.ofJson_toJson loaded.isWritable
  have hvalue := ValueMap.ofJson_toJson (Value.loaded_map_iff.1 loaded.value).1
  have hannotations := ValueMap.ofJson_toJson (Value.loaded_map_iff.1 loaded.annotations).1
  simp [toMembers, Record.ofJson, Record.readMembers, Record.field?, record, Field.slot, hid, hvalue,
    hannotations]
  rfl

/-- Written, the members of a loaded instance go three levels deeper. -/
theorem memberDepth_toMembers_le (loaded : self.Loaded room) :
    Json.memberDepth self.toMembers ≤ room + 3 := by
  have hvalue : (ValueMap.toJson self.value).depth ≤ room + 3 := loaded.value.depth_le
  have hannotations : (ValueMap.toJson self.annotations).depth ≤ room + 3 :=
    loaded.annotations.depth_le
  simp only [toMembers, ElementId.toJson, Json.depth, Json.memberDepth]
  omega

end Instance

namespace Element

/-- What an element is after it has been written and read. -/
def reread : Element → Element
  | ofType definition => ofType definition.reread
  | ofInstance contents => ofInstance contents.reread

/-- The values of an element: those of its annotations, and of the annotations of its fields or its
field values. -/
def values : Element → List Value
  | ofType definition =>
    (definition.annotations ++ definition.fields.flatMap fun field => field.2.annotations).map
      Prod.snd
  | ofInstance contents => (contents.value ++ contents.annotations).map Prod.snd

variable {room : Nat} {element : Element}

/-- A loaded element is read from what is written for it. -/
theorem ofDraft_toJson (loaded : element.Loaded room) :
    ofDraft (room + 4) element.toJson.toDraft = .ok element.reread := by
  cases element with
  | ofType definition =>
    have hvariant : variants.ofDraft (room + 4) (ofType definition).toJson.toDraft =
        .ok (.type, .object definition.toMembers) :=
      Variants.ofDraft_toDraft rfl (by simp [variants, TypeDefinition.toMembers])
        (TypeDefinition.memberDepth_toMembers_le loaded)
    have hcontent : ofContent (.type, .object definition.toMembers) =
        .ok (ofType definition.reread) := by
      rw [ofContent, TypeDefinition.ofJson_toMembers loaded]
      rfl
    simp only [ofDraft, hvariant, bind, Except.bind, hcontent]
    rfl
  | ofInstance contents =>
    have hvariant : variants.ofDraft (room + 4) (ofInstance contents).toJson.toDraft =
        .ok (.inst, .object contents.toMembers) :=
      Variants.ofDraft_toDraft rfl (by simp [variants, Instance.toMembers])
        (Instance.memberDepth_toMembers_le loaded)
    have hcontent : ofContent (.inst, .object contents.toMembers) =
        .ok (ofInstance contents.reread) := by
      rw [ofContent, Instance.ofJson_toMembers loaded]
      rfl
    simp only [ofDraft, hvariant, bind, Except.bind, hcontent]
    rfl

/-- A loaded element is read as it was exactly if no map in its values looks like a reference. -/
theorem reread_eq_iff (loaded : element.Loaded room) :
    element.reread = element ↔ ∀ value ∈ element.values, ¬ value.HoldsReferenceMap := by
  cases element with
  | ofType definition =>
    -- Only annotations hold values, those of the type and those of its fields.
    have hfield (field : String × FieldDefinition) (hfield : field ∈ definition.fields) :
        (field.1, field.2.reread) = field ↔
          ∀ member ∈ field.2.annotations, ¬ member.2.HoldsReferenceMap := by
      rw [← ValueMap.reread_eq_iff (loaded.fields field hfield).annotations]
      constructor
      · exact fun h => congrArg (fun field => field.2.annotations) h
      · exact fun h => by rw [FieldDefinition.reread, h]
    have hself : (ofType definition).reread = ofType definition ↔
        (definition.fields.map fun field => (field.1, field.2.reread)) = definition.fields ∧
          definition.annotations.reread = definition.annotations := by
      rw [reread, ofType.injEq]
      constructor
      · exact fun h => ⟨congrArg TypeDefinition.fields h, congrArg TypeDefinition.annotations h⟩
      · rintro ⟨hfields, hannotations⟩
        rw [TypeDefinition.reread, hfields, hannotations]
    rw [hself, map_eq_self_iff, forall₂_congr hfield, ValueMap.reread_eq_iff loaded.annotations,
      and_comm, values, List.forall_mem_map, List.forall_mem_append, List.forall_mem_flatMap]
  | ofInstance contents =>
    have hself : (ofInstance contents).reread = ofInstance contents ↔
        contents.value.reread = contents.value ∧
          contents.annotations.reread = contents.annotations := by
      rw [reread, ofInstance.injEq]
      constructor
      · exact fun h => ⟨congrArg Instance.value h, congrArg Instance.annotations h⟩
      · rintro ⟨hvalue, hannotations⟩
        rw [Instance.reread, hvalue, hannotations]
    rw [hself, ValueMap.reread_eq_iff loaded.value, ValueMap.reread_eq_iff loaded.annotations,
      values, List.forall_mem_map, List.forall_mem_append]

end Element

namespace ElementGraph

/-- What a graph is after it has been written and read. -/
def reread (graph : ElementGraph) : ElementGraph :=
  { graph with elements := graph.elements.map Element.reread }

variable {graph : ElementGraph}

/-- Metadata are read from what is written for them. -/
theorem metadataOfDraft_toJson (room : Nat) (metadata : Std.ExtTreeMap String String) :
    metadataOfDraft (room + 1)
      (Json.object (metadata.toList.map fun (name, text) => (name, .string text))).toDraft =
        .ok metadata := by
  have hmembers : Json.Draft.members (fun _ => Json.Draft.string) (room + 1)
      (Json.object (metadata.toList.map fun entry => (entry.1, Json.string entry.2))).toDraft =
        .ok (metadata.toList.map fun entry => (entry.1, id entry.2)) :=
    Json.Draft.members_toDraft fun _ _ => rfl
  rw [metadataOfDraft, hmembers]
  show Except.ok (Std.ExtTreeMap.ofList (metadata.toList.map id)) = Except.ok metadata
  rw [List.map_id, Store.ofList_toList]

/-- A graph of loaded elements is read from its text. -/
theorem read_pretty (loaded : ∀ element ∈ graph.elements, element.Loaded valueRoom) :
    Json.Document.read ofDraft graph.toJson.pretty = .ok graph.reread := by
  have helements : Json.Draft.items Element.ofDraft (valueRoom + 5)
      (elementsToJson graph.elements).toDraft = .ok (graph.elements.map Element.reread) :=
    Json.Draft.items_toDraft fun element helement => Element.ofDraft_toJson (loaded element helement)
  have hmetadata := metadataOfDraft_toJson (valueRoom + 4) graph.metadata
  have hread : ofDraft (valueRoom + 6) graph.toJson.toDraft = .ok graph.reread := by
    show (record (valueRoom + 5)).scanMembers .closed ⟨none, none⟩
      [(.ok "elements", (elementsToJson graph.elements).toDraft), (.ok "metadata", _)] >>= _ = _
    rw [Record.scanMembers_cons_of_field? rfl rfl (congrArg (Functor.map _) helements),
      Record.scanMembers_cons_of_field? rfl rfl (congrArg (Functor.map _) hmetadata)]
    rfl
  rw [Json.Document.read_pretty]
  exact hread

/-- A graph of loaded elements is read as it was exactly if no map in a value looks like a
reference. -/
theorem reread_eq_iff (loaded : ∀ element ∈ graph.elements, element.Loaded valueRoom) :
    graph.reread = graph ↔
      ∀ element ∈ graph.elements, ∀ value ∈ element.values, ¬ value.HoldsReferenceMap := by
  have hself : graph.reread = graph ↔ graph.elements.map Element.reread = graph.elements := by
    constructor
    · exact fun h => congrArg elements h
    · exact fun h => by rw [reread, h]
  rw [hself, map_eq_self_iff]
  exact forall₂_congr fun element helement => Element.reread_eq_iff (loaded element helement)

end ElementGraph

end ElementCatalog
