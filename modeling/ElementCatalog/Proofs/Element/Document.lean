import ElementCatalog.Element.Graph
import ElementCatalog.Proofs.Element.Place
import ElementCatalog.Proofs.Reading.Tagged
import ElementCatalog.Proofs.Value.Loaded

/-!
# Elements that are read

Not every graph can be read from a text. The identifiers of one that was read have written forms, no
type declares a field twice, and all values of its elements are loaded ones. Neither records nor
tags let anything else through, and they take as many levels where they are written as where they
were read.

## Main definitions

* `Element.Loaded`: what is known of an element that was read.

## Main results

* `ElementGraph.loaded_of_read`: all elements of a graph that a text stands for are loaded;
* `ElementGraph.wellFormed_of_read`: its instances are well-formed.
-/

namespace ElementCatalog

/-- What reads as an identifier has a written form. -/
theorem ElementId.isWritable_of_ofJson {tree : Json} {id : ElementId} (h : ofJson tree = .ok id) :
    id.IsWritable := by
  cases tree with
  | string text => exact isWritable_of_parse (eq_ok_of_mapError_eq_ok h)
  | null | bool value | number value | list items | object members => cases h

/-- Values under names that are loaded or left out are loaded. -/
theorem ValueMap.loaded_getD {bound : Nat} {found : Option ValueMap}
    (h : ∀ values ∈ found, (Value.map values).Loaded (bound + 1)) :
    (Value.map (found.getD [])).Loaded (bound + 1) := by
  cases found with
  | none => exact loaded_nil
  | some values => exact h values rfl

namespace FieldDefinition

/-- A field as it can have been read from a document that goes two levels deeper than `room`. -/
structure Loaded (room : Nat) (field : FieldDefinition) : Prop where
  /-- The identifier has a written form. -/
  isWritable : field.id.IsWritable
  /-- The annotations can have been read. -/
  annotations : (Value.map field.annotations).Loaded (room + 1)

/-- What is read of a field can be a part of a loaded one. -/
structure Parts.Loaded (room : Nat) (parts : Parts) : Prop where
  isWritable : ∀ id ∈ parts.id, id.IsWritable
  annotations : ∀ values ∈ parts.annotations, (Value.map values).Loaded (room + 1)

/-- A field that is read is loaded. -/
theorem loaded_of_ofJson {room : Nat} {tree : Json} {field : FieldDefinition}
    (hdepth : tree.depth ≤ room + 2) (h : ofJson tree = .ok field) : field.Loaded room := by
  have keeps : Record.Keeps (fun node => node.depth < tree.depth) (Parts.Loaded room)
      record.fields := by
    refine Record.keeps_cons_slot ?_ (Record.keeps_cons_slot ?_ Record.keeps_nil)
    · rintro parts node id - hparts hid
      refine ⟨?_, hparts.annotations⟩
      rintro _ ⟨⟩
      exact ElementId.isWritable_of_ofJson hid
    · rintro parts node values hnode hparts hvalues
      refine ⟨hparts.isWritable, ?_⟩
      rintro _ ⟨⟩
      exact (ValueMap.loaded_of_ofJson hvalues).mono (by omega)
  obtain ⟨missing, parts, hparts, h⟩ :=
    Record.exists_complete_of_ofJson keeps ⟨by rintro _ ⟨⟩, by rintro _ ⟨⟩⟩ h
  obtain ⟨id, hid, h⟩ := exists_of_bind_eq_ok h
  obtain rfl := Except.ok.inj h
  exact ⟨hparts.isWritable id (Record.eq_some_of_required_eq_ok hid),
    ValueMap.loaded_getD hparts.annotations⟩

end FieldDefinition

namespace TypeDefinition

/-- A type as it can have been read from a document that goes four levels deeper than `room`. -/
structure Loaded (room : Nat) (definition : TypeDefinition) : Prop where
  /-- The identifier has a written form. -/
  isWritable : definition.id.IsWritable
  /-- No field is declared twice. -/
  distinct : (Keyed.keys definition.fields).Nodup
  /-- The fields can have been read. -/
  fields : ∀ field ∈ definition.fields, field.2.Loaded room
  /-- The annotations can have been read. -/
  annotations : (Value.map definition.annotations).Loaded (room + 3)

/-- What is read of a type can be a part of a loaded one. -/
structure Parts.Loaded (room : Nat) (parts : Parts) : Prop where
  isWritable : ∀ id ∈ parts.id, id.IsWritable
  distinct : ∀ fields ∈ parts.fields, (Keyed.keys fields).Nodup
  fields : ∀ fields ∈ parts.fields, ∀ field ∈ fields, field.2.Loaded room
  annotations : ∀ values ∈ parts.annotations, (Value.map values).Loaded (room + 3)

/-- Fields that are read under names have distinct names and are loaded. -/
theorem loaded_of_fieldsOfJson {room : Nat} {tree : Json} {fields : Keyed FieldDefinition}
    (hdepth : tree.depth ≤ room + 3) (h : fieldsOfJson tree = .ok fields) :
    (Keyed.keys fields).Nodup ∧ ∀ field ∈ fields, field.2.Loaded room := by
  cases tree with
  | object members =>
    obtain ⟨named, hnamed, h⟩ := exists_of_bind_eq_ok h
    obtain rfl := Except.ok.inj h
    obtain ⟨distinct, hsubset⟩ := Keyed.ofMembers_spec named
    refine ⟨distinct, fun field hfield => ?_⟩
    obtain ⟨member, hmember, hread⟩ := exists_of_mem_mapM hnamed (hsubset hfield)
    obtain ⟨found, hfound, hread⟩ := exists_of_bind_eq_ok hread
    obtain rfl := Except.ok.inj hread
    have hmembers := Json.memberDepth_le_iff.1 (Nat.le_of_succ_le_succ hdepth)
    exact FieldDefinition.loaded_of_ofJson (hmembers member hmember) hfound
  | null | bool value | number value | string value | list items => cases h

/-- A type that is read is loaded. -/
theorem loaded_of_ofJson {room : Nat} {tree : Json} {definition : TypeDefinition}
    (hdepth : tree.depth ≤ room + 4) (h : record.ofJson tree = .ok definition) :
    definition.Loaded room := by
  have keeps : Record.Keeps (fun node => node.depth < tree.depth) (Parts.Loaded room)
      record.fields := by
    refine Record.keeps_cons_slot ?_ (Record.keeps_cons_slot ?_ (Record.keeps_cons_slot ?_
      Record.keeps_nil))
    · rintro parts node id - hparts hid
      refine ⟨?_, hparts.distinct, hparts.fields, hparts.annotations⟩
      rintro _ ⟨⟩
      exact ElementId.isWritable_of_ofJson hid
    · rintro parts node fields hnode hparts hfields
      have hdepth : node.depth ≤ room + 3 := by omega
      obtain ⟨distinct, held⟩ := loaded_of_fieldsOfJson hdepth hfields
      refine ⟨hparts.isWritable, ?_, ?_, hparts.annotations⟩
      · rintro _ ⟨⟩
        exact distinct
      · rintro _ ⟨⟩
        exact held
    · rintro parts node values hnode hparts hvalues
      refine ⟨hparts.isWritable, hparts.distinct, hparts.fields, ?_⟩
      rintro _ ⟨⟩
      exact (ValueMap.loaded_of_ofJson hvalues).mono (by omega)
  obtain ⟨missing, parts, hparts, h⟩ := Record.exists_complete_of_ofJson keeps
    ⟨by rintro _ ⟨⟩, by rintro _ ⟨⟩, by rintro _ ⟨⟩, by rintro _ ⟨⟩⟩ h
  obtain ⟨id, hid, h⟩ := exists_of_bind_eq_ok h
  obtain rfl := Except.ok.inj h
  -- Without fields in the document the type has none.
  have hfields : (Keyed.keys (parts.fields.getD [])).Nodup ∧
      ∀ field ∈ parts.fields.getD [], field.2.Loaded room := by
    cases hread : parts.fields with
    | none => exact ⟨List.nodup_nil, fun _ hfield => absurd hfield List.not_mem_nil⟩
    | some fields => exact ⟨hparts.distinct fields hread, hparts.fields fields hread⟩
  exact ⟨hparts.isWritable id (Record.eq_some_of_required_eq_ok hid), hfields.1, hfields.2,
    ValueMap.loaded_getD hparts.annotations⟩

end TypeDefinition

namespace Instance

/-- An instance as it can have been read from a document that goes four levels deeper than
`room`. -/
structure Loaded (room : Nat) (contents : Instance) : Prop where
  /-- The identifier has a written form. -/
  isWritable : contents.id.IsWritable
  /-- The field values can have been read. -/
  value : (Value.map contents.value).Loaded (room + 3)
  /-- The annotations can have been read. -/
  annotations : (Value.map contents.annotations).Loaded (room + 3)

/-- What is read of an instance can be a part of a loaded one. -/
structure Parts.Loaded (room : Nat) (parts : Parts) : Prop where
  isWritable : ∀ id ∈ parts.id, id.IsWritable
  value : ∀ values ∈ parts.value, (Value.map values).Loaded (room + 3)
  annotations : ∀ values ∈ parts.annotations, (Value.map values).Loaded (room + 3)

/-- An instance that is read is loaded. -/
theorem loaded_of_ofJson {room : Nat} {tree : Json} {self : Instance}
    (hdepth : tree.depth ≤ room + 4) (h : record.ofJson tree = .ok self) : self.Loaded room := by
  have keeps : Record.Keeps (fun node => node.depth < tree.depth) (Parts.Loaded room)
      record.fields := by
    refine Record.keeps_cons_slot ?_ (Record.keeps_cons_slot ?_ (Record.keeps_cons_slot ?_
      Record.keeps_nil))
    · rintro parts node id - hparts hid
      refine ⟨?_, hparts.value, hparts.annotations⟩
      rintro _ ⟨⟩
      exact ElementId.isWritable_of_ofJson hid
    · rintro parts node values hnode hparts hvalues
      refine ⟨hparts.isWritable, ?_, hparts.annotations⟩
      rintro _ ⟨⟩
      exact (ValueMap.loaded_of_ofJson hvalues).mono (by omega)
    · rintro parts node values hnode hparts hvalues
      refine ⟨hparts.isWritable, hparts.value, ?_⟩
      rintro _ ⟨⟩
      exact (ValueMap.loaded_of_ofJson hvalues).mono (by omega)
  obtain ⟨missing, parts, hparts, h⟩ := Record.exists_complete_of_ofJson keeps
    ⟨by rintro _ ⟨⟩, by rintro _ ⟨⟩, by rintro _ ⟨⟩⟩ h
  obtain ⟨id, hid, h⟩ := exists_of_bind_eq_ok h
  obtain rfl := Except.ok.inj h
  exact ⟨hparts.isWritable id (Record.eq_some_of_required_eq_ok hid),
    ValueMap.loaded_getD hparts.value, ValueMap.loaded_getD hparts.annotations⟩

/-- A loaded instance is well-formed. -/
theorem Loaded.wellFormed {room : Nat} {self : Instance} (loaded : self.Loaded room) :
    self.WellFormed := by
  intro start
  cases start with
  | value => exact loaded.value.wellFormed
  | annotations => exact loaded.annotations.wellFormed

end Instance

namespace Element

/-- An element as it can have been read from a document that goes four levels deeper than `room`. -/
def Loaded (room : Nat) : Element → Prop
  | ofType definition => definition.Loaded room
  | ofInstance contents => contents.Loaded room

/-- An element whose content does not go too deep is loaded. -/
theorem loaded_of_ofContent {room : Nat} {variant : Variant} {content : Json} {element : Element}
    (hdepth : content.depth ≤ room + 4) (h : ofContent (variant, content) = .ok element) :
    element.Loaded room := by
  cases variant with
  | type =>
    obtain ⟨definition, hdefinition, rfl⟩ := exists_of_map_eq_ok h
    exact TypeDefinition.loaded_of_ofJson hdepth hdefinition
  | inst =>
    obtain ⟨contents, hcontents, rfl⟩ := exists_of_map_eq_ok h
    exact Instance.loaded_of_ofJson hdepth hcontents

/-- An element that is read is loaded. -/
theorem loaded_of_ofDraft {room : Nat} {draft : Json.Draft} {element : Element}
    (h : ofDraft (room + 4) draft = .ok element) : element.Loaded room := by
  obtain ⟨⟨variant, content⟩, hvariant, h⟩ := exists_of_bind_eq_ok h
  exact loaded_of_ofContent (Variants.depth_le_of_ofDraft hvariant) (eq_ok_of_mapError_eq_ok h)

/-- An element that is read from a tree is loaded. -/
theorem loaded_of_ofJson {room : Nat} {tree : Json} {element : Element}
    (hdepth : tree.depth ≤ room + 4) (h : ofJson tree = .ok element) : element.Loaded room := by
  obtain ⟨⟨variant, content⟩, hvariant, h⟩ := exists_of_bind_eq_ok h
  exact loaded_of_ofContent ((Variants.depth_le_of_ofJson hvariant).trans hdepth) h

end Element

namespace ElementGraph

/-- How deep the values in annotations of fields can stand in one another: the graph, its elements,
the fields and their annotations stand around them. -/
def valueRoom : Nat := Json.depthLimit - 6

/-- The elements of a graph that a draft stands for are loaded. -/
theorem loaded_of_ofDraft {room : Nat} {draft : Json.Draft} {graph : ElementGraph}
    (h : ofDraft (room + 6) draft = .ok graph) : ∀ element ∈ graph.elements, element.Loaded room := by
  let held (parts : Parts) : Prop :=
    ∀ elements ∈ parts.elements, ∀ element ∈ elements, element.Loaded room
  -- The graph and the list of its elements take one level each.
  have keeps (inside : Nat) (hinside : room + 6 = inside + 1) :
      Record.Keeps (fun _ => True) held (record inside).fields := by
    obtain rfl : inside = room + 5 := by omega
    refine Record.keeps_cons_slot ?_ (Record.keeps_cons_slot ?_ Record.keeps_nil)
    · rintro parts node elements - hparts helements _ ⟨⟩ element hmem
      obtain ⟨within, part, hwithin, hpart⟩ := Json.Draft.exists_read_of_mem_items helements hmem
      obtain rfl : within = room + 4 := by omega
      exact Element.loaded_of_ofDraft hpart
    · rintro parts node metadata - hparts -
      exact hparts
  obtain ⟨inside, missing, parts, hparts, h⟩ :=
    Record.exists_complete_of_ofDraft keeps (fun _ => by rintro _ ⟨⟩) h
  obtain ⟨elements, helements, h⟩ := exists_of_bind_eq_ok h
  obtain rfl := Except.ok.inj h
  exact hparts elements (Record.eq_some_of_required_eq_ok helements)

variable {text : String} {graph : ElementGraph}

/-- The elements of a graph that a text stands for are loaded. -/
theorem loaded_of_read (h : Json.Document.read ofDraft text = .ok graph) :
    ∀ element ∈ graph.elements, element.Loaded valueRoom := by
  obtain ⟨draft, hdraft⟩ := Json.Document.exists_reader_of_read h
  exact loaded_of_ofDraft hdraft

/-- The instances of a graph that a text stands for are well-formed. -/
theorem wellFormed_of_read (h : Json.Document.read ofDraft text = .ok graph) :
    ∀ self ∈ graph.instances, self.WellFormed := by
  intro self hself
  obtain ⟨element, hmem, hinstance⟩ := List.mem_filterMap.1 hself
  have loaded := loaded_of_read h element hmem
  cases element with
  | ofType definition => cases hinstance
  | ofInstance contents =>
    obtain rfl := Option.some.inj hinstance
    exact loaded.wellFormed

end ElementGraph

end ElementCatalog
