import ElementCatalog.Proofs.Value.Place

/-!
# Values with other references

`Value.mapReferences` puts another reference in the place of each reference in a value. Snapshots are
parts of references, so they are not entered. A value is read and changed alike before and after: a
path leads to the same part (`Value.at?_mapReferences`), the references stand at the same places
(`Value.references_mapReferences`), and a change at a place can be made before or after
(`Value.update?_mapReferences`).
-/

namespace ElementCatalog.Value

mutual

/-- The value with each reference changed. -/
def mapReferences (change : Reference → Reference) : Value → Value
  | reference target snapshot => (change ⟨target, snapshot⟩).toValue
  | list items => list (mapItemReferences change items)
  | map members => map (mapMemberReferences change members)
  | null => null
  | bool value => bool value
  | number value => number value
  | string value => string value

/-- Items with each reference changed. -/
def mapItemReferences (change : Reference → Reference) : List Value → List Value
  | [] => []
  | item :: rest => item.mapReferences change :: mapItemReferences change rest

/-- Members with each reference changed. -/
def mapMemberReferences (change : Reference → Reference) :
    List (String × Value) → List (String × Value)
  | [] => []
  | (name, value) :: rest => (name, value.mapReferences change) :: mapMemberReferences change rest

end

mutual

/-- Nothing changes where all references stay. -/
theorem mapReferences_id : ∀ value : Value, value.mapReferences id = value
  | .reference _ _ | .null | .bool _ | .number _ | .string _ => rfl
  | .list items => by rw [mapReferences, mapItemReferences_id]
  | .map members => by rw [mapReferences, mapMemberReferences_id]

/-- No item changes where all references stay. -/
theorem mapItemReferences_id : ∀ items : List Value, mapItemReferences id items = items
  | [] => rfl
  | item :: rest => by rw [mapItemReferences, mapReferences_id, mapItemReferences_id]

/-- No member changes where all references stay. -/
theorem mapMemberReferences_id : ∀ members : List (String × Value),
    mapMemberReferences id members = members
  | [] => rfl
  | (name, value) :: rest => by
    rw [mapMemberReferences, mapReferences_id, mapMemberReferences_id]

end

variable {change : Reference → Reference}

/-- References are changed in each item by itself. -/
theorem mapItemReferences_eq_map (items : List Value) :
    mapItemReferences change items = items.map (mapReferences change) := by
  induction items with
  | nil => rfl
  | cons item rest ih => rw [mapItemReferences, ih, List.map_cons]

/-- References are changed in each member by itself. -/
theorem mapMemberReferences_eq_map (members : List (String × Value)) :
    mapMemberReferences change members =
      members.map fun member => (member.1, member.2.mapReferences change) := by
  induction members with
  | nil => rfl
  | cons member rest ih => rw [mapMemberReferences, ih, List.map_cons]

/-- A value is a reference exactly if it is one with its references changed. -/
theorem asReference?_mapReferences (value : Value) :
    (value.mapReferences change).asReference? = value.asReference?.map change := by
  cases value <;> rfl

/-- A value that is a reference. -/
theorem eq_toValue_of_asReference?_eq_some {value : Value} {reference : Reference}
    (h : value.asReference? = some reference) : value = reference.toValue := by
  cases value with
  | reference target snapshot =>
    obtain rfl := Option.some.inj h
    rfl
  | null | bool value | number value | string value | list items | map members => cases h

/-! ## Looking up -/

/-- What is found under a key is found there with its references changed. -/
theorem get?_mapMemberReferences (members : List (String × Value)) (name : String) :
    Keyed.get? (mapMemberReferences change members) name =
      (Keyed.get? members name).map (mapReferences change) := by
  rw [mapMemberReferences_eq_map]
  exact Keyed.get?_map_snd _ members name

/-- One step leads to the part with its references changed. -/
theorem child?_mapReferences (value : Value) (segment : PathSegment) :
    (value.mapReferences change).child? segment =
      (value.child? segment).map (mapReferences change) := by
  cases value with
  | list items =>
    rw [mapReferences, mapItemReferences_eq_map]
    cases segment with
    | index position => simp only [child?, List.getElem?_map]
    | key name =>
      simp only [child?]
      cases listPosition? name with
      | none => rfl
      | some position => simp [List.getElem?_map]
  | map members =>
    rw [mapReferences]
    cases segment with
    | index position => rfl
    | key name => exact get?_mapMemberReferences members name
  | reference target snapshot | null | bool value | number value | string value =>
    cases segment <;> rfl

/-- A path leads to the part with its references changed. -/
theorem at?_mapReferences (value : Value) (path : List PathSegment) :
    (value.mapReferences change).at? path = (value.at? path).map (mapReferences change) := by
  induction path generalizing value with
  | nil => rfl
  | cons segment rest ih =>
    rw [at?, at?, child?_mapReferences]
    cases value.child? segment with
    | none => rfl
    | some part => exact ih part

/-- A dotted path leads to the value with its references changed. -/
theorem find?_mapMemberReferences (values : ValueMap) (path : String) :
    ValueMap.find? (mapMemberReferences change values) path =
      (ValueMap.find? values path).map (mapReferences change) := by
  rw [ValueMap.find?, ValueMap.find?]
  cases Dotted.split path with
  | nil => rfl
  | cons first rest =>
    simp only [get?_mapMemberReferences]
    cases Keyed.get? values first with
    | none => rfl
    | some value => exact at?_mapReferences value _

/-! ## Listing -/

/-- References with paths, each reference changed. -/
def mapPlaced (change : Reference → Reference) (found : List PlacedReference) :
    List PlacedReference :=
  found.map fun placed => (placed.1, change placed.2)

/-- References can be changed before or after a step is put in front of their paths. -/
theorem mapPlaced_below (segment : PathSegment) (found : List PlacedReference) :
    mapPlaced change (PlacedReference.below segment found) =
      PlacedReference.below segment (mapPlaced change found) := by
  simp [mapPlaced, PlacedReference.below]

mutual

/-- The changed references stand where the references stood. -/
theorem references_mapReferences : ∀ value : Value,
    (value.mapReferences change).references = mapPlaced change value.references
  | .reference _ _ | .null | .bool _ | .number _ | .string _ => rfl
  | .list items => by
    rw [mapReferences, references, references, itemReferences_mapItemReferences]
  | .map members => by
    rw [mapReferences, references, references, memberReferences_mapMemberReferences]

/-- The changed references of items stand where the references stood. -/
theorem itemReferences_mapItemReferences : ∀ (position : Nat) (items : List Value),
    itemReferences position (mapItemReferences change items) =
      mapPlaced change (itemReferences position items)
  | _, [] => rfl
  | position, item :: rest => by
    rw [mapItemReferences, itemReferences, itemReferences, references_mapReferences,
      itemReferences_mapItemReferences, ← mapPlaced_below, mapPlaced, mapPlaced, mapPlaced,
      List.map_append]

/-- The changed references of members stand where the references stood. -/
theorem memberReferences_mapMemberReferences : ∀ members : List (String × Value),
    memberReferences (mapMemberReferences change members) =
      mapPlaced change (memberReferences members)
  | [] => rfl
  | (name, value) :: rest => by
    rw [mapMemberReferences, memberReferences, memberReferences, references_mapReferences,
      memberReferences_mapMemberReferences, ← mapPlaced_below, mapPlaced, mapPlaced, mapPlaced,
      List.map_append]

end

/-! ## Changing -/

/-- A change that can be made before or after references are changed can be so at every place. -/
theorem update?_mapReferences {update : Value → Option Value}
    (hupdate : ∀ part : Value,
      update (part.mapReferences change) = (update part).map (mapReferences change))
    (value : Value) (path : List PathSegment) :
    (value.mapReferences change).update? update path =
      (value.update? update path).map (mapReferences change) := by
  induction path generalizing value with
  | nil => exact hupdate value
  | cons segment rest ih =>
    cases value with
    | map members =>
      rw [mapReferences]
      cases segment with
      | index position => rfl
      | key name =>
        simp only [update?, get?_mapMemberReferences]
        cases Keyed.get? members name with
        | none => rfl
        | some part =>
          simp only [Option.map_some, Option.bind_eq_bind, Option.bind_some, ih]
          cases part.update? update rest with
          | none => rfl
          | some new =>
            simp only [Option.map_some, Option.bind_some, Option.pure_def, mapReferences,
              mapMemberReferences_eq_map]
            exact congrArg (some ∘ map) (Keyed.put_map_snd _ members name new)
    | list items =>
      rw [mapReferences, mapItemReferences_eq_map]
      cases segment with
      | key name => rfl
      | index position =>
        simp only [update?, List.getElem?_map]
        cases items[position]? with
        | none => rfl
        | some part =>
          simp only [Option.map_some, Option.bind_eq_bind, Option.bind_some, ih]
          cases part.update? update rest with
          | none => rfl
          | some new =>
            simp only [Option.map_some, Option.bind_some, Option.pure_def, mapReferences,
              mapItemReferences_eq_map, List.map_set]
    | reference target snapshot | null | bool value | number value | string value =>
      cases segment <;> rfl

end ElementCatalog.Value
