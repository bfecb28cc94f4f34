import ElementCatalog.Element.Change
import ElementCatalog.Proofs.Element.Document

/-!
# Changes that are read

The states before and after a change that was read are loaded, each as an element of a graph would
be (`Change.loaded_of_read`): both documents have one container around their elements' contents.
-/

namespace ElementCatalog.Change

/-- A change as it can have been read: the states before and after it are loaded. -/
def Loaded (room : Nat) (change : Change) : Prop :=
  ∀ element ∈ change.before?.toList ++ change.after?.toList, element.Loaded room

/-- What is read of a change can be a part of a loaded one. -/
structure Parts.Loaded (room : Nat) (parts : Parts) : Prop where
  before : ∀ element ∈ parts.before, element.Loaded room
  after : ∀ element ∈ parts.after, element.Loaded room

variable {room : Nat}

/-- The fields of a change, read from nodes that are not too deep, keep its parts loaded. -/
theorem keeps_fields (variant : Variant) {limit : Nat} (hlimit : limit ≤ room + 5) :
    Record.Keeps (fun node => node.depth < limit) (Parts.Loaded room) (record variant).fields := by
  -- The two fields are the same in all variants, in which one of them can be left out.
  have hbefore {fields : List (Field Parts Json ShapeError)} (keeps : Record.Keeps
      (fun node => node.depth < limit) (Parts.Loaded room) fields) :
      Record.Keeps (fun node => node.depth < limit) (Parts.Loaded room) (beforeField :: fields) := by
    refine Record.keeps_cons_slot ?_ keeps
    rintro parts node element hnode hparts helement
    refine ⟨?_, hparts.after⟩
    rintro _ ⟨⟩
    exact Element.loaded_of_ofJson (by omega) helement
  have hafter : Record.Keeps (fun node => node.depth < limit) (Parts.Loaded room) [afterField] := by
    refine Record.keeps_cons_slot ?_ Record.keeps_nil
    rintro parts node element hnode hparts helement
    refine ⟨hparts.before, ?_⟩
    rintro _ ⟨⟩
    exact Element.loaded_of_ofJson (by omega) helement
  cases variant with
  | addition => exact hafter
  | removal => exact hbefore Record.keeps_nil
  | modification => exact hbefore hafter

/-- A change that is completed from loaded parts is loaded. -/
theorem loaded_of_complete {variant : Variant} {missing : String → ShapeError} {parts : Parts}
    {change : Change} (hparts : parts.Loaded room)
    (h : (record variant).complete missing parts = .ok change) : change.Loaded room := by
  cases variant with
  | addition =>
    obtain ⟨after, hafter, rfl⟩ := exists_of_map_eq_ok h
    exact List.forall_mem_singleton.2 (hparts.after _ (Record.eq_some_of_required_eq_ok hafter))
  | removal =>
    obtain ⟨before, hbefore, rfl⟩ := exists_of_map_eq_ok h
    exact List.forall_mem_singleton.2 (hparts.before _ (Record.eq_some_of_required_eq_ok hbefore))
  | modification =>
    obtain ⟨before, hbefore, h⟩ := exists_of_bind_eq_ok h
    obtain ⟨after, hafter, h⟩ := exists_of_bind_eq_ok h
    obtain rfl := Except.ok.inj h
    exact List.forall_mem_cons.2 ⟨hparts.before _ (Record.eq_some_of_required_eq_ok hbefore),
      List.forall_mem_singleton.2 (hparts.after _ (Record.eq_some_of_required_eq_ok hafter))⟩

/-- A change that is read is loaded. -/
theorem loaded_of_ofDraft {draft : Json.Draft} {change : Change}
    (h : ofDraft (room + 5) draft = .ok change) : change.Loaded room := by
  obtain ⟨⟨variant, content⟩, hvariant, h⟩ := exists_of_bind_eq_ok h
  have hdepth := Variants.depth_le_of_ofDraft hvariant
  have start : Parts.Loaded room (record variant).start := by
    cases variant <;> exact ⟨by rintro _ ⟨⟩, by rintro _ ⟨⟩⟩
  obtain ⟨missing, parts, hparts, h⟩ :=
    Record.exists_complete_of_ofJson (keeps_fields variant hdepth) start (eq_ok_of_mapError_eq_ok h)
  exact loaded_of_complete hparts h

/-- The changes that a text stands for are loaded. -/
theorem loaded_of_read {text : String} {changes : List Change}
    (h : Json.Document.read (Json.Draft.items ofDraft) text = .ok changes) :
    ∀ change ∈ changes, change.Loaded ElementGraph.valueRoom := by
  intro change hchange
  obtain ⟨draft, hdraft⟩ := Json.Document.exists_reader_of_read h
  obtain ⟨inside, part, hinside, hpart⟩ := Json.Draft.exists_read_of_mem_items hdraft hchange
  obtain rfl : inside = ElementGraph.valueRoom + 5 := by
    rw [Json.depthLimit] at hinside
    rw [ElementGraph.valueRoom, Json.depthLimit]
    omega
  exact loaded_of_ofDraft hpart

end ElementCatalog.Change
