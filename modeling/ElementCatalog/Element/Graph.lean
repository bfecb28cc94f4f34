import ElementCatalog.Element.Document
import Std.Data.ExtTreeMap

/-!
# Element graphs

An element graph is the list of all elements that were fetched together, with metadata about the
fetch. Elements refer to one another by identifier, and identifiers can be shared for a while, so
the list says nothing about which element an identifier means.
-/

namespace ElementCatalog

/-- All elements of one fetch. -/
structure ElementGraph where
  /-- The elements in the order of the fetch. -/
  elements : List Element
  /-- Metadata about the fetch, in ascending order of names. -/
  metadata : Std.ExtTreeMap String String

/-- The instances among elements. -/
def instancesOf (elements : List Element) : List Instance :=
  elements.filterMap Element.asInstance?

namespace ElementGraph

/-- A graph without elements. -/
def empty : ElementGraph := ⟨[], ∅⟩

/-- The instances in order. -/
def instances (graph : ElementGraph) : List Instance :=
  instancesOf graph.elements

/-- The type definitions in order. -/
def types (graph : ElementGraph) : List TypeDefinition :=
  graph.elements.filterMap Element.asType?

/-- How many references the instances hold. -/
def referenceCount (graph : ElementGraph) : Nat :=
  (graph.instances.flatMap Instance.references).length

/-- Whether two graphs have equal elements in equal order. -/
def sameElements (a b : ElementGraph) : Bool :=
  a.elements.length == b.elements.length &&
    (a.elements.zip b.elements).all fun (x, y) => x.same y

/-- The parts of a graph that is being read. -/
structure Parts where
  /-- The elements, once read. -/
  elements : Option (List Element)
  /-- The metadata, once read. -/
  metadata : Option (Std.ExtTreeMap String String)

/-- The metadata that a draft stands for. Of a repeated name the last text counts. -/
def metadataOfDraft (room : Nat) (draft : Json.Draft) : Read (Std.ExtTreeMap String String) := do
  let members ← draft.members (fun _ => Json.Draft.string) room
  return .ofList members

/-- A graph as a record with the given room inside. -/
def record (room : Nat) : Record Parts Json.Draft DocumentError ElementGraph where
  fields := [
    .slot "elements" Parts.elements
      (fun parts elements => { parts with elements := some elements })
      (Json.Draft.items Element.ofDraft room),
    .slot "metadata" Parts.metadata
      (fun parts metadata => { parts with metadata := some metadata })
      (metadataOfDraft room)]
  start := ⟨none, none⟩
  complete missing parts := do
    let elements ← Record.required missing "elements" parts.elements
    return ⟨elements, parts.metadata.getD ∅⟩

/-- The graph that a draft stands for. -/
def ofDraft (room : Nat) : Json.Draft → Read ElementGraph :=
  Record.ofDraft record room

/-- The document tree of elements. -/
def elementsToJson (elements : List Element) : Json :=
  .list (elements.map Element.toJson)

/-- The document tree of a graph. -/
def toJson (graph : ElementGraph) : Json :=
  .object [
    ("elements", elementsToJson graph.elements),
    ("metadata", .object (graph.metadata.toList.map fun (name, text) => (name, .string text)))]

end ElementGraph

end ElementCatalog
