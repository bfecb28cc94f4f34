import ElementCatalog.Value.Path

/-!
# The references in a value

`Value.references` lists every reference in a value with the path that leads to it, in pre-order.
Snapshots are not entered.
-/

namespace ElementCatalog

/-- A reference and the path that leads to it. -/
abbrev PlacedReference := List PathSegment × Reference

/-- The references found below one step. -/
def PlacedReference.below (segment : PathSegment) (found : List PlacedReference) :
    List PlacedReference :=
  found.map fun (path, reference) => (segment :: path, reference)

namespace Value

mutual

/-- The references in a value with their paths, in pre-order. -/
def references : Value → List PlacedReference
  | reference target snapshot => [([], ⟨target, snapshot⟩)]
  | list items => itemReferences 0 items
  | map members => memberReferences members
  | null => []
  | bool _ => []
  | number _ => []
  | string _ => []

/-- The references in items, the first of which has the given position. -/
def itemReferences (position : Nat) : List Value → List PlacedReference
  | [] => []
  | item :: rest =>
    PlacedReference.below (.index position) item.references ++ itemReferences (position + 1) rest

/-- The references in members. -/
def memberReferences : List (String × Value) → List PlacedReference
  | [] => []
  | (name, value) :: rest =>
    PlacedReference.below (.key name) value.references ++ memberReferences rest

end

end Value

end ElementCatalog
