import ElementCatalog.ElementId.Basic

/-!
# Nesting of identifiers

An identifier can point below a top-level element, that is, below a type definition or below an
instance. This module extends an identifier by a path (`ElementId.nested`), splits it into the
top-level element and the path below (`ElementId.topLevel`), and moves it from one top-level
element to another (`ElementId.rebase`).
-/

namespace ElementCatalog.ElementId

/-- The identifier extended by a path. What lies below a type definition is an annotation value,
so a type identifier turns into one of kind `attr`. -/
def nested (id : ElementId) (path : List String) : ElementId :=
  { id with
    kind := if id.kind = .type ∧ path ≠ [] then .attr else id.kind
    parts := id.parts ++ path }

/-- The top-level element that the identifier lies under, and the path below it. Below a type
definition the path of anything but a bare type identifier starts with the keyword of its kind. -/
def topLevel (id : ElementId) : ElementId × List String :=
  match id.kind, id.parts with
  | .inst, first :: rest => (⟨id.adapter, id.typeName, .inst, [first]⟩, rest)
  | .type, parts => (id.owningType, parts)
  | kind, parts => (id.owningType, kind.keyword :: parts)

/-- The identifier with the top-level element `source` replaced by `target`, and nothing if it
does not lie under `source`. What hangs off a type definition keeps its kind and its parts. -/
def rebase (id source target : ElementId) : Option ElementId :=
  if id.topLevel.1 ≠ source then none
  else if id.kind = .inst ∨ id.topLevel.2 = [] then some (target.nested id.topLevel.2)
  else some ⟨target.adapter, target.typeName, id.kind, id.parts⟩

/-- The empty path leads nowhere else. -/
@[simp]
theorem nested_nil (id : ElementId) : id.nested [] = id := by
  simp [nested]

/-- A top-level instance lies under itself, with nothing below. -/
@[simp]
theorem topLevel_ofInstance (adapter typeName name : String) :
    (ofInstance adapter typeName name).topLevel = (ofInstance adapter typeName name, []) := rfl

/-- A type definition lies under itself, with nothing below. -/
@[simp]
theorem topLevel_ofType (adapter typeName : String) :
    (ofType adapter typeName).topLevel = (ofType adapter typeName, []) := rfl

/-- Exactly the identifiers under another top-level element cannot be moved. -/
theorem rebase_eq_none_iff {id source target : ElementId} :
    id.rebase source target = none ↔ id.topLevel.1 ≠ source := by
  unfold rebase
  split
  · simp_all
  · split <;> simp_all

end ElementCatalog.ElementId
