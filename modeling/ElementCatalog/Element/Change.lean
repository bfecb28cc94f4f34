import ElementCatalog.Element.Document

/-!
# Changes

A change says that an element was added, removed, or replaced by another state of it. In documents
the variants are tagged with `action`.
-/

namespace ElementCatalog

/-- A change of one element. -/
inductive Change where
  /-- An element that was not there before. -/
  | addition (after : Element)
  /-- An element that is no longer there. -/
  | removal (before : Element)
  /-- An element that has another state than before. -/
  | modification (before after : Element)

namespace Change

/-- The state before the change, if there is one. -/
def before? : Change → Option Element
  | addition _ => none
  | removal before => some before
  | modification before _ => some before

/-- The state after the change, if there is one. -/
def after? : Change → Option Element
  | addition after => some after
  | removal _ => none
  | modification _ after => some after

/-- The latest known state: the one after the change, or the one before a removal. -/
def latest : Change → Element
  | addition after => after
  | removal before => before
  | modification _ after => after

/-- Whether the change adds an element. -/
def isAddition : Change → Bool
  | addition _ => true
  | _ => false

/-- Whether the change removes an element. -/
def isRemoval : Change → Bool
  | removal _ => true
  | _ => false

/-- The variants of a change. -/
inductive Variant where
  /-- An addition. -/
  | addition
  /-- A removal. -/
  | removal
  /-- A modification. -/
  | modification
deriving DecidableEq, Repr

/-- How the variants are written. -/
def variants : Variants Variant :=
  ⟨"action", [("addition", .addition), ("removal", .removal), ("modification", .modification)]⟩

/-- The parts of a change that is being read. -/
structure Parts where
  /-- The state before, once read. -/
  before : Option Element
  /-- The state after, once read. -/
  after : Option Element

/-- The member that holds the state before a change. -/
def beforeField : Field Parts Json ShapeError :=
  .slot "before" Parts.before (fun parts element => { parts with before := some element })
    Element.ofJson

/-- The member that holds the state after a change. -/
def afterField : Field Parts Json ShapeError :=
  .slot "after" Parts.after (fun parts element => { parts with after := some element })
    Element.ofJson

/-- A variant as a record. -/
def record : Variant → Record Parts Json ShapeError Change
  | .addition =>
    { fields := [afterField]
      start := ⟨none, none⟩
      complete := fun missing parts => addition <$> Record.required missing "after" parts.after }
  | .removal =>
    { fields := [beforeField]
      start := ⟨none, none⟩
      complete := fun missing parts => removal <$> Record.required missing "before" parts.before }
  | .modification =>
    { fields := [beforeField, afterField]
      start := ⟨none, none⟩
      complete := fun missing parts => do
        let before ← Record.required missing "before" parts.before
        let after ← Record.required missing "after" parts.after
        return modification before after }

/-- The change that a draft stands for. -/
def ofDraft (room : Nat) (draft : Json.Draft) : Read Change := do
  let (variant, content) ← variants.ofDraft room draft
  Read.ofShape ((record variant).ofJson content)

/-- The document tree of a change. -/
def toJson : Change → Json
  | addition after => .object [("action", .string "addition"), ("after", after.toJson)]
  | removal before => .object [("action", .string "removal"), ("before", before.toJson)]
  | modification before after =>
    .object [("action", .string "modification"), ("before", before.toJson),
      ("after", after.toJson)]

end Change

end ElementCatalog
