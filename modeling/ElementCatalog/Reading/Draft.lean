import ElementCatalog.Json.Draft
import ElementCatalog.Reading.Error

/-!
# Reading drafts

A reader looks for a certain shape in a draft and fails with the first thing that is wrong, in the
order of the text. This module has the readers of single values, lists and dictionaries, the
conversion of a draft into a finished tree (`Draft.settle`), and what happens to parts that nobody
reads (`Draft.skip`).

Containers may stand at most 127 deep in one another. A reader is told how many more levels there
is room for, and a container for which there is no room is malformed whatever it holds. Parts that
are passed over have no such limit.
-/

namespace ElementCatalog.Json

/-- How deep containers may stand in one another. -/
def depthLimit : Nat := 127

namespace Ending

/-- What a reader finds behind the last part. -/
def read : Ending → Except Fault Unit
  | closed => .ok ()
  | broken _ flaw => .error flaw.read

/-- What is found behind the last part by someone who passes over it. -/
def skipped : Ending → Except Fault Unit
  | closed => .ok ()
  | broken _ flaw => .error (flaw.skipped.getD flaw.read)

/-- What a reader finds who has read all parts that he looks for: a comma must not follow. -/
def last : Ending → Except Fault Unit
  | closed => .ok ()
  | broken true _ => .error .malformed
  | broken false flaw => .error flaw.read

end Ending

namespace Draft

mutual

/-- The finished tree of a draft, with room for the given number of levels. -/
def settle (room : Nat) : Draft → Except Fault Json
  | atom .null => .ok .null
  | atom (.bool value) => .ok (.bool value)
  | atom (.number value) => .ok (.number value)
  | atom (.string value) => .ok (.string value)
  | atom (.flawed flaw) => .error flaw.read
  | list items ending =>
    match room with
    | 0 => .error .malformed
    | room + 1 => do
      let items ← settleItems room items
      ending.read
      return .list items
  | object members ending =>
    match room with
    | 0 => .error .malformed
    | room + 1 => do
      let members ← settleMembers room members
      ending.read
      return .object members

/-- The finished trees of items. -/
def settleItems (room : Nat) : List Draft → Except Fault (List Json)
  | [] => .ok []
  | item :: rest => do
    let item ← settle room item
    let rest ← settleItems room rest
    return item :: rest

/-- The finished trees of members. -/
def settleMembers (room : Nat) : List (Key × Draft) → Except Fault (List (String × Json))
  | [] => .ok []
  | (key, value) :: rest => do
    let key ← key
    let value ← settle room value
    let rest ← settleMembers room rest
    return (key, value) :: rest

end

mutual

/-- What is wrong with a draft for someone who passes over it. -/
def skip : Draft → Except Fault Unit
  | atom (.flawed flaw) =>
    match flaw.skipped with
    | none => .ok ()
    | some fault => .error fault
  | atom _ => .ok ()
  | list items ending => do
    skipItems items
    ending.skipped
  | object members ending => do
    skipMembers members
    ending.skipped

/-- What is wrong with items for someone who passes over them. -/
def skipItems : List Draft → Except Fault Unit
  | [] => .ok ()
  | item :: rest => do
    skip item
    skipItems rest

/-- What is wrong with members for someone who passes over them. -/
def skipMembers : List (Key × Draft) → Except Fault Unit
  | [] => .ok ()
  | (_, value) :: rest => do
    skip value
    skipMembers rest

end

end Draft

end ElementCatalog.Json

namespace ElementCatalog

open Json (Fault Key Ending Draft Document)

/-- The outcome of reading a part of a document. -/
abbrev Read (α : Type) := Except DocumentError α

namespace Read

/-- A reading that can only fail by the text. -/
def ofText {α : Type} (result : Except Fault α) : Read α :=
  result.mapError .text

/-- A reading that can only fail by the shape. -/
def ofShape {α : Type} (result : Except ShapeError α) : Read α :=
  result.mapError .shape

end Read

namespace Json.Draft

/-- The error of a reader that finds another kind of value than it looks for. A container is of
the wrong kind whatever it holds. -/
def mismatch : Draft → DocumentError
  | atom (.flawed flaw) => .text flaw.read
  | _ => .shape .invalidType

/-- Room for what stands inside a container. -/
def roomInside : Nat → Read Nat
  | 0 => .error (.text .malformed)
  | room + 1 => .ok room

/-- A text. -/
def string : Draft → Read String
  | atom (.string value) => .ok value
  | draft => .error draft.mismatch

/-- A truth value. -/
def bool : Draft → Read Bool
  | atom (.bool value) => .ok value
  | draft => .error draft.mismatch

/-- A natural number below the given limit. -/
def natBelow (limit : Nat) : Draft → Read Nat
  | atom (.number (.int value _)) =>
    if 0 ≤ value ∧ value < limit then .ok value.toNat else .error (.shape .invalidValue)
  | draft => .error draft.mismatch

/-- An identifier. -/
def elementId (draft : Draft) : Read ElementId := do
  Read.ofShape (ElementId.ofText (← draft.string))

/-- A value, or `null` for none. -/
def optional {α : Type} (read : Draft → Read α) : Draft → Read (Option α)
  | atom .null => .ok none
  | draft => some <$> read draft

/-- The items of a list, each read in the room inside. -/
def items {α : Type} (read : Nat → Draft → Read α) (room : Nat) : Draft → Read (List α)
  | list items ending => do
    let room ← roomInside room
    let items ← items.mapM (read room)
    Read.ofText ending.read
    return items
  | draft => .error draft.mismatch

/-- The members of an object in the order of the text, each read in the room inside. -/
def members {α : Type} (read : Nat → Draft → Read α) (room : Nat) :
    Draft → Read (List (String × α))
  | object members ending => do
    let room ← roomInside room
    let members ← members.mapM fun (key, value) => do
      let key ← Read.ofText key
      return (key, ← read room value)
    Read.ofText ending.read
    return members
  | draft => .error draft.mismatch

/-- The finished tree of a draft. -/
def tree (room : Nat) (draft : Draft) : Read Json :=
  Read.ofText (draft.settle room)

end Json.Draft

namespace Json.Document

/-- The value that a text stands for. What comes behind it is looked at last. -/
def read {α : Type} (reader : Nat → Draft → Read α) (text : String) : Read α := do
  let document := Document.ofText text
  let value ← reader depthLimit document.root
  if document.trailing then throw (.text .malformed)
  return value

end Json.Document

end ElementCatalog
