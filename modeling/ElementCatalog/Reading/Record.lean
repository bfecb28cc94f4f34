import ElementCatalog.Reading.Draft

/-!
# Reading records

A record is written as an object with its fields as members, in any order, or as a list with its
fields in the order of their declaration. In an object a field must not occur twice, and unknown
members count for nothing. In a list fields at the end can be left out, and nothing may come
after the last one. A field that is left out takes its default, if it has one.

A `Record` describes such a record by the parts that its fields fill. It is read from a draft
(`Record.ofDraft`), where the first thing that is wrong in the order of the text counts, or from a
finished tree (`Record.ofJson`), where only the shape can be wrong.
-/

namespace ElementCatalog

open Json (Fault Key Ending Draft)

/-- A field of a record, of which parts of type `σ` are filled from nodes of type `ν`. -/
structure Field (σ ν ε : Type) where
  /-- The name of the member. -/
  name : String
  /-- Whether the field was read before. -/
  isSet : σ → Bool
  /-- The parts with the field read from a node. -/
  store : σ → ν → Except ε σ

/-- A field that fills one optional part. -/
def Field.slot {σ ν ε α : Type} (name : String) (get : σ → Option α) (put : σ → α → σ)
    (read : ν → Except ε α) : Field σ ν ε where
  name := name
  isSet parts := (get parts).isSome
  store parts node := put parts <$> read node

/-- A record of type `α`, collected in parts of type `σ`. -/
structure Record (σ ν ε α : Type) where
  /-- The fields in the order of their declaration. -/
  fields : List (Field σ ν ε)
  /-- The parts before any field is read. -/
  start : σ
  /-- The record made of its parts, given how a missing field is reported. -/
  complete : (missing : String → ShapeError) → σ → Except ShapeError α

namespace Record

variable {σ ν ε α : Type}

/-- A part that has to be there. -/
def required (missing : String → ShapeError) (name : String) :
    Option α → Except ShapeError α
  | some value => .ok value
  | none => .error (missing name)

/-- The field with a name. -/
def field? (record : Record σ ν ε α) (name : String) : Option (Field σ ν ε) :=
  record.fields.find? fun field => field.name == name

/-- The parts filled from the members of an object. -/
def readMembers (record : Record σ Json ShapeError α) :
    σ → List (String × Json) → Except ShapeError σ
  | parts, [] => .ok parts
  | parts, (key, value) :: rest =>
    match record.field? key with
    | none => record.readMembers parts rest
    | some field =>
      if field.isSet parts then .error (.duplicateField key)
      else do record.readMembers (← field.store parts value) rest

/-- The parts filled from the items of a list. -/
def readItems : List (Field σ Json ShapeError) → σ → List Json → Except ShapeError σ
  | _, parts, [] => .ok parts
  | [], _, _ :: _ => .error .invalidLength
  | field :: fields, parts, item :: rest => do
    readItems fields (← field.store parts item) rest

/-- The record that a finished tree stands for. -/
def ofJson (record : Record σ Json ShapeError α) : Json → Except ShapeError α
  | .object members => do
    record.complete .missingField (← record.readMembers record.start members)
  | .list items => do
    record.complete (fun _ => .invalidLength) (← readItems record.fields record.start items)
  | _ => .error .invalidType

/-- The parts filled from the members of an object that is being read. -/
def scanMembers (record : Record σ Draft DocumentError α) (ending : Ending) :
    σ → List (Key × Draft) → Read σ
  | parts, [] => do
    Read.ofText ending.read
    return parts
  | parts, (key, value) :: rest => do
    let key ← Read.ofText key
    match record.field? key with
    | none =>
      Read.ofText value.skip
      record.scanMembers ending parts rest
    | some field =>
      if field.isSet parts then throw (.shape (.duplicateField key))
      else record.scanMembers ending (← field.store parts value) rest

/-- The parts filled from the items of a list that is being read. What follows the last field is
not looked into: it is malformed that anything follows. -/
def scanItems (ending : Ending) : List (Field σ Draft DocumentError) → σ → List Draft → Read σ
  -- All fields are there, so the list has to end.
  | [], parts, [] => do
    Read.ofText ending.last
    return parts
  | [], _, _ :: _ => .error (.text .malformed)
  -- Fields are left out at the end.
  | _ :: _, parts, [] => do
    Read.ofText ending.read
    return parts
  | field :: fields, parts, item :: rest => do
    scanItems ending fields (← field.store parts item) rest

/-- The record that a draft stands for. The record is given the room inside. -/
def ofDraft (record : Nat → Record σ Draft DocumentError α) (room : Nat) : Draft → Read α
  | .object members ending => do
    let record := record (← Draft.roomInside room)
    let parts ← record.scanMembers ending record.start members
    Read.ofShape (record.complete .missingField parts)
  | .list items ending => do
    let record := record (← Draft.roomInside room)
    let parts ← scanItems ending record.fields record.start items
    Read.ofShape (record.complete (fun _ => .invalidLength) parts)
  | draft => .error draft.mismatch

end Record

end ElementCatalog
