import ElementCatalog.Reading.Draft

/-!
# Reading variants

A value of one of several variants is written with its variant's name inside: as a member of its
own among the members of the variant, or as the first item in front of the variant's items.
Reading takes the two apart. The content is kept as a finished tree without the tag, and what it
must look like is decided by the variant.

Inside a finished tree a variant can also be given by its position among the variants.
-/

namespace ElementCatalog

open Json (Fault Key Ending Draft)

/-- The variants of a type: the name of the tag, and the names that it can have. -/
structure Variants (τ : Type) where
  /-- The name of the member that holds the tag. -/
  tag : String
  /-- The variants with their names, in the order of their declaration. -/
  named : List (String × τ)

namespace Variants

variable {τ : Type}

/-- The variant with a name. -/
def ofName (variants : Variants τ) (name : String) : Except ShapeError τ :=
  match variants.named.lookup name with
  | some variant => .ok variant
  | none => .error (.unknownVariant name (variants.named.map Prod.fst))

/-- The variant that a tag in a finished tree stands for. -/
def ofTag (variants : Variants τ) : Json → Except ShapeError τ
  | .string name => variants.ofName name
  | .number (.int position _) =>
    if position < 0 then .error .invalidType
    else
      match variants.named[position.toNat]? with
      | some (_, variant) => .ok variant
      | none => .error .invalidValue
  | _ => .error .invalidType

/-- The variant and the other members of a finished object. -/
def splitMembers (variants : Variants τ) :
    Option τ → List (String × Json) → Except ShapeError (Option τ × List (String × Json))
  | variant, [] => .ok (variant, [])
  | variant, (key, value) :: rest =>
    if key = variants.tag then
      if variant.isSome then .error (.duplicateField key)
      else do variants.splitMembers (some (← variants.ofTag value)) rest
    else do
      let (variant, rest) ← variants.splitMembers variant rest
      return (variant, (key, value) :: rest)

/-- The variant and the content of a finished tree. -/
def ofJson (variants : Variants τ) : Json → Except ShapeError (τ × Json)
  | .object members => do
    let (variant, members) ← variants.splitMembers none members
    match variant with
    | some variant => return (variant, .object members)
    | none => throw (.missingField variants.tag)
  | .list [] => .error (.missingField variants.tag)
  | .list (tag :: rest) => do return (← variants.ofTag tag, .list rest)
  | _ => .error .invalidType

/-- The variant and the other members of an object that is being read. -/
def scanMembers (variants : Variants τ) (room : Nat) (ending : Ending) :
    Option τ → List (Key × Draft) → Read (Option τ × List (String × Json))
  | variant, [] => do
    Read.ofText ending.read
    return (variant, [])
  | variant, (key, value) :: rest => do
    let key ← Read.ofText key
    if key = variants.tag then
      if variant.isSome then throw (.shape (.duplicateField key))
      -- A tag that names no variant counts before anything that comes after it.
      let found ← Read.ofShape (variants.ofName (← value.string))
      variants.scanMembers room ending (some found) rest
    else
      let value ← value.tree room
      let (variant, rest) ← variants.scanMembers room ending variant rest
      return (variant, (key, value) :: rest)

/-- The variant and the content of a draft. -/
def ofDraft (variants : Variants τ) (room : Nat) : Draft → Read (τ × Json)
  | .object members ending => do
    let room ← Draft.roomInside room
    let (variant, members) ← variants.scanMembers room ending none members
    match variant with
    | some variant => return (variant, .object members)
    | none => throw (.shape (.missingField variants.tag))
  | .list items ending => do
    -- The tag is the first item, and the variant's fields follow.
    let room ← Draft.roomInside room
    match items with
    | [] =>
      Read.ofText ending.read
      throw (.shape (.missingField variants.tag))
    | tag :: rest =>
      let variant ← Read.ofShape (variants.ofName (← tag.string))
      let rest ← rest.mapM (Draft.tree room)
      Read.ofText ending.read
      return (variant, .list rest)
  | draft => .error draft.mismatch

end Variants

end ElementCatalog
