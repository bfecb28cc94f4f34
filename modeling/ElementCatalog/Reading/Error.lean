import ElementCatalog.ElementId.FullName
import ElementCatalog.Json.Token

/-!
# Why a document cannot be read

A text can fail to be a document at all, or it can be one that has not the shape that is looked
for. `DocumentError` is either of the two, and `ShapeError` says what is wrong with the shape.

A message about a document says nothing of the place in the text. What a text that is quoted in it
says at its end counts as such a place all the same, and is left out (`Placed`).
-/

namespace ElementCatalog

/-- Why a well-formed part of a document does not have the shape that is looked for. -/
inductive ShapeError where
  /-- Another kind of value is expected. -/
  | invalidType
  /-- A list has too few or too many items. -/
  | invalidLength
  /-- A value of the right kind is out of its range. -/
  | invalidValue
  /-- A member is missing. -/
  | missingField (name : String)
  /-- A member occurs twice. -/
  | duplicateField (name : String)
  /-- A word is none of the expected ones. -/
  | unknownVariant (found : String) (expected : List String)
  /-- A value has none of the shapes of the named type. -/
  | noVariant (typeName : String)
  /-- A text is no identifier. -/
  | badId (error : IdError)
deriving DecidableEq, Repr

/-- What a text says, apart from a place in a document that it names at its end. -/
structure Placed where
  /-- The text without the place. -/
  text : String
  /-- The line of the place. It is zero if the text names none. -/
  line : Nat
deriving DecidableEq, Repr

namespace Placed

/-- The number of 64 bits that a text ends with, and what stands before it. Texts are given in
reverse. -/
def number? (reversed : List Char) : Option (Nat × List Char) :=
  let digits := (reversed.takeWhile Json.isDigit).reverse
  if digits ≠ [] ∧ Number.ofDigits digits < Number.intBound then
    some (Number.ofDigits digits, reversed.dropWhile Json.isDigit)
  else none

/-- What stands before the given word that a text ends with. Texts are given in reverse. -/
def beforeWord? (word : String) (reversed : List Char) : Option (List Char) :=
  if word.toList.reverse.isPrefixOf reversed then some (reversed.drop word.length) else none

/-- The line of the place that a text ends with, such as ` at line 3 column 4`, and what stands
before the place. Texts are given in reverse. -/
def line? (reversed : List Char) : Option (Nat × List Char) := do
  let (_, reversed) ← number? reversed
  let (line, reversed) ← number? (← beforeWord? " column " reversed)
  return (line, ← beforeWord? " at line " reversed)

/-- A text split at the place that it ends with, if it does. -/
def ofText (text : String) : Placed :=
  match line? text.toList.reverse with
  | some (line, reversed) => ⟨String.ofList reversed.reverse, line⟩
  | none => ⟨text, 0⟩

end Placed

namespace ShapeError

/-- A name as messages show it. -/
def ticked (name : String) : String :=
  "`" ++ name ++ "`"

/-- The expected words as messages show them. -/
def alternatives : List String → String
  | [only] => ticked only
  | [first, second] => ticked first ++ " or " ++ ticked second
  | words => "one of " ++ ", ".intercalate (words.map ticked)

/-- The message shown for the error. -/
def message : ShapeError → String
  | invalidType => "invalid type"
  | invalidLength => "invalid length"
  | invalidValue => "invalid value"
  | missingField name => "missing field " ++ ticked name
  | duplicateField name => "duplicate field " ++ ticked name
  | unknownVariant found expected =>
    "unknown variant " ++ ticked found ++ ", expected " ++ alternatives expected
  | noVariant typeName => "data did not match any variant of untagged enum " ++ typeName
  | badId error => (Placed.ofText error.message).text

/-- The line that the message names by itself, or zero. -/
def line : ShapeError → Nat
  | badId error => (Placed.ofText error.message).line
  | _ => 0

end ShapeError

/-- Why a text cannot be read. -/
inductive DocumentError where
  /-- The text is no document. -/
  | text (fault : Json.Fault)
  /-- The document has another shape. -/
  | shape (error : ShapeError)
deriving DecidableEq, Repr

/-- An identifier, or why a text is none, as a part of a document. -/
def ElementId.ofText (text : String) : Except ShapeError ElementId :=
  (ElementId.parse text).mapError .badId

end ElementCatalog
