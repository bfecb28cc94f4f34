import ElementCatalog.Number.Basic

/-!
# Document trees

A `Json` is a document that has been read to its end. Members of an object stand in the order of
the text, and a key can occur more than once: what a repeated key means is decided by whoever
reads the members.
-/

namespace ElementCatalog

/-- A document tree. -/
inductive Json where
  /-- The word for nothing. -/
  | null
  /-- A truth value. -/
  | bool (value : Bool)
  /-- A number. -/
  | number (value : Number)
  /-- A text. -/
  | string (value : String)
  /-- Items in order. -/
  | list (items : List Json)
  /-- Members in the order of the text. -/
  | object (members : List (String × Json))

namespace Json

/-- The tree of an optional part: `null` where there is none. -/
def ofOption {α : Type} (write : α → Json) : Option α → Json
  | none => null
  | some value => write value

/-- An integer that fits a number, and `null` for others. -/
def ofNat (n : Nat) : Json :=
  ofOption number (Number.ofInt? n)

end Json

end ElementCatalog
