import ElementCatalog.Text.Dotted
import ElementCatalog.Value.Basic

/-!
# Paths into values

A path leads from a value to one of its parts by keys of maps and positions in lists.

* `Value.at?` looks a place up and takes a key as a list position too, if it reads as one.
* `Value.update?` changes a place. It takes keys for maps and positions for lists only.
* `ValueMap.find?` looks up a dotted path, the way configurations give paths.
-/

namespace ElementCatalog

/-- One step of a path into a value. -/
inductive PathSegment where
  /-- To the item at a position. -/
  | index (position : Nat)
  /-- To the value under a key. -/
  | key (name : String)
deriving DecidableEq, Repr

namespace PathSegment

/-- The segment as text. -/
def text : PathSegment → String
  | index position => String.ofList (Number.digitsOf position)
  | key name => name

end PathSegment

/-- The position that a text stands for: digits with an optional plus sign, below `2 ^ 64`. -/
def listPosition? (text : String) : Option Nat :=
  let digits := match text.toList with
    | '+' :: rest => rest
    | chars => chars
  if digits ≠ [] ∧ digits.all Char.isDigit ∧ Number.ofDigits digits < Number.intBound then
    some (Number.ofDigits digits)
  else none

namespace Value

/-- The part of a value one step away. -/
def child? : Value → PathSegment → Option Value
  | map members, .key name => Keyed.get? members name
  | list items, .index position => items[position]?
  | list items, .key name => do items[← listPosition? name]?
  | _, _ => none

/-- The part of a value at the end of a path. -/
def at? (value : Value) : List PathSegment → Option Value
  | [] => some value
  | segment :: rest => do (← value.child? segment).at? rest

/-- The value with the part at the end of a path changed, and nothing if there is no such place or
the change is declined. -/
def update? (change : Value → Option Value) (value : Value) : List PathSegment → Option Value
  | [] => change value
  | segment :: rest =>
    match value, segment with
    | map members, .key name => do
      let part ← (← Keyed.get? members name).update? change rest
      return map (Keyed.put name part members)
    | list items, .index position => do
      let part ← (← items[position]?).update? change rest
      return list (items.set position part)
    | _, _ => none

end Value

namespace ValueMap

/-- The value at a dotted path: the first segment is a key of the map. -/
def find? (values : ValueMap) (path : String) : Option Value :=
  match Dotted.split path with
  | [] => none
  | first :: rest => do
    (← Keyed.get? values first).at? (rest.map .key)

end ValueMap

/-- Which values of an element a path starts from. -/
inductive Section where
  /-- The field values. -/
  | value
  /-- The values of annotations. -/
  | annotations
deriving DecidableEq, Repr

namespace Section

/-- The word for the section. -/
def keyword : Section → String
  | value => "value"
  | annotations => "annotation"

end Section

/-- A place in an instance. -/
structure ValuePath where
  /-- The values that the path starts from. -/
  start : Section
  /-- The steps from there. -/
  segments : List PathSegment
deriving DecidableEq, Repr

namespace ValuePath

/-- The path as text, with dots between the steps. -/
def text (path : ValuePath) : String :=
  Dotted.join (path.start.keyword :: path.segments.map PathSegment.text)

end ValuePath

end ElementCatalog
