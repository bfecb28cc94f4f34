import ElementCatalog.ElementId.Nesting
import ElementCatalog.Keyed
import ElementCatalog.Number.Basic

/-!
# Values

Fields and annotations hold values. A value is a reference to another element, a value without
parts, a list, or a map in order of insertion.

References point by identifier, so elements can refer to one another in cycles. A reference can
carry a snapshot of what it points at; the snapshot is data of its own and never walked as a part
of the element that holds the reference.

`Value.same` is equality of values: the order of keys in a map does not count, and numbers are
compared by `Number.same`.
-/

namespace ElementCatalog

/-- A value held in a field or an annotation. -/
inductive Value where
  /-- A pointer to another element, with an optional snapshot of what it points at. -/
  | reference (target : ElementId) (snapshot : Option Value)
  /-- Nothing. -/
  | null
  /-- A truth value. -/
  | bool (value : Bool)
  /-- A number. -/
  | number (value : Number)
  /-- A text. -/
  | string (value : String)
  /-- Items in order. -/
  | list (items : List Value)
  /-- Values under keys. -/
  | map (members : List (String × Value))

/-- Values under names, in order of insertion. -/
abbrev ValueMap := Keyed Value

/-- A directed pointer to another element. -/
structure Reference where
  /-- Identifier of the target, which can lie below a top-level element. -/
  target : ElementId
  /-- A snapshot of what the reference points at. -/
  snapshot : Option Value

namespace Reference

/-- The top-level element that the reference points into. -/
def topTarget (reference : Reference) : ElementId :=
  reference.target.topLevel.1

end Reference

namespace Value

/-- A reference without a snapshot. -/
def ofTarget (target : ElementId) : Value :=
  reference target none

/-- The text, if the value is one. -/
def asString? : Value → Option String
  | string text => some text
  | _ => none

/-- The reference, if the value is one. -/
def asReference? : Value → Option Reference
  | reference target snapshot => some ⟨target, snapshot⟩
  | _ => none

mutual

/-- Whether two values are equal. -/
def same : Value → Value → Bool
  | reference a none, reference b none => a == b
  | reference a (some s), reference b (some t) => a == b && same s t
  | null, null => true
  | bool a, bool b => a == b
  | number a, number b => a.same b
  | string a, string b => a == b
  | list xs, list ys => sameItems xs ys
  | map xs, map ys => xs.length == ys.length && sameMembers xs ys
  | _, _ => false

/-- Whether two lists have equal items. -/
def sameItems : List Value → List Value → Bool
  | [], [] => true
  | x :: xs, y :: ys => same x y && sameItems xs ys
  | _, _ => false

/-- Whether each of the first members has an equal one under its key among the second. -/
def sameMembers : List (String × Value) → List (String × Value) → Bool
  | [], _ => true
  | (key, value) :: rest, others =>
    (match Keyed.get? others key with
    | some other => same value other
    | none => false) && sameMembers rest others

end

/-- Whether two maps are equal. -/
def sameMap (a b : ValueMap) : Bool :=
  same (map a) (map b)

end Value

end ElementCatalog
