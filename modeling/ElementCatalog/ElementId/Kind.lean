/-!
# Kinds of identifiers

What an element identifier points at, and the keyword that stands for it inside a full name.
Reading a keyword gives back exactly the kind that is written with it (`ofKeyword?_eq_some_iff`).
-/

namespace ElementCatalog

/-- What an element identifier points at. -/
inductive Kind where
  /-- A type definition. -/
  | type
  /-- A field declared on a type definition. -/
  | field
  /-- A concrete instance. -/
  | inst
  /-- An annotation type declared on a type definition. -/
  | annotationType
  /-- An annotation value set on a type definition. -/
  | attr
deriving DecidableEq, Repr

namespace Kind

/-- The word that stands for the kind inside a full name. -/
def keyword : Kind → String
  | type => "type"
  | field => "field"
  | inst => "instance"
  | annotationType => "annotation"
  | attr => "attr"

/-- The kind written with a word, if there is one. -/
def ofKeyword? : String → Option Kind
  | "type" => some type
  | "field" => some field
  | "instance" => some inst
  | "annotation" => some annotationType
  | "attr" => some attr
  | _ => none

/-- Position of the kind in the order of identifiers. -/
def rank : Kind → Nat
  | type => 0
  | field => 1
  | inst => 2
  | annotationType => 3
  | attr => 4

/-- The keyword of a kind reads back. -/
@[simp]
theorem ofKeyword?_keyword (kind : Kind) : ofKeyword? kind.keyword = some kind := by
  cases kind <;> rfl

/-- A word reads as a kind exactly if it is the keyword of that kind. -/
theorem ofKeyword?_eq_some_iff {word : String} {kind : Kind} :
    ofKeyword? word = some kind ↔ word = kind.keyword := by
  constructor
  · intro h
    unfold ofKeyword? at h
    split at h <;> simp_all [keyword] <;> subst h <;> rfl
  · rintro rfl
    exact ofKeyword?_keyword kind

/-- Kinds of equal rank are equal. -/
theorem rank_injective {a b : Kind} (h : a.rank = b.rank) : a = b := by
  cases a <;> cases b <;> first | rfl | cases h

end Kind

end ElementCatalog
