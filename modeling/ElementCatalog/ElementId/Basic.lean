import ElementCatalog.ElementId.Kind

/-!
# Element identifiers

An element identifier names a type, a field of a type, an instance, or something that hangs off
one of them, by the adapter and the type it belongs to, its kind, and the name parts below.

Identifiers are equal when all four components are, and `compare` orders them component by
component, with kinds in the order of their declaration and texts by code point. The order is
lawful (`Std.TransOrd`, `Std.LawfulEqOrd`), so that sets and maps can be kept in ascending order.
-/

namespace ElementCatalog

/-- Globally unique, hierarchical key of an element. -/
structure ElementId where
  /-- The name space that the element belongs to. -/
  adapter : String
  /-- The name of the type that the identifier lives under. -/
  typeName : String
  /-- What the identifier points at. -/
  kind : Kind
  /-- The name parts below the type. -/
  parts : List String
deriving DecidableEq, Repr

namespace ElementId

/-- Identifier of a type definition. -/
def ofType (adapter typeName : String) : ElementId :=
  ⟨adapter, typeName, .type, []⟩

/-- Identifier of a field declared on a type. -/
def ofField (adapter typeName field : String) : ElementId :=
  ⟨adapter, typeName, .field, [field]⟩

/-- Identifier of a top-level instance. -/
def ofInstance (adapter typeName name : String) : ElementId :=
  ⟨adapter, typeName, .inst, [name]⟩

/-- The last name part, or the type name where there is none. -/
def name (id : ElementId) : String :=
  id.parts.getLast?.getD id.typeName

/-- Identifier of the type that the element belongs to. -/
def owningType (id : ElementId) : ElementId :=
  ofType id.adapter id.typeName

/-- Component-wise comparison. -/
def order : ElementId → ElementId → Ordering :=
  compareLex (compareOn adapter)
    (compareLex (compareOn typeName)
      (compareLex (compareOn fun id => id.kind.rank) (compareOn parts)))

instance : Ord ElementId := ⟨order⟩

instance : Std.TransOrd ElementId :=
  inferInstanceAs (Std.TransCmp (compareLex _ _))

/-- Only equal identifiers compare as equal. -/
theorem order_eq_eq_iff {a b : ElementId} : order a b = .eq ↔ a = b := by
  constructor
  · intro h
    simp only [order, compareLex_eq_eq, compareOn, Std.compare_eq_iff_eq] at h
    obtain ⟨hAdapter, hType, hKind, hParts⟩ := h
    cases a
    cases b
    simp_all only [mk.injEq, true_and, and_true]
    exact Kind.rank_injective hKind
  · rintro rfl
    simp [order, compareLex_eq_eq, compareOn]

instance : Std.LawfulEqOrd ElementId where
  eq_of_compare h := order_eq_eq_iff.1 h

/-- The name of a top-level instance is the one it was made with. -/
@[simp]
theorem name_ofInstance (adapter typeName name : String) :
    (ofInstance adapter typeName name).name = name := rfl

/-- The name of a type definition is that of its type. -/
@[simp]
theorem name_ofType (adapter typeName : String) : (ofType adapter typeName).name = typeName := rfl

end ElementId

end ElementCatalog
