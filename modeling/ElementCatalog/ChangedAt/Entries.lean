import ElementCatalog.Element.Change
import ElementCatalog.Value.Document
import Std.Data.ExtTreeMap
import Std.Data.ExtTreeSet

/-!
# What elements contribute to the changed-at index

The changed-at index lists identifiers under the values of the annotation `_changed_at`. An element
contributes its own identifier, and a type definition also those of its fields, each under the
text of its own annotation. An annotation that is missing or `null` contributes nothing.

An index in memory is a map from keys to sets of identifiers, and `ChangeIndex.apply` updates it
with a change.
-/

namespace ElementCatalog

/-- A key of the changed-at index and an identifier listed under it. -/
abbrev IndexEntry := String × ElementId

/-- The key that annotations give, if they give one. -/
def changedAt? (annotations : ValueMap) : Option String :=
  match Keyed.get? annotations changedAtKey with
  | none => none
  | some .null => none
  | some value => some value.nameFragment

namespace FieldDefinition

/-- What a field contributes to the index. -/
def indexEntry? (field : FieldDefinition) : Option IndexEntry :=
  (changedAt? field.annotations).map (·, field.id)

end FieldDefinition

namespace Element

/-- What an element contributes to the index: its fields first, then the element itself. -/
def indexEntries (element : Element) : List IndexEntry :=
  let fields := match element with
    | ofType definition => definition.fields.filterMap fun (_, field) => field.indexEntry?
    | ofInstance _ => []
  fields ++ ((changedAt? element.annotations).map (·, element.id)).toList

end Element

/-- Identifiers under keys. A key can have no identifiers left. -/
abbrev ChangeIndex := Std.ExtTreeMap String (Std.ExtTreeSet ElementId)

namespace ChangeIndex

/-- The index with an entry. -/
def addEntry (index : ChangeIndex) (entry : IndexEntry) : ChangeIndex :=
  index.insert entry.1 ((index[entry.1]?.getD ∅).insert entry.2)

/-- The index without an entry. -/
def removeEntry (index : ChangeIndex) (entry : IndexEntry) : ChangeIndex :=
  match index[entry.1]? with
  | some ids => index.insert entry.1 (ids.erase entry.2)
  | none => index

/-- The index with entries. -/
def add (index : ChangeIndex) (entries : List IndexEntry) : ChangeIndex :=
  entries.foldl addEntry index

/-- The index without entries. -/
def remove (index : ChangeIndex) (entries : List IndexEntry) : ChangeIndex :=
  entries.foldl removeEntry index

/-- The index after a change. A modification concerns only the entries in which the two states
differ. -/
def apply (index : ChangeIndex) : Change → ChangeIndex
  | .addition after => index.add after.indexEntries
  | .removal before => index.remove before.indexEntries
  | .modification before after =>
    let old := before.indexEntries
    let new := after.indexEntries
    (index.remove (old.filter fun entry => !new.contains entry)).add
      (new.filter fun entry => !old.contains entry)

end ChangeIndex

namespace Change

/-- The entries of the states before and after a change. -/
def indexEntries (change : Change) : List IndexEntry :=
  (change.before?.toList ++ change.after?.toList).flatMap Element.indexEntries

/-- The keys that changes can concern, in ascending order. -/
def touchedKeys (changes : List Change) : List String :=
  (Std.ExtTreeSet.ofList ((changes.flatMap indexEntries).map Prod.fst)).toList

/-- One addition for each element. -/
def additions (elements : List Element) : List Change :=
  elements.map addition

end Change

end ElementCatalog
