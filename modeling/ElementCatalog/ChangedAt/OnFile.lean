import ElementCatalog.ChangedAt.Update
import ElementCatalog.Store.OnFile

/-!
# The changed-at index on files

An index on files is kept in two stores below one root directory, one for the index and one for
the versions.
-/

namespace ElementCatalog

namespace Codec

/-- Lists of identifiers in documents. -/
def ids : Codec (List ElementId) where
  read := Json.Draft.items fun _ => Json.Draft.elementId
  write ids := .list (ids.map ElementId.toJson)

/-- Versions in documents: numbers below `2 ^ 32`. -/
def version : Codec Nat where
  read _ := Json.Draft.natBelow 0x100000000
  write := Json.ofNat

end Codec

/-- What two stores keep in mind. -/
structure IndexCaches where
  /-- The index, once read. -/
  index : Option (Std.ExtTreeMap String (List ElementId))
  /-- The versions, once read. -/
  versions : Option (Std.ExtTreeMap String Nat)

namespace IndexCaches

/-- Nothing is kept in mind. -/
def empty : IndexCaches := ⟨none, none⟩

end IndexCaches

/-- Index operations, which can fail, on a file system. -/
abbrev IndexAction (m : Type → Type) := ExceptT IndexError (StateT IndexCaches m)

namespace IndexStores

/-- The file of the index. -/
def indexFile (root : String) : StoreFile :=
  ⟨root, "changed_at_index"⟩

/-- The file of the versions. -/
def versionsFile (root : String) : StoreFile :=
  ⟨root, "index_versions"⟩

/-- The stores of an index below a root directory. -/
def onFiles {m : Type → Type} [Monad m] [FileSystem m] (root : String) :
    IndexStores (IndexAction m) where
  index := Store.onFile .ids (indexFile root)
    (Cell.lift (Cell.ofPart IndexCaches.index fun map caches => { caches with index := map }))
  versions := Store.onFile .version (versionsFile root)
    (Cell.lift
      (Cell.ofPart IndexCaches.versions fun map caches => { caches with versions := map }))

end IndexStores

end ElementCatalog
