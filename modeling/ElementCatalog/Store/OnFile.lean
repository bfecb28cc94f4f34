import ElementCatalog.Files.Basic
import ElementCatalog.Json.Printer
import ElementCatalog.Reading.Draft
import ElementCatalog.Store.Basic

/-!
# Stores on files

A store on a file keeps its values in one document: an object with the keys in ascending order,
below `.self/index` in the root directory of the store. The file is read at the first call that
needs it and kept in mind from then on. A call that changes the store writes the new document to
a second file first and then renames that, so that the file itself always holds a whole document.

A call fails if a step of it fails. What the store keeps in mind changes only after the last
step, so a failed call leaves it as it was.
-/

namespace ElementCatalog

/-- How values are read from documents and written to them. -/
structure Codec (α : Type) where
  /-- The value that a draft stands for. -/
  read : Nat → Json.Draft → Read α
  /-- The document tree of a value. -/
  write : α → Json

/-- Where a store lies: in the root directory, under a name. -/
structure StoreFile where
  /-- The root directory. -/
  root : String
  /-- The name of the store. -/
  name : String

namespace StoreFile

/-- The directory of the store. -/
def directory (file : StoreFile) : String :=
  Path.join (Path.join file.root ".self") "index"

/-- The file that holds the store. -/
def path (file : StoreFile) : String :=
  Path.join file.directory (file.name ++ ".json")

/-- The file that a new document is written to first. -/
def temporary (file : StoreFile) : String :=
  Path.join file.directory (file.name ++ ".json.tmp")

end StoreFile

namespace Store

variable {m : Type → Type} [Monad m] [MonadExceptOf IndexError m] [FileSystem m] {α : Type}

/-- The entries that a document stands for. -/
def entriesOfText (codec : Codec α) (text : String) : Read (Std.ExtTreeMap String α) := do
  let members ← Json.Document.read (fun room draft => draft.members codec.read room) text
  return .ofList members

/-- The document of entries. -/
def textOfEntries (codec : Codec α) (map : Std.ExtTreeMap String α) : String :=
  (Json.object (map.toList.map fun (key, value) => (key, codec.write value))).pretty

/-- Goes on if a file operation succeeded. -/
def requireFile {β : Type} : Except FileError β → m β
  | .ok result => pure result
  | .error _ => throw IndexError.file

/-- The entries in the file. A file that does not exist holds none. -/
def loadFile (codec : Codec α) (file : StoreFile) : m (Std.ExtTreeMap String α) := do
  match ← FileSystem.readText file.path with
  | .ok text =>
    match entriesOfText codec text with
    | .ok map => return map
    | .error error => throw (IndexError.document error)
  | .error .notFound => return ∅
  | .error .failed => throw IndexError.file

/-- Replaces the file by one with the given entries. -/
def saveFile (codec : Codec α) (file : StoreFile) (map : Std.ExtTreeMap String α) : m Unit := do
  requireFile (← FileSystem.createDirectories file.directory)
  requireFile (← FileSystem.writeText file.temporary (textOfEntries codec map))
  requireFile (← FileSystem.rename file.temporary file.path)

/-- The entries that are kept in mind, or else those in the file. -/
def currentEntries (codec : Codec α) (file : StoreFile)
    (cache : Cell m (Option (Std.ExtTreeMap String α))) : m (Std.ExtTreeMap String α) := do
  match ← cache.read with
  | some map => return map
  | none => loadFile codec file

/-- Looks at the entries and keeps them in mind. -/
def viewFile {β : Type} (codec : Codec α) (file : StoreFile)
    (cache : Cell m (Option (Std.ExtTreeMap String α)))
    (view : Std.ExtTreeMap String α → β) : m β := do
  let map ← currentEntries codec file cache
  cache.write (some map)
  return view map

/-- Changes the entries in the file and then those that are kept in mind. -/
def changeFile (codec : Codec α) (file : StoreFile)
    (cache : Cell m (Option (Std.ExtTreeMap String α)))
    (change : Std.ExtTreeMap String α → Std.ExtTreeMap String α) : m Unit := do
  let map ← currentEntries codec file cache
  -- What is kept in mind changes only if the file does.
  saveFile codec file (change map)
  cache.write (some (change map))

/-- The store on a file. Putting or removing nothing does not touch the file. -/
def onFile (codec : Codec α) (file : StoreFile)
    (cache : Cell m (Option (Std.ExtTreeMap String α))) : Store m α where
  get key := viewFile codec file cache fun map => map[key]?
  getMany keys := viewFile codec file cache fun map => keys.map fun key => map[key]?
  set key value := changeFile codec file cache fun map => map.insert key value
  setAll entries :=
    if entries.isEmpty then pure () else changeFile codec file cache (insertAll entries)
  deleteAll keys :=
    if keys.isEmpty then pure () else changeFile codec file cache (eraseAll keys)
  clear := changeFile codec file cache fun _ => ∅
  keys := viewFile codec file cache fun map => map.keys
  entries := viewFile codec file cache fun map => map.toList

end Store

end ElementCatalog
