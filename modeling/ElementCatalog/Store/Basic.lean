import ElementCatalog.Reading.Error
import Std.Data.ExtTreeMap

/-!
# Stores

A `Store` keeps values under text keys, in ascending order of keys. Its operations run in a monad,
so that a store can be kept in memory or on files, and each can fail. A call that changes several
keys changes all of them or fails, and a failed call leaves the store as it was.

This module has the interface, the store in memory, and a store that refuses some operations.
-/

namespace ElementCatalog

/-- Why an index cannot be read or updated. -/
inductive IndexError where
  /-- The store rejected an operation. -/
  | store (message : String)
  /-- A file operation failed. -/
  | file
  /-- A stored text cannot be read. -/
  | document (error : DocumentError)
deriving DecidableEq, Repr

namespace IndexError

/-- The message shown for the error. -/
def message : IndexError → String
  | store message => "store error: " ++ message
  | file => "i/o error"
  | document _ => "serialization error"

end IndexError

/-- Values under text keys. -/
structure Store (m : Type → Type) (α : Type) where
  /-- The value under a key. -/
  get : String → m (Option α)
  /-- The values under keys, in the order of the keys. -/
  getMany : List String → m (List (Option α))
  /-- Puts a value under a key. -/
  set : String → α → m Unit
  /-- Puts values under keys. Of a repeated key the last value stays. -/
  setAll : List (String × α) → m Unit
  /-- Removes keys. Keys that are not there count for nothing. -/
  deleteAll : List String → m Unit
  /-- Removes all keys. -/
  clear : m Unit
  /-- All keys in ascending order. -/
  keys : m (List String)
  /-- All keys with their values, in ascending order of keys. -/
  entries : m (List (String × α))

/-- A place that holds a state. -/
structure Cell (m : Type → Type) (σ : Type) where
  /-- The state. -/
  read : m σ
  /-- Replaces the state. -/
  write : σ → m Unit

namespace Cell

/-- A part of the state of a state monad. -/
def ofPart {m : Type → Type} [Monad m] {σ τ : Type} (get : σ → τ) (put : τ → σ → σ) :
    Cell (StateT σ m) τ where
  read := get <$> MonadState.get
  write part := modify (put part)

/-- A cell below errors. -/
def lift {m : Type → Type} [Monad m] {ε σ : Type} (cell : Cell m σ) : Cell (ExceptT ε m) σ where
  read := ExceptT.lift cell.read
  write state := ExceptT.lift (cell.write state)

end Cell

namespace Store

variable {m : Type → Type} [Monad m] {α : Type}

/-- The map with values put under keys, one after another. -/
def insertAll (entries : List (String × α)) (map : Std.ExtTreeMap String α) :
    Std.ExtTreeMap String α :=
  entries.foldl (fun map entry => map.insert entry.1 entry.2) map

/-- The map without some keys. -/
def eraseAll (keys : List String) (map : Std.ExtTreeMap String α) : Std.ExtTreeMap String α :=
  keys.foldl (fun map key => map.erase key) map

/-- The store in memory. -/
def inMemory (cell : Cell m (Std.ExtTreeMap String α)) : Store m α where
  get key := do return (← cell.read)[key]?
  getMany keys := do
    let map ← cell.read
    return keys.map fun key => map[key]?
  set key value := do cell.write ((← cell.read).insert key value)
  setAll entries := do cell.write (insertAll entries (← cell.read))
  deleteAll keys := do cell.write (eraseAll keys (← cell.read))
  clear := cell.write ∅
  keys := do return (← cell.read).keys
  entries := do return (← cell.read).toList

/-- The operations that a store can be made to refuse. -/
inductive Operation where
  /-- Reading one key. -/
  | get
  /-- Reading several keys. -/
  | getMany
  /-- Writing one key. -/
  | set
  /-- Writing several keys. -/
  | setAll
  /-- Removing keys. -/
  | deleteAll
  /-- Removing all keys. -/
  | clear
deriving DecidableEq, Repr

namespace Operation

/-- The name of the operation. -/
def name : Operation → String
  | get => "get"
  | getMany => "get_many"
  | set => "set"
  | setAll => "set_all"
  | deleteAll => "delete_all"
  | clear => "clear"

end Operation

/-- A store that refuses some operations before it touches the given one. -/
def refusing [MonadExceptOf IndexError m] (refused : List Operation) (store : Store m α) :
    Store m α :=
  let guarded {β : Type} (operation : Operation) (action : m β) : m β :=
    if operation ∈ refused then throw (IndexError.store (operation.name ++ " rejected"))
    else action
  { get := fun key => guarded .get (store.get key)
    getMany := fun keys => guarded .getMany (store.getMany keys)
    set := fun key value => guarded .set (store.set key value)
    setAll := fun entries => guarded .setAll (store.setAll entries)
    deleteAll := fun keys => guarded .deleteAll (store.deleteAll keys)
    clear := guarded .clear store.clear
    keys := store.keys
    entries := store.entries }

end Store

end ElementCatalog
