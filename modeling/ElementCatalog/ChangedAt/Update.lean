import ElementCatalog.ChangedAt.Entries
import ElementCatalog.Store.Basic

/-!
# Keeping the changed-at index

The changed-at index is kept in a store and updated with batches of changes. A second store holds
the version of its layout. When the version is not the current one, the index is built anew from
all elements; when the caller no longer trusts the index, it is cleared before the changes are
applied. The version is written last, so a call that failed can be made again.
-/

namespace ElementCatalog

/-- The current version of the layout of the index. -/
def layoutVersion : Nat := 3

/-- The key of the index among the versions. -/
def versionKey : String := "changed_at_index"

/-- What an update did. -/
structure IndexUpdate where
  /-- Whether the index was cleared first. -/
  rebuilt : Bool
  /-- How many keys were written. -/
  keysSet : Nat
  /-- How many keys were deleted, because no identifier is left under them. -/
  keysDeleted : Nat
deriving DecidableEq, Repr

/-- The stores that an index lives in. -/
structure IndexStores (m : Type → Type) where
  /-- Identifiers under keys. -/
  index : Store m (List ElementId)
  /-- Versions under names of indexes. -/
  versions : Store m Nat

namespace IndexStores

variable {m : Type → Type} [Monad m] (stores : IndexStores m)

/-- The entries of keys, as far as the store has them, as an index in memory. -/
def indexOf (keys : List String) (stored : List (Option (List ElementId))) : ChangeIndex :=
  .ofList ((keys.zip stored).filterMap fun (key, ids) =>
    ids.map fun ids => (key, Std.ExtTreeSet.ofList ids))

/-- Applies changes to the stored index, and tells how many keys were written and deleted. Only
the keys that the changes can concern are read and written. -/
def applyChanges (changes : List Change) : m (Nat × Nat) := do
  let keys := Change.touchedKeys changes
  if keys.isEmpty then return (0, 0)
  let stored ← stores.index.getMany keys
  let updated := changes.foldl ChangeIndex.apply (indexOf keys stored)
  -- Keys without identifiers are not stored.
  let filled := updated.toList.filter fun (_, ids) => !ids.isEmpty
  let emptied := updated.toList.filter fun (_, ids) => ids.isEmpty
  stores.index.setAll (filled.map fun (key, ids) => (key, ids.toList))
  stores.index.deleteAll (emptied.map Prod.fst)
  return (filled.length, emptied.length)

/-- Brings the index up to date with changes, given a way to get all current elements. -/
def update (source : m (List Element)) (changes : List Change) (cacheIsValid : Bool) :
    m IndexUpdate := do
  let version ← stores.versions.get versionKey
  let isCurrent := version == some layoutVersion
  let relevant ← if isCurrent then pure changes else Change.additions <$> source
  let rebuilt := !cacheIsValid || !isCurrent
  if rebuilt then stores.index.clear
  -- The version comes last: until then a failed call leaves an index that is built anew.
  let (keysSet, keysDeleted) ← stores.applyChanges relevant
  if rebuilt then stores.versions.set versionKey layoutVersion
  return ⟨rebuilt, keysSet, keysDeleted⟩

/-- The identifiers under exactly the given key. -/
def idsAt (key : String) : m (List ElementId) := do
  return (← stores.index.get key).getD []

/-- The entries with keys between two bounds, which belong to the range. A bound that is not given
does not restrict it. -/
def range (lowest highest : Option String) : m (List (String × List ElementId)) := do
  let entries ← stores.index.entries
  return entries.filter fun (key, _) =>
    lowest.all (fun bound => bound ≤ key) && highest.all (fun bound => key ≤ bound)

end IndexStores

end ElementCatalog
