import ElementCatalog.ChangedAt.Update

/-!
# The changed-at index in memory

An index in memory is kept in two stores that share one state, one for the index and one for the
versions.
-/

namespace ElementCatalog

/-- The state of the two stores of an index in memory. -/
structure IndexMemory where
  /-- The index. -/
  index : Std.ExtTreeMap String (List ElementId)
  /-- The versions. -/
  versions : Std.ExtTreeMap String Nat
deriving DecidableEq

namespace IndexMemory

/-- No entries at all. -/
def empty : IndexMemory := ⟨∅, ∅⟩

/-- The stores of an index in memory. -/
def stores {m : Type → Type} [Monad m] :
    IndexStores (ExceptT IndexError (StateT IndexMemory m)) where
  index := Store.inMemory
    (Cell.lift (Cell.ofPart IndexMemory.index fun map memory => { memory with index := map }))
  versions := Store.inMemory
    (Cell.lift
      (Cell.ofPart IndexMemory.versions fun map memory => { memory with versions := map }))

end IndexMemory

end ElementCatalog
