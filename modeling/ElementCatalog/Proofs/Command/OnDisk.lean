import ElementCatalog.Command.Run
import ElementCatalog.Proofs.Store.OnDisk

/-!
# Requests on a disk

A request asks only for a file system, so it can be run on a disk (`Request.runOn`). It succeeds by
its parts succeeding one after another (`Request.runOn_bind_eq_ok_iff`): documents that it needs have
to be there and have to be readable, and index operations start with nothing kept in mind.
-/

namespace ElementCatalog

/-- The file at a path has a text that a value is read from. -/
def Disk.HasDocument {α : Type} (disk : Disk) (reader : Nat → Json.Draft → Read α) (path : String)
    (value : α) : Prop :=
  ∃ text, disk.readText path = .ok text ∧ Json.Document.read reader text = .ok value

/-- At most one value is read from a file. -/
theorem Disk.HasDocument.unique {α : Type} {disk : Disk} {reader : Nat → Json.Draft → Read α}
    {path : String} {value other : α} (h : disk.HasDocument reader path value)
    (hother : disk.HasDocument reader path other) : value = other := by
  obtain ⟨text, htext, hread⟩ := h
  obtain ⟨text', htext', hread'⟩ := hother
  obtain rfl := Except.ok.inj (htext.symm.trans htext')
  exact Except.ok.inj (hread.symm.trans hread')

namespace Request

variable {α β : Type} {disk after : Disk}

/-- The outcome of a part of a request on a disk, and the disk after it. -/
def runOn (disk : Disk) (action : ExceptT String (StateM Disk) α) : Except String α × Disk :=
  action.run.run disk

/-- A request goes on behind its first part if that succeeds, and else fails with it. -/
theorem runOn_bind (action : ExceptT String (StateM Disk) α)
    (next : α → ExceptT String (StateM Disk) β) :
    runOn disk (action >>= next) =
      match runOn disk action with
      | (.ok value, middle) => runOn middle (next value)
      | (.error message, middle) => (.error message, middle) := by
  simp only [runOn, ExceptT.run_bind, StateT.run_bind]
  rcases action.run.run disk with ⟨outcome, middle⟩
  cases outcome <;> rfl

/-- A request succeeds by its parts succeeding one after another. -/
theorem runOn_bind_eq_ok_iff {action : ExceptT String (StateM Disk) α}
    {next : α → ExceptT String (StateM Disk) β} {result : β} :
    runOn disk (action >>= next) = (.ok result, after) ↔
      ∃ value middle, runOn disk action = (.ok value, middle) ∧
        runOn middle (next value) = (.ok result, after) := by
  rw [runOn_bind]
  rcases runOn disk action with ⟨message | value, middle⟩
  · simp
  · simp

/-- A document is read where it is, and reading leaves the disk. -/
theorem runOn_readDocument_eq_ok_iff {reader : Nat → Json.Draft → Read α} {path : String}
    {value : α} :
    runOn disk (readDocument reader path) = (.ok value, after) ↔
      disk.HasDocument reader path value ∧ after = disk := by
  have hrun : runOn disk (FileSystem.readText path) = (.ok (disk.readText path), disk) := rfl
  rw [readDocument, runOn_bind, hrun]
  simp only [Disk.HasDocument]
  -- It fails where there is no text, and where no value is read from the text.
  cases htext : disk.readText path with
  | error error =>
    show (Except.error _, disk) = _ ↔ _
    simp
  | ok text =>
    simp only [Except.ok.injEq, exists_eq_left']
    cases hread : Json.Document.read reader text with
    | error error =>
      show (Except.error _, disk) = _ ↔ _
      simp
    | ok found =>
      show (Except.ok found, disk) = _ ↔ _
      simp [eq_comm]

/-- An index operation succeeds as it does with nothing kept in mind. -/
theorem runOn_withIndex_eq_ok_iff {failure : String} {action : IndexAction (StateM Disk) α}
    {value : α} :
    runOn disk (withIndex failure action) = (.ok value, after) ↔
      ∃ caches, (Store.onDisk IndexCaches).run action (.empty, disk) = (.ok value, caches, after) := by
  have hrun : runOn disk (ExceptT.lift (action.run.run' .empty)) =
      (.ok ((Store.onDisk IndexCaches).run action (.empty, disk)).1,
        ((Store.onDisk IndexCaches).run action (.empty, disk)).2.2) := rfl
  rw [withIndex, runOn_bind, hrun]
  rcases (Store.onDisk IndexCaches).run action (.empty, disk) with ⟨error | found, caches, middle⟩
  · show (Except.error _, middle) = _ ↔ _
    simp
  · show (Except.ok found, middle) = _ ↔ _
    simp

end Request

end ElementCatalog
