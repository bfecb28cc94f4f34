import ElementCatalog.Proofs.Files.Disk
import ElementCatalog.Proofs.Store.Document
import ElementCatalog.Proofs.Store.Execution

/-!
# Stores on a disk

A store on a file reads the file at most once, and replaces it whenever it changes (`Disk.replace`).
On a disk that accepts the file this succeeds as often as it is done, and the other stores of the
directory do not notice (`Disk.Accepts.replace`, `Disk.readText_replace_of_ne`).

## Main definitions

* `Disk.Stores`: the file of a store stands for a map;
* `Disk.Accepts`: the file of a store can be replaced.
-/

namespace ElementCatalog

namespace StoreFile

variable {file : StoreFile}

/-- The directory of a store is no empty path and does not end with a slash. -/
theorem directory_spec (file : StoreFile) :
    file.directory ≠ "" ∧ file.directory.toList.getLast? ≠ some Path.separator := by
  have hlast : file.directory.toList.getLast? = some 'x' := by
    rw [directory, Path.join, if_neg (by decide)]
    split
    · rw [String.toList_append, List.getLast?_append]
      rfl
    · rw [String.toList_append, List.getLast?_append]
      rfl
  constructor
  · intro h
    rw [h] at hlast
    cases hlast
  · rw [hlast]
    decide

end StoreFile

namespace Disk

variable {α : Type} {codec : Codec α} {file other : StoreFile} {disk made after : Disk}
  {text held : String}

/-- The file of a store stands for a map: there is none and the map is empty, or its text reads as
the map. -/
def Stores (disk : Disk) (codec : Codec α) (file : StoreFile) (map : Std.ExtTreeMap String α) :
    Prop :=
  (disk.readText file.path = .error .notFound ∧ map = ∅) ∨
    ∃ text, disk.readText file.path = .ok text ∧ Store.entriesOfText codec text = .ok map

/-- The disk with the file of a store replaced by one with another text. -/
def replace (file : StoreFile) (text : String) (disk : Disk) : Except FileError Disk := do
  let made ← disk.withDirectories file.directory
  let written ← made.writeText file.temporary text
  written.rename file.temporary file.path

/-- The file of a store can be replaced: its directory is or can be made, and both the file and the
one that is written first can be held there. -/
def Accepts (disk : Disk) (file : StoreFile) : Prop :=
  ∃ made, disk.withDirectories file.directory = .ok made ∧
    made.CanHold file.path ∧ made.CanHold file.temporary

instance (disk : Disk) (file : StoreFile) : Decidable (disk.Accepts file) :=
  match h : disk.withDirectories file.directory with
  | .ok made =>
    decidable_of_iff (made.CanHold file.path ∧ made.CanHold file.temporary) (by simp [Accepts, h])
  | .error _ => isFalse (by simp [Accepts, h])

/-- The file of a store stands for one map at most. -/
theorem Stores.unique {map map' : Std.ExtTreeMap String α} (h : disk.Stores codec file map)
    (h' : disk.Stores codec file map') : map = map' := by
  rcases h with ⟨hnone, rfl⟩ | ⟨text, htext, hmap⟩
  · rcases h' with ⟨-, rfl⟩ | ⟨text', htext', -⟩
    · rfl
    · cases hnone.symm.trans htext'
  · rcases h' with ⟨hnone, -⟩ | ⟨text', htext', hmap'⟩
    · cases hnone.symm.trans htext
    · obtain rfl := Except.ok.inj (htext.symm.trans htext')
      exact Except.ok.inj (hmap.symm.trans hmap')

/-- A path can hold a file still where the directories are the same. -/
theorem CanHold.of_grows {path : String} (h : disk.CanHold path) (grows : disk.Grows after)
    (back : after.Grows disk) : after.CanHold path := by
  obtain ⟨location, hlocate, hnode⟩ := h
  exact ⟨location, locate_of_grows grows hlocate, mt (back.directory location) hnode⟩

/-- What replacing a file does: the directory is made first, and no directory changes then. The file
has the text, the one that was written first is gone, and all else lies where it lay. -/
theorem replace_spec (h : disk.replace file text = .ok after) :
    ∃ made old new, disk.withDirectories file.directory = .ok made ∧
      made.Grows after ∧ after.Grows made ∧
      made.locate file.temporary = .ok old ∧ made.locate file.path = .ok new ∧
      after.node? new = some (.file text) ∧
      ∀ location, location ≠ old → location ≠ new → after.node? location = made.node? location := by
  obtain ⟨made, hmade, h⟩ := exists_of_bind_eq_ok h
  obtain ⟨written, hwritten, h⟩ := exists_of_bind_eq_ok h
  have hsource := readText_writeText hwritten
  obtain ⟨old, hold, hfree, rfl⟩ := writeText_eq_ok_iff.1 hwritten
  obtain ⟨grows, back⟩ := grows_place_file hfree text
  obtain ⟨growsRenamed, backRenamed⟩ := grows_rename hsource h
  obtain ⟨old', new, hold', hnew, -, -, -, hnode⟩ := exists_node?_rename hsource h
  -- Writing the text first has moved no directory, so the rename finds it where it was put.
  obtain rfl : old' = old :=
    Except.ok.inj (hold'.symm.trans (locate_of_grows grows hold))
  refine ⟨made, old', new, hmade, grows.trans growsRenamed, backRenamed.trans back, hold,
    locate_of_grows back hnew, by rw [hnode, if_pos rfl], fun location hneOld hneNew => ?_⟩
  rw [hnode, if_neg hneNew, if_neg hneOld, node?_place (ne_nil_of_node?_ne hfree), if_neg hneOld]

/-- A file that was replaced has the text. -/
theorem readText_replace (h : disk.replace file text = .ok after) :
    after.readText file.path = .ok text := by
  obtain ⟨made, old, new, -, grows, -, -, hnew, hnode, -⟩ := replace_spec h
  exact readText_eq_ok_iff.2 ⟨new, locate_of_grows grows hnew, hnode⟩

/-- Replacing the file of a store leaves the files of other stores in the directory. -/
theorem readText_replace_of_ne (hroot : other.root = file.root)
    (names : ∀ name ∈ [other.name ++ ".json", file.name ++ ".json", file.name ++ ".json.tmp"],
      IsName name)
    (hne : other.name ++ ".json" ∉ [file.name ++ ".json", file.name ++ ".json.tmp"])
    (h : disk.replace file text = .ok after) (hheld : disk.readText other.path = .ok held) :
    after.readText other.path = .ok held := by
  obtain ⟨made, old, new, hmade, grows, -, hold, hnew, -, hnode⟩ := replace_spec h
  simp only [List.mem_cons, List.not_mem_nil, or_false, forall_eq_or_imp, forall_eq] at names
  rw [List.mem_pair, not_or] at hne
  have hdestination {name : String} (hname : IsName name) :
      made.destination (Path.join file.directory name) = made.destination file.directory ++ [name] :=
    destination_join file.directory_spec.1 file.directory_spec.2 hname
  -- The three files lie beside one another, under different names.
  have hother {location : Location} (hlocate : made.locate other.path = .ok location) :
      location = made.destination file.directory ++ [other.name ++ ".json"] := by
    rw [eq_destination_of_locate hlocate, ← hdestination names.1, StoreFile.path,
      StoreFile.directory, hroot, StoreFile.directory]
  have hkept : made.readText other.path = .ok held :=
    readText_of_grows (grows_withDirectories hmade) (fun location hlocate => by
      obtain ⟨found, hfound, hfile⟩ := readText_eq_ok_iff.1 hheld
      obtain rfl : location = found := Except.ok.inj (hlocate.symm.trans hfound)
      rw [hfile, (node?_withDirectories hmade).2 _ _ hfile]) hheld
  refine readText_of_grows grows (fun location hlocate => hnode location ?_ ?_) hkept
  · rw [hother hlocate, eq_destination_of_locate hold, StoreFile.temporary, hdestination names.2.2]
    simpa using hne.2
  · rw [hother hlocate, eq_destination_of_locate hnew, StoreFile.path, hdestination names.2.1]
    simpa using hne.1

/-- A file that can be replaced is. -/
theorem Accepts.exists_replace (h : disk.Accepts file) (text : String) :
    ∃ after, disk.replace file text = .ok after := by
  obtain ⟨made, hmade, hpath, old, hold, hfree⟩ := h
  have hwritten : made.writeText file.temporary text = .ok (made.place old (.file text)) :=
    writeText_eq_ok_iff.2 ⟨old, hold, hfree, rfl⟩
  obtain ⟨grows, back⟩ := grows_place_file hfree text
  obtain ⟨new, hnew, hnode⟩ := hpath.of_grows grows back
  obtain ⟨after, hrenamed⟩ : ∃ after, (made.place old (.file text)).rename file.temporary file.path =
      .ok after :=
    ⟨_, (rename_eq_ok_iff (readText_writeText hwritten)).2
      ⟨old, new, locate_of_grows grows hold, hnew, hnode, rfl⟩⟩
  refine ⟨after, ?_⟩
  rw [replace, hmade]
  show made.writeText file.temporary text >>= _ = _
  rw [hwritten]
  exact hrenamed

/-- Replacing a file leaves the directory as the files of all its stores need it. -/
theorem Accepts.replace (accepts : disk.Accepts other) (hroot : other.root = file.root)
    (h : disk.replace file text = .ok after) : after.Accepts other := by
  obtain ⟨made, old, new, hmade, grows, back, -⟩ := replace_spec h
  obtain ⟨made', hmade', hpath, htemporary⟩ := accepts
  have hdirectory : other.directory = file.directory := by
    rw [StoreFile.directory, StoreFile.directory, hroot]
  rw [hdirectory, hmade] at hmade'
  obtain rfl := Except.ok.inj hmade'
  refine ⟨after, ?_, hpath.of_grows grows back, htemporary.of_grows grows back⟩
  rw [hdirectory]
  exact withDirectories_again hmade grows

end Disk

namespace Store

variable {α κ : Type} {codec : Codec α} {file : StoreFile} {get : κ → Option (Std.ExtTreeMap String α)}
  {put : Option (Std.ExtTreeMap String α) → κ → κ} {caches : κ} {disk : Disk}
  {map : Std.ExtTreeMap String α} {sure : Prop} {β : Type}

/-- Runs actions of stores on a disk. -/
abbrev onDisk (κ : Type) : Execution (ExceptT IndexError (StateT κ (StateM Disk))) (κ × Disk) :=
  .layered κ Disk

/-- Exactly the map that a file stands for is loaded. -/
theorem run_loadFile_eq_ok_iff {s : κ × Disk} :
    (onDisk κ).run (loadFile codec file) (caches, disk) = (.ok map, s) ↔
      disk.Stores codec file map ∧ s = (caches, disk) := by
  have hrun : (onDisk κ).run (FileSystem.readText file.path) (caches, disk) =
      (.ok (disk.readText file.path), caches, disk) := rfl
  rw [loadFile, Execution.run_bind, hrun]
  simp only [Disk.Stores]
  cases hread : disk.readText file.path with
  | ok text =>
    simp only [reduceCtorEq, false_and, Except.ok.injEq, exists_eq_left', false_or]
    cases hentries : entriesOfText codec text with
    | ok found =>
      show (Except.ok found, caches, disk) = _ ↔ _
      simp [eq_comm]
    | error error =>
      show (Except.error (IndexError.document error), caches, disk) = _ ↔ _
      simp
  | error error =>
    cases error with
    | notFound =>
      show (Except.ok ∅, caches, disk) = _ ↔ _
      simp [eq_comm]
    | failed =>
      show (Except.error IndexError.file, caches, disk) = _ ↔ _
      simp

/-- An action makes a change of the disk, or tells that the change cannot be made. -/
def Performs (κ : Type)
    (action : ExceptT IndexError (StateT κ (StateM Disk)) (Except FileError Unit))
    (change : Disk → Except FileError Disk) : Prop :=
  ∀ caches disk, ∃ after,
    (onDisk κ).run action (caches, disk) = (.ok ((change disk).map fun _ => ()), caches, after) ∧
      ∀ made, change disk = .ok made → after = made

theorem performs_createDirectories (path : String) :
    Performs κ (FileSystem.createDirectories path) (Disk.withDirectories path) := by
  intro caches disk
  have hrun : (onDisk κ).run (FileSystem.createDirectories path) (caches, disk) =
      (.ok (disk.createDirectories path).1, caches, (disk.createDirectories path).2) := rfl
  rw [hrun, Disk.withDirectories]
  rcases disk.createDirectories path with ⟨outcome, made⟩
  refine ⟨made, by cases outcome <;> rfl, fun made' hmade => ?_⟩
  obtain ⟨⟨⟩, -, hmade⟩ := exists_of_map_eq_ok hmade
  exact hmade

theorem performs_writeText (path text : String) :
    Performs κ (FileSystem.writeText path text) (Disk.writeText path text) := by
  intro caches disk
  refine ⟨(Disk.attempt (Disk.writeText path text) disk).2, ?_, fun made hmade => ?_⟩
  · show (Except.ok (Disk.attempt (Disk.writeText path text) disk).1, caches, _) = _
    rw [Disk.attempt]
    cases disk.writeText path text <;> rfl
  · rw [Disk.attempt, hmade]

theorem performs_rename (source target : String) :
    Performs κ (FileSystem.rename source target) (Disk.rename source target) := by
  intro caches disk
  refine ⟨(Disk.attempt (Disk.rename source target) disk).2, ?_, fun made hmade => ?_⟩
  · show (Except.ok (Disk.attempt (Disk.rename source target) disk).1, caches, _) = _
    rw [Disk.attempt]
    cases disk.rename source target <;> rfl
  · rw [Disk.attempt, hmade]

/-- An action behind a change that is required to succeed ends where it does after the change. -/
theorem ends_require {action : ExceptT IndexError (StateT κ (StateM Disk)) (Except FileError Unit)}
    {next : Unit → ExceptT IndexError (StateT κ (StateM Disk)) β}
    {change : Disk → Except FileError Disk} {post : β → κ × Disk → Prop}
    (performs : Performs κ action change)
    (can : sure → ∃ made, change disk = .ok made)
    (hnext : ∀ made, change disk = .ok made → (onDisk κ).Ends sure (next ()) (caches, made) post) :
    (onDisk κ).Ends sure (action >>= fun result => requireFile result >>= next) (caches, disk)
      post := by
  obtain ⟨after, hrun, hafter⟩ := performs caches disk
  rw [Execution.Ends, Execution.run_bind, hrun]
  cases hchange : change disk with
  | ok made =>
    obtain rfl := hafter made hchange
    exact hnext after hchange
  | error error =>
    refine .inr ⟨fun h => ?_, IndexError.file, (caches, after), rfl⟩
    obtain ⟨made, hmade⟩ := can h
    cases hchange.symm.trans hmade

/-- Entries are saved by replacing the file. -/
theorem ends_saveFile
    (can : sure → ∃ after, disk.replace file (textOfEntries codec map) = .ok after) :
    (onDisk κ).Ends sure (saveFile codec file map) (caches, disk) fun _ s =>
      ∃ after, disk.replace file (textOfEntries codec map) = .ok after ∧ s = (caches, after) := by
  have heq : saveFile (m := ExceptT IndexError (StateT κ (StateM Disk))) codec file map = (do
      requireFile (← FileSystem.createDirectories file.directory)
      requireFile (← FileSystem.writeText file.temporary (textOfEntries codec map))
      requireFile (← FileSystem.rename file.temporary file.path)
      pure ()) := by
    simp [saveFile]
  rw [heq]
  -- The three changes of the disk are peeled off one by one; replacing the file is what they make
  -- together.
  refine ends_require (performs_createDirectories _) (fun h => ?_) fun made hmade => ?_
  · obtain ⟨after, hafter⟩ := can h
    exact (exists_of_bind_eq_ok hafter).imp fun _ h => h.1
  have hreplace : disk.replace file (textOfEntries codec map) =
      made.writeText file.temporary (textOfEntries codec map) >>= fun written =>
        written.rename file.temporary file.path := by
    rw [Disk.replace, hmade]
    rfl
  rw [hreplace] at can ⊢
  refine ends_require (performs_writeText _ _) (fun h => ?_) fun written hwritten => ?_
  · obtain ⟨after, hafter⟩ := can h
    exact (exists_of_bind_eq_ok hafter).imp fun _ h => h.1
  refine ends_require (performs_rename _ _) (fun h => ?_) fun after hafter => ?_
  · obtain ⟨after, hafter⟩ := can h
    rw [hwritten] at hafter
    exact ⟨after, hafter⟩
  rw [hwritten]
  exact Execution.ends_pure ⟨after, hafter, rfl⟩

/-- The entries of a store are a map: it is kept in mind, or nothing is and the file stands for
it. -/
def Current (codec : Codec α) (file : StoreFile) (get : κ → Option (Std.ExtTreeMap String α))
    (s : κ × Disk) (map : Std.ExtTreeMap String α) : Prop :=
  get s.1 = some map ∨ get s.1 = none ∧ s.2.Stores codec file map

/-- Whoever asks for the entries gets them, and all stays as it is. -/
theorem ends_currentEntries (can : sure → ∃ map, Current codec file get (caches, disk) map) :
    (onDisk κ).Ends sure (currentEntries codec file (Cell.lift (Cell.ofPart get put)))
      (caches, disk) fun map s => Current codec file get (caches, disk) map ∧ s = (caches, disk) := by
  have hread : (onDisk κ).run (Cell.lift (Cell.ofPart get put)).read (caches, disk) =
      (.ok (get caches), caches, disk) := rfl
  rw [Execution.Ends, currentEntries, Execution.run_bind, hread]
  cases hkept : get caches with
  | some map => exact .inl ⟨map, (caches, disk), rfl, .inl hkept, rfl⟩
  | none =>
    show (onDisk κ).Ends sure (loadFile codec file) (caches, disk) _
    rcases hload : (onDisk κ).run (loadFile codec file) (caches, disk) with ⟨error | map, s⟩
    -- The file is loaded exactly if it stands for a map, so failing shows that it does not.
    · refine .inr ⟨fun h => ?_, error, s, hload⟩
      rcases can h with ⟨map, hmap | ⟨-, hmap⟩⟩
      · cases hkept.symm.trans hmap
      · cases hload.symm.trans (run_loadFile_eq_ok_iff.2 ⟨hmap, rfl⟩)
    · obtain ⟨hmap, rfl⟩ := run_loadFile_eq_ok_iff.1 hload
      exact .inl ⟨map, _, hload, .inr ⟨hkept, hmap⟩, rfl⟩

/-- Whoever looks at the entries sees them, and they are kept in mind. -/
theorem ends_viewFile {view : Std.ExtTreeMap String α → β}
    (can : sure → ∃ map, Current codec file get (caches, disk) map) :
    (onDisk κ).Ends sure (viewFile codec file (Cell.lift (Cell.ofPart get put)) view)
      (caches, disk) fun value s => ∃ map, Current codec file get (caches, disk) map ∧
        value = view map ∧ s = (put (some map) caches, disk) := by
  refine (ends_currentEntries can).bind ?_
  rintro map _ ⟨hmap, rfl⟩
  exact .inl ⟨view map, _, rfl, map, hmap, rfl, rfl⟩

/-- Changed entries are in the file and are kept in mind. -/
theorem ends_changeFile {change : Std.ExtTreeMap String α → Std.ExtTreeMap String α}
    (can : sure → ∃ map, Current codec file get (caches, disk) map)
    (accepts : sure → disk.Accepts file) :
    (onDisk κ).Ends sure (changeFile codec file (Cell.lift (Cell.ofPart get put)) change)
      (caches, disk) fun _ s => ∃ map after, Current codec file get (caches, disk) map ∧
        disk.replace file (textOfEntries codec (change map)) = .ok after ∧
        s = (put (some (change map)) caches, after) := by
  refine (ends_currentEntries can).bind ?_
  rintro map _ ⟨hmap, rfl⟩
  refine (ends_saveFile fun h => (accepts h).exists_replace _).bind ?_
  rintro ⟨⟩ _ ⟨after, hafter, rfl⟩
  exact .inl ⟨(), _, rfl, map, after, hmap, hafter, rfl⟩

end Store

end ElementCatalog
