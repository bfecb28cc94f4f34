import ElementCatalog.Files.Disk
import ElementCatalog.Proofs.Reading.Record

/-!
# What file operations do to a disk

A path leads to a location by steps through directories, so it leads there on every disk that has
these directories (`Disk.locate_of_grows`). Operations on a disk keep its directories. Making
directories changes nothing that lies somewhere, and writing or renaming a file changes what lies at
its own locations only.

## Main definitions

* `Disk.Grows`: a disk has all directories of another one;
* `Disk.CanHold`: a path leads to a place where a file is or can be made.

## Main results

* `Disk.readText_writeText`: a file that was written holds the text;
* `Disk.createDirectories_again`: directories that were made need not be made again.
-/

namespace ElementCatalog.Disk

variable {disk middle after : Disk} {path source target text : String}
  {location other start : Location} {steps : List String}

/-! ## Directories -/

/-- A disk has all directories of another one, and the same working directory. -/
structure Grows (disk after : Disk) : Prop where
  /-- The working directory is the same. -/
  workingDirectory_eq : after.workingDirectory = disk.workingDirectory
  /-- A directory is one still. -/
  directory : ∀ location, disk.node? location = some .directory →
    after.node? location = some .directory

theorem Grows.refl (disk : Disk) : disk.Grows disk :=
  ⟨rfl, fun _ h => h⟩

theorem Grows.trans (first : disk.Grows middle) (second : middle.Grows after) : disk.Grows after :=
  ⟨second.workingDirectory_eq.trans first.workingDirectory_eq,
    fun location h => second.directory location (first.directory location h)⟩

/-- Exactly a directory can be required to be one. -/
theorem requireDirectory_eq_ok_iff :
    disk.requireDirectory location = .ok () ↔ disk.node? location = some .directory := by
  rw [requireDirectory]
  split <;> simp_all

/-- Steps that lead somewhere lead there on a disk that has the directories on the way. -/
theorem follow_of_grows (grows : disk.Grows after) (h : disk.follow start steps = .ok location) :
    after.follow start steps = .ok location := by
  induction steps generalizing start with
  | nil => exact h
  | cons step rest ih =>
    obtain ⟨⟨⟩, hdirectory, h⟩ := exists_of_bind_eq_ok h
    obtain ⟨⟨⟩, hname, h⟩ := exists_of_bind_eq_ok h
    have hafter := grows.directory start (requireDirectory_eq_ok_iff.1 hdirectory)
    rw [follow, requireDirectory_eq_ok_iff.2 hafter, hname]
    exact ih h

/-- The steps of a path depend on the working directory alone. -/
theorem stepsOf_eq (h : after.workingDirectory = disk.workingDirectory) (path : String) :
    after.stepsOf path = disk.stepsOf path := by
  rw [stepsOf, stepsOf, h]

/-- A path leads somewhere if it can be written, is not empty, and its steps lead there. -/
theorem locate_eq_ok_iff : disk.locate path = .ok location ↔
    requirePath path = .ok () ∧ path ≠ "" ∧
      disk.follow (disk.stepsOf path).1 (disk.stepsOf path).2 = .ok location := by
  rw [locate]
  cases requirePath path with
  | error error => simp [bind, Except.bind]
  | ok _ => by_cases hempty : path = "" <;> simp [bind, Except.bind, hempty]

/-- A path that leads somewhere leads there on a disk that has the directories on the way. -/
theorem locate_of_grows (grows : disk.Grows after) (h : disk.locate path = .ok location) :
    after.locate path = .ok location := by
  obtain ⟨hpath, hempty, h⟩ := locate_eq_ok_iff.1 h
  refine locate_eq_ok_iff.2 ⟨hpath, hempty, ?_⟩
  rw [stepsOf_eq grows.workingDirectory_eq]
  exact follow_of_grows grows h

/-! ## Files -/

/-- What lies at locations once something is placed at one of them. -/
theorem node?_place (hroot : location ≠ []) (node : FileNode) (disk : Disk) :
    (disk.place location node).node? other =
      if other = location then some node else disk.node? other := by
  rw [node?, node?, place]
  by_cases hother : other = []
  · rw [if_pos hother, if_pos hother, if_neg fun heq => hroot (heq.symm.trans hother)]
  · rw [if_neg hother, if_neg hother, Std.ExtTreeMap.getElem?_insert]
    by_cases heq : other = location
    · simp [heq]
    · have hcompare : ¬ compare location other = .eq := fun h =>
        heq (Std.LawfulEqCmp.eq_of_compare h).symm
      rw [if_neg heq, if_neg hcompare]

/-- A file lies below the root. -/
theorem ne_nil_of_node?_ne (h : disk.node? location ≠ some .directory) : location ≠ [] := by
  rintro rfl
  exact h rfl

/-- A text is read exactly from a path that leads to a file with it. -/
theorem readText_eq_ok_iff : disk.readText path = .ok text ↔
    ∃ location, disk.locate path = .ok location ∧ disk.node? location = some (.file text) := by
  rw [readText, find]
  cases hlocate : disk.locate path with
  | error error => simp [bind, Except.bind]
  | ok location =>
    cases hnode : disk.node? location with
    | none => simp [bind, Except.bind, hnode]
    | some node => cases node <;> simp [bind, Except.bind, hnode, pure, Except.pure]

/-- A path leads to a place where a file is or can be made. -/
def CanHold (disk : Disk) (path : String) : Prop :=
  ∃ location, disk.locate path = .ok location ∧ disk.node? location ≠ some .directory

instance (disk : Disk) (path : String) : Decidable (disk.CanHold path) :=
  match h : disk.locate path with
  | .ok location => decidable_of_iff (disk.node? location ≠ some .directory) (by simp [CanHold, h])
  | .error _ => isFalse (by simp [CanHold, h])

/-- A file is written exactly where it can be held. -/
theorem writeText_eq_ok_iff : disk.writeText path text = .ok after ↔
    ∃ location, disk.locate path = .ok location ∧ disk.node? location ≠ some .directory ∧
      after = disk.place location (.file text) := by
  rw [writeText]
  cases hlocate : disk.locate path with
  | error error => simp [bind, Except.bind]
  | ok location =>
    cases hnode : disk.node? location with
    | none => simp [bind, Except.bind, hnode, pure, Except.pure, eq_comm]
    | some node =>
      cases node <;> simp [bind, Except.bind, hnode, pure, Except.pure, eq_comm]

/-- A place that holds no directory gets a file, and all directories stay. -/
theorem grows_place_file (h : disk.node? location ≠ some .directory) (text : String) :
    disk.Grows (disk.place location (.file text)) ∧ (disk.place location (.file text)).Grows disk := by
  have hnode (other : Location) :
      (disk.place location (.file text)).node? other = some .directory ↔
        disk.node? other = some .directory := by
    rw [node?_place (ne_nil_of_node?_ne h)]
    split
    · next heq => exact iff_of_false (by simp) (heq ▸ h)
    · rfl
  exact ⟨⟨rfl, fun other => (hnode other).2⟩, ⟨rfl, fun other => (hnode other).1⟩⟩

/-- A text that can be read stays, where the directories on the way and the file do. -/
theorem readText_of_grows (grows : disk.Grows after)
    (kept : ∀ location, disk.locate path = .ok location →
      after.node? location = disk.node? location)
    (h : disk.readText path = .ok text) : after.readText path = .ok text := by
  obtain ⟨location, hlocate, hnode⟩ := readText_eq_ok_iff.1 h
  exact readText_eq_ok_iff.2
    ⟨location, locate_of_grows grows hlocate, (kept location hlocate).trans hnode⟩

/-- A file that was written holds the text. -/
theorem readText_writeText (h : disk.writeText path text = .ok after) :
    after.readText path = .ok text := by
  obtain ⟨location, hlocate, hnode, rfl⟩ := writeText_eq_ok_iff.1 h
  refine readText_eq_ok_iff.2
    ⟨location, locate_of_grows (grows_place_file hnode text).1 hlocate, ?_⟩
  rw [node?_place (ne_nil_of_node?_ne hnode), if_pos rfl]

/-- What lies at locations once a file is gone from one of them. -/
theorem node?_erase (hroot : location ≠ []) (disk : Disk) :
    ({ disk with nodes := disk.nodes.erase location } : Disk).node? other =
      if other = location then none else disk.node? other := by
  rw [node?, node?]
  by_cases hother : other = []
  · rw [if_pos hother, if_pos hother, if_neg fun heq => hroot (heq.symm.trans hother)]
  · rw [if_neg hother, if_neg hother, Std.ExtTreeMap.getElem?_erase]
    by_cases heq : other = location
    · simp [heq]
    · have hcompare : ¬ compare location other = .eq := fun h =>
        heq (Std.LawfulEqCmp.eq_of_compare h).symm
      rw [if_neg heq, if_neg hcompare]

/-- A file is renamed exactly to a path that can hold it. It lies there then, and not where it lay,
and all else is as it was. -/
theorem rename_eq_ok_iff (hsource : disk.readText source = .ok text) :
    disk.rename source target = .ok after ↔ ∃ old new, disk.locate source = .ok old ∧
      disk.locate target = .ok new ∧ disk.node? new ≠ some .directory ∧
      after = ({ disk with nodes := disk.nodes.erase old } : Disk).place new (.file text) := by
  obtain ⟨old, hold, hnode⟩ := readText_eq_ok_iff.1 hsource
  have hfind : disk.find source = .ok (.file text) := by
    simp [find, hold, hnode, bind, Except.bind, pure, Except.pure]
  rw [rename, hfind]
  simp only [hold, bind, Except.bind, Except.ok.injEq]
  cases hnew : disk.locate target with
  | error error => simp
  | ok new =>
    cases hfound : disk.node? new with
    | none => simp [hfound, pure, Except.pure, eq_comm]
    | some node => cases node <;> simp [hfound, pure, Except.pure, eq_comm]

/-- What lies at locations once a file is renamed. -/
theorem exists_node?_rename (hsource : disk.readText source = .ok text)
    (h : disk.rename source target = .ok after) :
    ∃ old new, disk.locate source = .ok old ∧ disk.locate target = .ok new ∧
      after.workingDirectory = disk.workingDirectory ∧
      disk.node? old = some (.file text) ∧ disk.node? new ≠ some .directory ∧
      ∀ other, after.node? other = if other = new then some (.file text)
        else if other = old then none else disk.node? other := by
  obtain ⟨old, new, hold, hnew, hnode, rfl⟩ := (rename_eq_ok_iff hsource).1 h
  obtain ⟨found, hfound, hfile⟩ := readText_eq_ok_iff.1 hsource
  obtain rfl : old = found := Except.ok.inj (hold.symm.trans hfound)
  have hold' : disk.node? old ≠ some .directory := by simp [hfile]
  refine ⟨old, new, hold, hnew, rfl, hfile, hnode, fun other => ?_⟩
  rw [node?_place (ne_nil_of_node?_ne hnode), node?_erase (ne_nil_of_node?_ne hold')]

/-- Renaming a file leaves all directories. -/
theorem grows_rename (hsource : disk.readText source = .ok text)
    (h : disk.rename source target = .ok after) : disk.Grows after ∧ after.Grows disk := by
  obtain ⟨old, new, -, -, hworking, hold, hnew, hnode⟩ := exists_node?_rename hsource h
  -- Neither of the two locations has a directory before or after.
  have hdirectory (other : Location) :
      after.node? other = some .directory ↔ disk.node? other = some .directory := by
    rw [hnode]
    split
    · next heq => exact iff_of_false (by simp) (heq ▸ hnew)
    · split
      · next heq => exact iff_of_false (by simp) (by simp [heq, hold])
      · rfl
  exact ⟨⟨hworking, fun other => (hdirectory other).2⟩,
    ⟨hworking.symm, fun other => (hdirectory other).1⟩⟩

/-! ## Making directories -/

/-- All steps lead to directories. -/
def DirectoriesAlong (disk : Disk) : Location → List String → Prop
  | _, [] => True
  | start, step :: rest =>
    disk.node? (move start step) = some .directory ∧ disk.DirectoriesAlong (move start step) rest

theorem DirectoriesAlong.of_grows (grows : disk.Grows after)
    (h : disk.DirectoriesAlong start steps) : after.DirectoriesAlong start steps := by
  induction steps generalizing start with
  | nil => trivial
  | cons step rest ih => exact ⟨grows.directory _ h.1, ih h.2⟩

/-- Where all directories are there, none is made. -/
theorem createAlong_of_directoriesAlong (h : disk.DirectoriesAlong start steps) :
    createAlong start steps disk = (.ok (), disk) := by
  induction steps generalizing start with
  | nil => rfl
  | cons step rest ih =>
    rw [createAlong]
    simp only [h.1]
    exact ih h.2

/-- What lies somewhere still does once directories are made, and on success there are directories
along all steps. -/
theorem createAlong_spec (start : Location) (steps : List String) (disk : Disk) :
    (createAlong start steps disk).2.workingDirectory = disk.workingDirectory ∧
    (∀ other node, disk.node? other = some node →
      (createAlong start steps disk).2.node? other = some node) ∧
    ((createAlong start steps disk).1 = .ok () →
      (createAlong start steps disk).2.DirectoriesAlong start steps) := by
  -- Each step goes on from where it leads, on the disk with its directory.
  induction steps generalizing start disk with
  | nil => exact ⟨rfl, fun _ _ h => h, fun _ => trivial⟩
  | cons step rest ih =>
    rw [createAlong]
    cases hnode : disk.node? (move start step) with
    | some node =>
      cases node with
      | directory =>
        obtain ⟨hworking, hkept, hmade⟩ := ih (move start step) disk
        exact ⟨hworking, hkept, fun h => ⟨hkept _ _ hnode, hmade h⟩⟩
      | file text => exact ⟨rfl, fun _ _ h => h, fun h => by cases h⟩
    | none =>
      cases requireName step with
      | error error => exact ⟨rfl, fun _ _ h => h, fun h => by cases h⟩
      | ok _ =>
        -- The directory is made where nothing lay.
        have hroot : move start step ≠ [] := by
          intro heq
          rw [heq] at hnode
          cases hnode
        obtain ⟨hworking, hkept, hmade⟩ :=
          ih (move start step) (disk.place (move start step) .directory)
        have hplaced : (disk.place (move start step) .directory).node? (move start step) =
            some .directory := by
          rw [node?_place hroot, if_pos rfl]
        refine ⟨hworking, fun other node h => hkept _ _ ?_, fun h => ⟨hkept _ _ hplaced, hmade h⟩⟩
        rw [node?_place hroot, if_neg, h]
        rintro rfl
        rw [hnode] at h
        cases h

/-- The disk with a directory and those on the way to it. -/
def withDirectories (path : String) (disk : Disk) : Except FileError Disk :=
  let (outcome, made) := disk.createDirectories path
  outcome.map fun _ => made

/-- What lies somewhere still does with more directories. -/
theorem node?_withDirectories (h : disk.withDirectories path = .ok after) :
    after.workingDirectory = disk.workingDirectory ∧
      ∀ other node, disk.node? other = some node → after.node? other = some node := by
  rw [withDirectories, createDirectories] at h
  cases hpath : requirePath path with
  | error error =>
    rw [hpath] at h
    cases h
  | ok _ =>
    rw [hpath] at h
    obtain ⟨_, -, rfl⟩ := exists_of_map_eq_ok h
    obtain ⟨hworking, hkept, -⟩ :=
      createAlong_spec (disk.stepsOf path).1 (disk.stepsOf path).2 disk
    exact ⟨hworking, hkept⟩

/-- A disk with more directories has those from before. -/
theorem grows_withDirectories (h : disk.withDirectories path = .ok after) : disk.Grows after :=
  ⟨(node?_withDirectories h).1, fun other => (node?_withDirectories h).2 other .directory⟩

/-- Directories that were made need not be made again, as long as they are there. -/
theorem withDirectories_again (h : disk.withDirectories path = .ok middle)
    (grows : middle.Grows after) : after.withDirectories path = .ok after := by
  rw [withDirectories, createDirectories] at h ⊢
  cases hpath : requirePath path with
  | error error =>
    rw [hpath] at h
    cases h
  | ok _ =>
    rw [hpath] at h
    obtain ⟨_, hmade, rfl⟩ := exists_of_map_eq_ok h
    obtain ⟨hworking, -, halong⟩ :=
      createAlong_spec (disk.stepsOf path).1 (disk.stepsOf path).2 disk
    have hsteps := stepsOf_eq (grows.workingDirectory_eq.trans hworking) path
    simp only [hsteps, createAlong_of_directoriesAlong ((halong hmade).of_grows grows)]
    rfl

/-! ## Paths -/

/-- The location at the end of a path, whatever lies on the way. -/
def destination (disk : Disk) (path : String) : Location :=
  (disk.stepsOf path).2.foldl move (disk.stepsOf path).1

/-- A path leads to its destination if it leads anywhere. -/
theorem eq_destination_of_locate (h : disk.locate path = .ok location) :
    location = disk.destination path := by
  have hfollow {start : Location} {steps : List String}
      (h : disk.follow start steps = .ok location) : location = steps.foldl move start := by
    induction steps generalizing start with
    | nil => exact (Except.ok.inj h).symm
    | cons step rest ih =>
      obtain ⟨⟨⟩, -, h⟩ := exists_of_bind_eq_ok h
      obtain ⟨⟨⟩, -, h⟩ := exists_of_bind_eq_ok h
      exact ih h
  exact hfollow (locate_eq_ok_iff.1 h).2.2

/-- A name that stands for one step down. -/
structure IsName (name : String) : Prop where
  /-- There are no slashes in it. -/
  separator_not_mem : Path.separator ∉ name.toList
  /-- It does not stay in place or lead up. -/
  not_special : name ∉ ["", ".", ".."]

instance (name : String) : Decidable (IsName name) :=
  decidable_of_iff (Path.separator ∉ name.toList ∧ name ∉ ["", ".", ".."])
    ⟨fun h => ⟨h.1, h.2⟩, fun h => ⟨h.separator_not_mem, h.not_special⟩⟩

/-- Characters always have components. -/
theorem components_ne_nil (chars : List Char) : components chars ≠ [] := by
  induction chars with
  | nil => simp [components]
  | cons c rest ih =>
    rw [components]
    split
    · simp
    · cases hrest : components rest with
      | nil => exact absurd hrest ih
      | cons first others => simp

/-- Behind a slash the components go on. -/
theorem components_append (front back : List Char) :
    components (front ++ Path.separator :: back) = components front ++ components back := by
  induction front with
  | nil => simp [components]
  | cons c rest ih =>
    rw [List.cons_append, components, components, ih]
    split
    · rfl
    · cases hrest : components rest with
      | nil => exact absurd hrest (components_ne_nil rest)
      | cons first others => rfl

/-- Characters without a slash are one component. -/
theorem components_of_not_mem {chars : List Char} (h : Path.separator ∉ chars) :
    components chars = [chars] := by
  induction chars with
  | nil => rfl
  | cons c rest ih =>
    obtain ⟨hc, hrest⟩ := not_or.1 (mt List.mem_cons.2 h)
    rw [components, if_neg (Ne.symm hc), ih hrest]
    rfl

/-- A path inside of a directory leads one step down from where the directory lies. -/
theorem destination_join {directory name : String} (hdirectory : directory ≠ "")
    (hlast : directory.toList.getLast? ≠ some Path.separator) (hname : IsName name) :
    disk.destination (Path.join directory name) = disk.destination directory ++ [name] := by
  have habsolute : Path.isAbsolute name = false := by
    rw [Path.isAbsolute, decide_eq_false_iff_not]
    exact fun h => hname.separator_not_mem (List.mem_of_mem_head? h)
  have hjoin : (Path.join directory name).toList =
      directory.toList ++ Path.separator :: name.toList := by
    rw [Path.join, if_neg (by simp [habsolute]), if_neg (not_or.2 ⟨hdirectory, hlast⟩),
      String.toList_append, String.toList_append, List.append_assoc]
    rfl
  -- The name is no step that stays in place or leads up.
  have hmove (location : Location) : move location name = location ++ [name] := by
    have hspecial := hname.not_special
    simp only [List.mem_cons, List.not_mem_nil, or_false, not_or] at hspecial
    rw [move, if_neg (not_or.2 ⟨hspecial.1, hspecial.2.1⟩), if_neg hspecial.2.2]
  -- The name is one more component, whatever the directory starts with.
  have hcomponents (chars : List Char) :
      (components (chars ++ Path.separator :: name.toList)).map String.ofList =
        (components chars).map String.ofList ++ [name] := by
    rw [components_append, components_of_not_mem hname.separator_not_mem, List.map_append,
      List.map_singleton, String.ofList_toList]
  obtain ⟨c, rest, hchars⟩ : ∃ c rest, directory.toList = c :: rest :=
    List.ne_nil_iff_exists_cons.1 fun h => hdirectory (String.toList_eq_nil_iff.1 h)
  rw [destination, destination, stepsOf, stepsOf, hjoin, hchars, List.cons_append]
  by_cases hc : c = Path.separator
  · simp only [if_pos hc, hcomponents, List.foldl_append, List.foldl_cons, List.foldl_nil, hmove]
  · have hall := hcomponents (c :: rest)
    rw [List.cons_append] at hall
    simp only [if_neg hc, hall, List.foldl_append, List.foldl_cons, List.foldl_nil, hmove]

end ElementCatalog.Disk
