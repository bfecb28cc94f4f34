import ElementCatalog.Proofs.ChangedAt.OnDisk
import ElementCatalog.Proofs.Element.Change

/-!
# Rebuilding an index on a disk

An update that reports a rebuild gives up the old index and stores what the relevant changes make of
an empty one. These are additions of all elements if the stored version is not the current one, and
the given changes otherwise. Only in the first case the file has the index of the elements whatever
the given changes are (`IndexStores.hasIndexOf_iff_of_run_update`).

The old index is read before it is given up. So an index with an outdated version is healed exactly
if there is none or if it can be read (`IndexStores.heals_iff_exists_stores`): one that was written
in another layout stays as it is.

## Main definitions

* `Disk.HasIndexOf`: the file of the index has exactly what elements contribute;
* `IndexStores.Heals`: an update leaves the index of the elements and the current version.
-/

namespace ElementCatalog

variable {room : Nat}

/-- The identifiers that a loaded element contributes have written forms. -/
theorem Element.Loaded.isWritable_of_mem_contributedIds {element : Element}
    (loaded : element.Loaded room) {id : ElementId} (h : id ∈ element.contributedIds) :
    id.IsWritable := by
  cases element with
  | ofType definition =>
    rcases List.mem_cons.1 h with rfl | h
    · exact loaded.isWritable
    · obtain ⟨field, hfield, rfl⟩ := List.mem_map.1 h
      exact (loaded.fields field hfield).isWritable
  | ofInstance contents =>
    obtain rfl := List.mem_singleton.1 h
    exact loaded.isWritable

namespace StoredIndex

variable {stored : StoredIndex} {changes : List Change} {elements : Set Element}

/-- An index reads back from its document if all identifiers in it have written forms. -/
theorem readsBackAll_of_lists (h : ∀ entry, stored.Lists entry → entry.2.IsWritable) :
    Codec.ids.ReadsBackAll stored := by
  intro key ids hids
  refine Codec.readsBack_ids fun id hid => ElementId.parse_fullName (h (key, id) ?_)
  rw [Lists, hids]
  exact hid

/-- An index of loaded elements reads back. -/
theorem Describes.readsBackAll (describes : stored.Describes elements)
    (loaded : ∀ element ∈ elements, element.Loaded room) : Codec.ids.ReadsBackAll stored := by
  refine readsBackAll_of_lists fun entry hlists => ?_
  obtain ⟨element, helement, hentry⟩ := describes.lists_iff.1 hlists
  exact (loaded element helement).isWritable_of_mem_contributedIds
    (Element.mem_contributedIds hentry)

/-- What loaded changes make of an empty index reads back. -/
theorem readsBackAll_afterChanges_empty (loaded : ∀ change ∈ changes, change.Loaded room) :
    Codec.ids.ReadsBackAll (StoredIndex.afterChanges changes ∅) := by
  refine readsBackAll_of_lists fun entry hlists => ?_
  rw [lists_afterChanges] at hlists
  rcases Change.exists_added_or_of_leaveAll hlists with ⟨change, hchange, hadded⟩ | hheld
  · have hentry := Change.mem_indexEntries_of_mem_added_or_removed (.inl hadded)
    obtain ⟨element, helement, hentry⟩ := List.mem_flatMap.1 hentry
    exact (loaded change hchange element helement).isWritable_of_mem_contributedIds
      (Element.mem_contributedIds hentry)
  · simp [Lists] at hheld

end StoredIndex

namespace Disk

/-- The file of the index has exactly what elements contribute. -/
def HasIndexOf (disk : Disk) (root : String) (elements : List Element) : Prop :=
  ∃ stored : StoredIndex, stored.Describes {element | element ∈ elements} ∧
    disk.readText (IndexStores.indexFile root).path = .ok (Store.textOfEntries .ids stored)

variable {disk : Disk} {root : String} {changes : List Change} {elements : List Element}

/-- A file with what additions of all elements make of an empty index has their index. -/
theorem hasIndexOf_of_additions
    (h : disk.readText (IndexStores.indexFile root).path =
      .ok (Store.textOfEntries .ids (StoredIndex.afterChanges (Change.additions elements) ∅))) :
    disk.HasIndexOf root elements :=
  ⟨_, StoredIndex.describes_additions fun _ => Iff.rfl, h⟩

/-- A file with what loaded changes make of an empty index has the index of loaded elements exactly if
the changes leave the entries that the elements contribute. -/
theorem hasIndexOf_iff (loadedChanges : ∀ change ∈ changes, change.Loaded room)
    (loadedElements : ∀ element ∈ elements, element.Loaded room)
    (h : disk.readText (IndexStores.indexFile root).path =
      .ok (Store.textOfEntries .ids (StoredIndex.afterChanges changes ∅))) :
    disk.HasIndexOf root elements ↔
      ∀ entry, Change.LeaveAll entry changes False ↔
        Contributes {element | element ∈ elements} entry := by
  rw [← StoredIndex.describes_afterChanges_empty_iff]
  constructor
  · rintro ⟨stored, describes, htext⟩
    -- Both maps have the text of the file, and both read back from it.
    have heq : stored = StoredIndex.afterChanges changes ∅ :=
      Store.eq_of_textOfEntries_eq (describes.readsBackAll loadedElements)
        (StoredIndex.readsBackAll_afterChanges_empty loadedChanges)
        (Except.ok.inj (htext.symm.trans h))
    rwa [← heq]
  · exact fun describes => ⟨_, describes, h⟩

end Disk

namespace IndexStores

open Store (onDisk)

variable {root : String} {disk after : Disk} {versions : Std.ExtTreeMap String Nat}
  {source : IndexAction (StateM Disk) (List Element)} {elements : List Element}
  {changes : List Change} {cacheIsValid : Bool} {report : IndexUpdate} {caches : IndexCaches}

/-- The part of an update that makes the relevant changes reports a rebuild exactly if it gave up the
old index. -/
theorem rebuilt_of_run_finish {m : Type → Type} [Monad m] {σ : Type} {execution : Execution m σ}
    {stores : IndexStores m} {rebuilt : Bool} {s after : σ}
    (h : execution.run (stores.finish rebuilt changes) s = (.ok report, after)) :
    report.rebuilt = rebuilt := by
  rw [finish] at h
  cases rebuilt with
  | true =>
    obtain ⟨_, _, -, h⟩ := Execution.run_bind_eq_ok_iff.1 h
    obtain ⟨_, _, -, h⟩ := Execution.run_bind_eq_ok_iff.1 h
    obtain ⟨_, _, -, h⟩ := Execution.run_bind_eq_ok_iff.1 h
    have h := (execution.run_pure _ _).symm.trans h
    exact congrArg IndexUpdate.rebuilt (Except.ok.inj (Prod.mk.inj h).1).symm
  | false =>
    obtain ⟨⟨_, _⟩, _, -, h⟩ := Execution.run_bind_eq_ok_iff.1 h
    have h := (execution.run_pure _ _).symm.trans h
    exact congrArg IndexUpdate.rebuilt (Except.ok.inj (Prod.mk.inj h).1).symm

/-- After an update with nothing kept in mind that reports a rebuild, the file has the index of the
elements exactly if the stored version was not the current one, or if the given changes leave exactly
the entries that the elements contribute. -/
theorem hasIndexOf_iff_of_run_update (loadedChanges : ∀ change ∈ changes, change.Loaded room)
    (loadedElements : ∀ element ∈ elements, element.Loaded room)
    (supplies : ∀ s, (onDisk IndexCaches).run source s = (.ok elements, s))
    (h : (onDisk IndexCaches).run ((onFiles root).update source changes cacheIsValid)
      (.empty, disk) = (.ok report, caches, after)) (rebuilt : report.rebuilt = true) :
    ∃ versions, disk.Stores .version (versionsFile root) versions ∧
      (after.HasIndexOf root elements ↔
        versions[versionKey]? ≠ some layoutVersion ∨
          ∀ entry, Change.LeaveAll entry changes False ↔
            Contributes {element | element ∈ elements} entry) := by
  obtain ⟨versions, readable⟩ := exists_stores_of_run_update h
  refine ⟨versions, readable, ?_⟩
  rw [run_update readable supplies] at h
  rw [← rebuilt_of_run_finish h, rebuilt] at h
  obtain ⟨-, -, hindex, -⟩ := (ends_finish rfl False.elim False.elim _).of_run h
  -- With the current version stored, the relevant changes are the given ones.
  by_cases hcurrent : versions[versionKey]? = some layoutVersion
  · rw [if_pos hcurrent] at hindex
    rw [Disk.hasIndexOf_iff loadedChanges loadedElements hindex]
    exact (or_iff_right (not_not_intro hcurrent)).symm
  · rw [if_neg hcurrent] at hindex
    exact iff_of_true (Disk.hasIndexOf_of_additions hindex) (.inl hcurrent)

/-- An update with nothing kept in mind that has to rebuild succeeds if the old index can be read and
the files can be replaced. It leaves what the relevant changes make of an empty index. -/
theorem exists_run_update (readable : disk.Stores .version (versionsFile root) versions)
    (supplies : ∀ s, (onDisk IndexCaches).run source s = (.ok elements, s))
    (accepts : disk.AcceptsIndex root) (stored : ∃ stored, disk.Stores .ids (indexFile root) stored)
    (needed : (!cacheIsValid || versions[versionKey]? != some layoutVersion) = true)
    (changes : List Change) :
    ∃ report caches after,
      (onDisk IndexCaches).run ((onFiles root).update source changes cacheIsValid) (.empty, disk) =
          (.ok report, caches, after) ∧
        report.rebuilt = true ∧
        after.readText (indexFile root).path =
          .ok (Store.textOfEntries .ids (StoredIndex.afterChanges
            (if versions[versionKey]? = some layoutVersion then changes
              else Change.additions elements) ∅)) ∧
        after.readText (versionsFile root).path =
          .ok (Store.textOfEntries .version (versions.insert versionKey layoutVersion)) := by
  have can (_ : True) : ∃ stored, Store.Current .ids (indexFile root) IndexCaches.index
      (⟨none, some versions⟩, disk) stored :=
    stored.imp fun _ h => .inr ⟨rfl, h⟩
  obtain ⟨report, ⟨caches, after⟩, hrun, -, hfinish⟩ :=
    (ends_finish rfl can (fun _ => accepts) _).exists_run
  refine ⟨report, caches, after, ?_, hfinish⟩
  rwa [run_update readable supplies, needed]

/-! ## Outdated versions -/

/-- An update with nothing kept in mind succeeds. It reports a rebuild, the file of the index has
exactly what the elements contribute, and the current version is stored beside the others. -/
def Heals (root : String) (disk : Disk) (versions : Std.ExtTreeMap String Nat)
    (elements : List Element) (update : IndexAction (StateM Disk) IndexUpdate) : Prop :=
  ∃ report caches after,
    (onDisk IndexCaches).run update (.empty, disk) = (.ok report, caches, after) ∧
      report.rebuilt = true ∧ after.HasIndexOf root elements ∧
      after.Stores .version (versionsFile root) (versions.insert versionKey layoutVersion)

/-- Versions that were read can be read again once the current one is stored beside them. -/
theorem stores_insert_layoutVersion (readable : disk.Stores .version (versionsFile root) versions)
    (h : after.readText (versionsFile root).path =
      .ok (Store.textOfEntries .version (versions.insert versionKey layoutVersion))) :
    after.Stores .version (versionsFile root) (versions.insert versionKey layoutVersion) := by
  have hversions : Codec.version.ReadsBackAll versions := by
    rcases readable with ⟨-, rfl⟩ | ⟨text, -, htext⟩
    · exact Codec.readsBackAll_empty
    · exact Store.readsBackAll_of_entriesOfText htext
  have hcurrent : Codec.version.ReadsBack layoutVersion := Codec.readsBack_version (by decide)
  exact .inr ⟨_, h, Store.entriesOfText_textOfEntries (hversions.insert versionKey hcurrent)⟩

/-- On files that can be replaced, an update with an outdated version heals the index exactly if the
file of the index stands for one. Neither the changes nor the trust in the index matter. -/
theorem heals_iff_exists_stores (readable : disk.Stores .version (versionsFile root) versions)
    (outdated : versions[versionKey]? ≠ some layoutVersion)
    (supplies : ∀ s, (onDisk IndexCaches).run source s = (.ok elements, s))
    (accepts : disk.AcceptsIndex root) (changes : List Change) (cacheIsValid : Bool) :
    Heals root disk versions elements ((onFiles root).update source changes cacheIsValid) ↔
      ∃ stored, disk.Stores .ids (indexFile root) stored := by
  have needed : (!cacheIsValid || versions[versionKey]? != some layoutVersion) = true := by
    rw [bne_iff_ne.2 outdated, Bool.or_true]
  constructor
  · rintro ⟨report, caches, after, hupdate, -⟩
    rw [run_update readable supplies, needed] at hupdate
    -- Whatever the update makes of the index, it has read the old one.
    obtain ⟨⟨stored, hnone | ⟨-, hstored⟩⟩, -⟩ :=
      (ends_finish rfl False.elim False.elim _).of_run hupdate
    · cases hnone
    · exact ⟨stored, hstored⟩
  · intro hstored
    obtain ⟨report, caches, after, hupdate, hrebuilt, hindex, hversions⟩ :=
      exists_run_update readable supplies accepts hstored needed changes
    rw [if_neg outdated] at hindex
    exact ⟨report, caches, after, hupdate, hrebuilt, Disk.hasIndexOf_of_additions hindex,
      stores_insert_layoutVersion readable hversions⟩

/-- A disk with texts in the files of an index, and nothing else. -/
def diskWith (index versions : String) : Disk :=
  ((⟨∅, []⟩ : Disk).withFile [".self", "index", "changed_at_index.json"] index).withFile
    [".self", "index", "index_versions.json"] versions

/-- An index of another version that lists an instance which is gone is healed. -/
theorem heals_version_two :
    let stored : StoredIndex := (∅ : StoredIndex).insert "first" [(stamped "gone" "first").id]
    let versions : Std.ExtTreeMap String Nat := (∅ : Std.ExtTreeMap String Nat).insert versionKey 2
    let disk := diskWith (Store.textOfEntries .ids stored) (Store.textOfEntries .version versions)
    disk.Stores .version (versionsFile "") versions ∧ versions[versionKey]? ≠ some layoutVersion ∧
      disk.AcceptsIndex "" ∧ disk.Stores .ids (indexFile "") stored ∧
      Heals "" disk versions [stamped "x" "later"]
        ((onFiles "").update (pure [stamped "x" "later"]) [] true) := by
  intro stored versions disk
  have hversions : disk.Stores .version (versionsFile "") versions :=
    .inr ⟨_, rfl, Store.entriesOfText_textOfEntries
      (Codec.readsBackAll_empty.insert versionKey (Codec.readsBack_version (by decide)))⟩
  have hids : ∀ id ∈ [(stamped "gone" "first").id], ElementId.parse id.fullName = .ok id := by
    decide +kernel
  have hstored : disk.Stores .ids (indexFile "") stored :=
    .inr ⟨_, rfl, Store.entriesOfText_textOfEntries
      (Codec.readsBackAll_empty.insert "first" (Codec.readsBack_ids hids))⟩
  have houtdated : versions[versionKey]? ≠ some layoutVersion := by decide +kernel
  have haccepts : disk.AcceptsIndex "" := by decide +kernel
  exact ⟨hversions, houtdated, haccepts, hstored,
    (heals_iff_exists_stores hversions houtdated ((onDisk IndexCaches).run_pure _) haccepts []
      true).2 ⟨stored, hstored⟩⟩

/-- An index of another version whose file holds a list, as no index of this layout does, is not
healed: the update fails. -/
theorem not_heals_older_layout :
    let disk := diskWith "[]" (Store.textOfEntries .version ∅)
    disk.Stores .version (versionsFile "") ∅ ∧
      (∅ : Std.ExtTreeMap String Nat)[versionKey]? ≠ some layoutVersion ∧ disk.AcceptsIndex "" ∧
      ¬ Heals "" disk ∅ [stamped "x" "later"]
        ((onFiles "").update (pure [stamped "x" "later"]) [] true) := by
  intro disk
  refine ⟨.inr ⟨_, rfl, Store.entriesOfText_textOfEntries Codec.readsBackAll_empty⟩,
    by decide +kernel, by decide +kernel, ?_⟩
  rintro ⟨report, caches, after, hrun, -⟩
  have hfails : ((onDisk IndexCaches).run ((onFiles "").update (pure [stamped "x" "later"]) [] true)
      (.empty, disk)).1.toOption = none := by
    decide +kernel
  rw [hrun] at hfails
  cases hfails

end IndexStores

end ElementCatalog
