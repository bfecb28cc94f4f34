import ElementCatalog.Proofs.ChangedAt.Evolution
import ElementCatalog.Proofs.Store.OnDisk

/-!
# The changed-at index on a disk

Once the index was cleared, what is kept in mind is what the files hold (`IndexStores.Saved`), and so
it stays with each further step of a rebuild. So the files hold in the end what the changes make of
an empty index, together with the current version (`IndexStores.ends_finish`). On a disk that accepts
the files only one step can fail: the first one, which reads the old index.
-/

namespace ElementCatalog

/-- The files of an index can be replaced. -/
def Disk.AcceptsIndex (disk : Disk) (root : String) : Prop :=
  ∀ file ∈ [IndexStores.indexFile root, IndexStores.versionsFile root], disk.Accepts file

instance (disk : Disk) (root : String) : Decidable (disk.AcceptsIndex root) := by
  unfold Disk.AcceptsIndex
  infer_instance

/-- Replacing a file of an index leaves its files replaceable. -/
theorem Disk.AcceptsIndex.replace {disk after : Disk} {root : String} {file : StoreFile}
    {text : String} (accepts : disk.AcceptsIndex root)
    (hfile : file ∈ [IndexStores.indexFile root, IndexStores.versionsFile root])
    (h : disk.replace file text = .ok after) : after.AcceptsIndex root := by
  have hroot {file : StoreFile}
      (h : file ∈ [IndexStores.indexFile root, IndexStores.versionsFile root]) :
      file.root = root := by
    rcases List.mem_pair.1 h with rfl | rfl <;> rfl
  exact fun other hother =>
    (accepts other hother).replace ((hroot hother).trans (hroot hfile).symm) h

namespace IndexStores

open Store (onDisk)

variable {sure : Prop} {root : String} {memory : IndexMemory} {s : IndexCaches × Disk}

/-- The index is kept in mind and its file was written, and the versions are kept in mind. If an
action is sure to succeed, the files can be replaced. -/
structure Saved (sure : Prop) (root : String) (memory : IndexMemory) (s : IndexCaches × Disk) :
    Prop where
  /-- The index is kept in mind. -/
  index_kept : s.1.index = some memory.index
  /-- The versions are kept in mind. -/
  versions_kept : s.1.versions = some memory.versions
  /-- The file has the index. -/
  readText_index : s.2.readText (indexFile root).path = .ok (Store.textOfEntries .ids memory.index)
  /-- The files can be replaced. -/
  accepts : sure → s.2.AcceptsIndex root

/-- The index is changed in the file and in mind. -/
theorem ends_changeIndex {caches : IndexCaches} {disk : Disk}
    {versions : Std.ExtTreeMap String Nat} {change : StoredIndex → StoredIndex}
    (versions_kept : caches.versions = some versions)
    (can : sure → ∃ stored,
      Store.Current .ids (indexFile root) IndexCaches.index (caches, disk) stored)
    (accepts : sure → disk.AcceptsIndex root) :
    (onDisk IndexCaches).Ends sure
      (Store.changeFile .ids (indexFile root) (Cell.lift
        (Cell.ofPart IndexCaches.index fun map caches => { caches with index := map })) change)
      (caches, disk) fun _ s => ∃ stored,
        Store.Current .ids (indexFile root) IndexCaches.index (caches, disk) stored ∧
          Saved sure root ⟨change stored, versions⟩ s := by
  refine (Store.ends_changeFile can fun h => accepts h _ List.mem_cons_self).mono ?_
  rintro ⟨⟩ _ ⟨stored, after, hcurrent, hreplace, rfl⟩
  exact ⟨stored, hcurrent, rfl, versions_kept, Disk.readText_replace hreplace,
    fun h => (accepts h).replace List.mem_cons_self hreplace⟩

/-- What is kept in mind is changed in the file and in mind. -/
theorem Saved.ends_changeIndex (saved : Saved sure root memory s)
    (change : StoredIndex → StoredIndex) :
    (onDisk IndexCaches).Ends sure
      (Store.changeFile .ids (indexFile root) (Cell.lift
        (Cell.ofPart IndexCaches.index fun map caches => { caches with index := map })) change)
      s fun _ s => Saved sure root { memory with index := change memory.index } s := by
  obtain ⟨caches, disk⟩ := s
  refine (IndexStores.ends_changeIndex saved.versions_kept
    (fun _ => ⟨memory.index, .inl saved.index_kept⟩) saved.accepts).mono ?_
  rintro ⟨⟩ s ⟨stored, hcurrent, hsaved⟩
  rcases hcurrent with hkept | ⟨hnone, -⟩
  · obtain rfl := Option.some.inj (saved.index_kept.symm.trans hkept)
    exact hsaved
  · cases saved.index_kept.symm.trans hnone

/-- Keys of the index are looked up in what is kept in mind. -/
theorem Saved.ends_getMany (saved : Saved sure root memory s) (keys : List String) :
    (onDisk IndexCaches).Ends sure ((onFiles root).index.getMany keys) s fun found s =>
      found = keys.map (fun key => memory.index[key]?) ∧ Saved sure root memory s := by
  obtain ⟨caches, disk⟩ := s
  have hcurrent : Store.Current .ids (indexFile root) IndexCaches.index (caches, disk)
      memory.index := .inl saved.index_kept
  refine (Store.ends_viewFile fun _ => ⟨_, hcurrent⟩).mono ?_
  rintro found _ ⟨stored, hkept | ⟨hnone, -⟩, rfl, rfl⟩
  · obtain rfl := Option.some.inj (saved.index_kept.symm.trans hkept)
    exact ⟨rfl, rfl, saved.versions_kept, saved.readText_index, saved.accepts⟩
  · cases saved.index_kept.symm.trans hnone

/-- Keys are written in the index. -/
theorem Saved.ends_setAll (saved : Saved sure root memory s)
    (entries : List (String × List ElementId)) :
    (onDisk IndexCaches).Ends sure ((onFiles root).index.setAll entries) s fun _ s =>
      Saved sure root { memory with index := Store.insertAll entries memory.index } s := by
  cases entries with
  | nil => exact Execution.ends_pure saved
  | cons entry rest => exact saved.ends_changeIndex (Store.insertAll (entry :: rest))

/-- Keys are removed from the index. -/
theorem Saved.ends_deleteAll (saved : Saved sure root memory s) (keys : List String) :
    (onDisk IndexCaches).Ends sure ((onFiles root).index.deleteAll keys) s fun _ s =>
      Saved sure root { memory with index := Store.eraseAll keys memory.index } s := by
  cases keys with
  | nil => exact Execution.ends_pure saved
  | cons key rest => exact saved.ends_changeIndex (Store.eraseAll (key :: rest))

/-- A version is written, which leaves the index. -/
theorem Saved.ends_setVersion (saved : Saved sure root memory s) (key : String) (version : Nat) :
    (onDisk IndexCaches).Ends sure ((onFiles root).versions.set key version) s fun _ s =>
      Saved sure root { memory with versions := memory.versions.insert key version } s ∧
        s.2.readText (versionsFile root).path =
          .ok (Store.textOfEntries .version (memory.versions.insert key version)) := by
  obtain ⟨caches, disk⟩ := s
  have hcurrent : Store.Current .version (versionsFile root) IndexCaches.versions (caches, disk)
      memory.versions := .inl saved.versions_kept
  have hmem : versionsFile root ∈ [indexFile root, versionsFile root] := by simp
  refine (Store.ends_changeFile (fun _ => ⟨_, hcurrent⟩) fun h => saved.accepts h _ hmem).mono ?_
  rintro ⟨⟩ _ ⟨versions, after, hkept | ⟨hnone, -⟩, hreplace, rfl⟩
  · obtain rfl := Option.some.inj (saved.versions_kept.symm.trans hkept)
    -- The file of the index lies beside those that are replaced and written here.
    have hroot : (indexFile root).root = (versionsFile root).root := rfl
    have names : ∀ name ∈ ["changed_at_index" ++ ".json", "index_versions" ++ ".json",
        "index_versions" ++ ".json.tmp"], Disk.IsName name := by decide
    have hne : "changed_at_index" ++ ".json" ∉ ["index_versions" ++ ".json",
        "index_versions" ++ ".json.tmp"] := by decide
    have hindex := Disk.readText_replace_of_ne hroot names hne hreplace saved.readText_index
    exact ⟨⟨saved.index_kept, rfl, hindex, fun h => (saved.accepts h).replace hmem hreplace⟩,
      Disk.readText_replace hreplace⟩
  · cases saved.versions_kept.symm.trans hnone

/-- Changes that are applied change the index in the file and in mind. -/
theorem Saved.ends_applyChanges (saved : Saved sure root memory s) (changes : List Change) :
    (onDisk IndexCaches).Ends sure ((onFiles root).applyChanges changes) s fun written s =>
      written = StoredIndex.written changes memory.index ∧
        Saved sure root { memory with index := StoredIndex.afterChanges changes memory.index } s := by
  rw [applyChanges]
  by_cases hkeys : Change.touchedKeys changes = []
  -- Without touched keys no store is asked for anything.
  · simp only [hkeys, StoredIndex.written_of_touchedKeys_eq_nil hkeys,
      StoredIndex.afterChanges_of_touchedKeys_eq_nil hkeys]
    exact Execution.ends_pure ⟨rfl, saved⟩
  · simp only [List.isEmpty_eq_false_iff.2 hkeys]
    refine (saved.ends_getMany _).bind ?_
    rintro _ s ⟨rfl, saved⟩
    refine (saved.ends_setAll _).bind fun _ s saved => ?_
    refine (saved.ends_deleteAll _).bind fun _ s saved => ?_
    exact Execution.ends_pure ⟨rfl, saved⟩

/-- A rebuild leaves what the changes make of an empty index, and the current version. It succeeds if
the old index can be read and the files can be replaced. -/
theorem ends_finish {caches : IndexCaches} {disk : Disk} {versions : Std.ExtTreeMap String Nat}
    (versions_kept : caches.versions = some versions)
    (can : sure → ∃ stored,
      Store.Current .ids (indexFile root) IndexCaches.index (caches, disk) stored)
    (accepts : sure → disk.AcceptsIndex root) (relevant : List Change) :
    (onDisk IndexCaches).Ends sure ((onFiles root).finish true relevant) (caches, disk)
      fun report s =>
        (∃ stored, Store.Current .ids (indexFile root) IndexCaches.index (caches, disk) stored) ∧
        report.rebuilt = true ∧
        s.2.readText (indexFile root).path =
          .ok (Store.textOfEntries .ids ((∅ : StoredIndex).afterChanges relevant)) ∧
        s.2.readText (versionsFile root).path =
          .ok (Store.textOfEntries .version (versions.insert versionKey layoutVersion)) := by
  rw [finish]
  -- Only clearing can find an index that is not kept in mind. From there on the state is `Saved`.
  have hclear : (onDisk IndexCaches).Ends sure (onFiles root).index.clear (caches, disk) _ :=
    ends_changeIndex versions_kept can accepts
  refine hclear.bind ?_
  rintro ⟨⟩ s ⟨stored, hcurrent, saved⟩
  refine (saved.ends_applyChanges relevant).bind ?_
  rintro _ s ⟨rfl, saved⟩
  refine (saved.ends_setVersion versionKey layoutVersion).bind ?_
  rintro ⟨⟩ s ⟨saved, hversions⟩
  exact Execution.ends_pure ⟨⟨stored, hcurrent⟩, rfl, saved.readText_index, hversions⟩

/-! ## Updates with nothing kept in mind -/

variable {disk : Disk} {versions : Std.ExtTreeMap String Nat}
  {source : IndexAction (StateM Disk) (List Element)} {elements : List Element}

/-- Whoever asks for a version reads the file, and has the versions in mind then. -/
theorem ends_getVersion
    (can : sure → ∃ versions, disk.Stores .version (versionsFile root) versions) (key : String) :
    (onDisk IndexCaches).Ends sure ((onFiles root).versions.get key) (.empty, disk)
      fun version s => ∃ versions, disk.Stores .version (versionsFile root) versions ∧
        version = versions[key]? ∧ s = (⟨none, some versions⟩, disk) := by
  refine (Store.ends_viewFile fun h => (can h).imp fun _ h => .inr ⟨rfl, h⟩).mono ?_
  rintro version _ ⟨versions, hnone | ⟨-, hstores⟩, rfl, rfl⟩
  · cases hnone
  · exact ⟨versions, hstores, rfl, rfl⟩

/-- An update that succeeds has read the versions. -/
theorem exists_stores_of_run_update {changes : List Change} {cacheIsValid : Bool}
    {report : IndexUpdate}
    (h : (onDisk IndexCaches).run ((onFiles root).update source changes cacheIsValid)
      (.empty, disk) = (.ok report, s)) :
    ∃ versions, disk.Stores .version (versionsFile root) versions := by
  rw [update_eq] at h
  obtain ⟨version, middle, hversion, -⟩ := Execution.run_bind_eq_ok_iff.1 h
  obtain ⟨versions, hstores, -⟩ := (ends_getVersion False.elim versionKey).of_run hversion
  exact ⟨versions, hstores⟩

/-- An update with nothing kept in mind makes the changes that the stored version asks for. -/
theorem run_update (readable : disk.Stores .version (versionsFile root) versions)
    (supplies : ∀ s, (onDisk IndexCaches).run source s = (.ok elements, s)) (changes : List Change)
    (cacheIsValid : Bool) :
    (onDisk IndexCaches).run ((onFiles root).update source changes cacheIsValid) (.empty, disk) =
      (onDisk IndexCaches).run
        ((onFiles root).finish (!cacheIsValid || versions[versionKey]? != some layoutVersion)
          (if versions[versionKey]? = some layoutVersion then changes
            else Change.additions elements)) (⟨none, some versions⟩, disk) := by
  obtain ⟨version, s, hversion, versions', hstores, rfl, rfl⟩ :=
    (ends_getVersion (fun _ => ⟨versions, readable⟩) versionKey).exists_run
  obtain rfl : versions' = versions := hstores.unique readable
  rw [update_eq, Execution.run_bind, hversion]
  by_cases hcurrent : versions'[versionKey]? = some layoutVersion
  · simp only [relevantChanges, if_pos hcurrent, Execution.run_bind, Execution.run_pure]
  · simp only [relevantChanges, if_neg hcurrent, map_eq_pure_bind, Execution.run_bind, supplies,
      Execution.run_pure]

end IndexStores

end ElementCatalog
