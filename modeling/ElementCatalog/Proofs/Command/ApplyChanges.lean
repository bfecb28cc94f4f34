import ElementCatalog.Proofs.ChangedAt.Rebuild
import ElementCatalog.Proofs.Command.OnDisk
import ElementCatalog.Proofs.Element.RoundTrip

/-!
# Applying changes from the command line

A request to apply changes reads the changes and the graph, and updates the index with them. It prints
that the index was rebuilt from the elements of the graph whenever the old index was given up
(`Request.reports_of_rebuilt`). That it was given up because it is not trusted does not make it the
index of the elements (`Request.runApplyChanges_hasIndexOf_iff`): it is built from the changes then.
-/

namespace ElementCatalog.Request

open IndexStores (indexFile versionsFile)

variable {disk after : Disk} {settings : Settings} {changes graph : String} {invalidCache : Bool}
  {store : Option String} {printed : Printed}

/-- What is printed about an update. -/
def updateLines (root : String) (batch : List Change) (loaded : ElementGraph)
    (update : IndexUpdate) : Printed :=
  .lines [
    if update.rebuilt then
      String.join ["Rebuilt index from ", count loaded.elements.length, " elements"]
    else String.join ["Applied ", count batch.length, " changes"],
    String.join [count update.keysSet, " keys written, ", count update.keysDeleted,
      " keys deleted (", (indexFile root).path, ")"]]

/-- A request to apply changes that succeeds has read both documents, has updated the index, and
prints what was done. -/
theorem runOn_runApplyChanges_eq_ok_iff :
    runOn disk (runApplyChanges settings changes graph invalidCache store) = (.ok printed, after) ↔
      ∃ batch loaded report caches,
        disk.HasDocument (Json.Draft.items Change.ofDraft) changes batch ∧
        disk.HasDocument ElementGraph.ofDraft graph loaded ∧
        (Store.onDisk IndexCaches).run
            ((IndexStores.onFiles (store.getD settings.storeDir)).update (pure loaded.elements) batch
              (!invalidCache)) (.empty, disk) = (.ok report, caches, after) ∧
        printed = updateLines (store.getD settings.storeDir) batch loaded report := by
  simp only [runApplyChanges, runOn_bind_eq_ok_iff, runOn_readDocument_eq_ok_iff,
    runOn_withIndex_eq_ok_iff]
  constructor
  · rintro ⟨batch, _, ⟨hbatch, rfl⟩, loaded, _, ⟨hloaded, rfl⟩, report, middle, ⟨caches, hrun⟩, h⟩
    obtain ⟨hprinted, rfl⟩ := Prod.mk.inj h
    exact ⟨batch, loaded, report, caches, hbatch, hloaded, hrun, (Except.ok.inj hprinted).symm⟩
  · rintro ⟨batch, loaded, report, caches, hbatch, hloaded, hrun, rfl⟩
    exact ⟨batch, disk, ⟨hbatch, rfl⟩, loaded, disk, ⟨hloaded, rfl⟩, report, after, ⟨caches, hrun⟩,
      rfl⟩

variable {root : String} {batch : List Change} {loaded : ElementGraph} {report : IndexUpdate}

/-- A rebuild is printed together with the number of elements. -/
theorem reports_of_rebuilt (h : report.rebuilt = true) :
    (String.join ["Rebuilt index from ", count loaded.elements.length, " elements\n"]).toList <+:
      (updateLines root batch loaded report).output.toList := by
  simp [updateLines, Printed.lines, h]

/-- A rebuild is printed only if there was one. -/
theorem rebuilt_of_reports
    (h : "Rebuilt index from ".toList <+: (updateLines root batch loaded report).output.toList) :
    report.rebuilt = true := by
  by_contra hrebuilt
  simp [updateLines, Printed.lines, hrebuilt] at h

/-- After changes were applied and a rebuild is printed, the file of the index has the index of the
graph exactly if the stored version was not the current one, or if the changes leave exactly the
entries that the elements of the graph contribute. -/
theorem runApplyChanges_hasIndexOf_iff
    (h : runOn disk (runApplyChanges settings changes graph invalidCache store) =
      (.ok printed, after))
    (rebuilt : "Rebuilt index from ".toList <+: printed.output.toList) :
    ∃ batch loaded versions,
      disk.HasDocument (Json.Draft.items Change.ofDraft) changes batch ∧
      disk.HasDocument ElementGraph.ofDraft graph loaded ∧
      disk.Stores .version (versionsFile (store.getD settings.storeDir)) versions ∧
      (String.join ["Rebuilt index from ", count loaded.elements.length, " elements\n"]).toList <+:
        printed.output.toList ∧
      (after.HasIndexOf (store.getD settings.storeDir) loaded.elements ↔
        versions[versionKey]? ≠ some layoutVersion ∨
          ∀ entry, Change.LeaveAll entry batch False ↔
            Contributes {element | element ∈ loaded.elements} entry) := by
  obtain ⟨batch, loaded, report, caches, hbatch, hloaded, hrun, rfl⟩ :=
    runOn_runApplyChanges_eq_ok_iff.1 h
  have hrebuilt := rebuilt_of_reports rebuilt
  have loadedChanges := hbatch.elim fun _ hread => Change.loaded_of_read hread.2
  have loadedElements := hloaded.elim fun _ hread => ElementGraph.loaded_of_read hread.2
  obtain ⟨versions, hversions, hiff⟩ :=
    IndexStores.hasIndexOf_iff_of_run_update loadedChanges loadedElements
      ((Store.onDisk IndexCaches).run_pure _) hrun hrebuilt
  exact ⟨batch, loaded, versions, hbatch, hloaded, hversions, reports_of_rebuilt hrebuilt, hiff⟩

/-- An instance with a writable identifier that was changed at some time is loaded. -/
theorem loaded_stamped {room : Nat} {name changedAt : String}
    (h : (ElementId.ofInstance "a" "t" name).IsWritable) :
    (IndexStores.stamped name changedAt).Loaded room := by
  refine ⟨h, ValueMap.loaded_nil, Value.loaded_map_iff.2 ⟨List.nodup_singleton _, ?_⟩⟩
  exact List.forall_mem_singleton.2 ((Value.loaded_ofJson (.string changedAt)).mono (Nat.zero_le _))

/-- A graph with one instance. -/
def stampedGraph : ElementGraph :=
  ⟨[IndexStores.stamped "x" "first"], ∅⟩

/-- The graph is read from its text. -/
theorem read_pretty_stampedGraph :
    Json.Document.read ElementGraph.ofDraft stampedGraph.toJson.pretty = .ok stampedGraph := by
  have hid : (ElementId.ofInstance "a" "t" "x").IsWritable :=
    ElementId.parse_fullName_iff.1 (by decide +kernel)
  exact ElementGraph.read_pretty (List.forall_mem_singleton.2 (loaded_stamped hid))

/-- No changes are read from an empty list. -/
theorem read_pretty_nil :
    Json.Document.read (Json.Draft.items Change.ofDraft) (Json.list []).pretty = .ok [] := by
  rw [Json.Document.read_pretty]
  rfl

/-- A disk with an empty index of some version, the graph, and no changes. -/
def diskOfVersion (version : Nat) : Disk :=
  let versions : Std.ExtTreeMap String Nat :=
    (∅ : Std.ExtTreeMap String Nat).insert versionKey version
  ((IndexStores.diskWith (Store.textOfEntries .ids ∅) (Store.textOfEntries .version versions)).withFile
    ["graph"] stampedGraph.toJson.pretty).withFile ["changes"] (Json.list []).pretty

/-- The version of the disk is the one that is stored. -/
theorem stores_diskOfVersion {version : Nat} (h : version < 0x100000000) :
    (diskOfVersion version).Stores .version (versionsFile ".")
      ((∅ : Std.ExtTreeMap String Nat).insert versionKey version) :=
  .inr ⟨_, rfl, Store.entriesOfText_textOfEntries
    (Codec.readsBackAll_empty.insert versionKey (Codec.readsBack_version h))⟩

/-- Applied to the disk without trust in its index, no changes succeed and print a rebuild. They leave
what the stored version asks for. -/
theorem exists_runOn_diskOfVersion {version : Nat} (h : version < 0x100000000)
    (accepts : (diskOfVersion version).AcceptsIndex ".") :
    ∃ printed after,
      runOn (diskOfVersion version) (runApplyChanges .standard "changes" "graph" true (some ".")) =
          (.ok printed, after) ∧
        "Rebuilt index from 1 elements\n".toList <+: printed.output.toList ∧
        after.readText (indexFile ".").path =
          .ok (Store.textOfEntries .ids (StoredIndex.afterChanges
            (if version = layoutVersion then [] else Change.additions stampedGraph.elements) ∅)) := by
  have hindex : ∃ stored, (diskOfVersion version).Stores .ids (indexFile ".") stored :=
    ⟨_, .inr ⟨_, rfl, Store.entriesOfText_textOfEntries Codec.readsBackAll_empty⟩⟩
  have needed : (!(!true) || ((∅ : Std.ExtTreeMap String Nat).insert versionKey version)[versionKey]?
      != some layoutVersion) = true :=
    rfl
  have supplies (s : IndexCaches × Disk) : (Store.onDisk IndexCaches).run
      (pure stampedGraph.elements : IndexAction (StateM Disk) (List Element)) s =
        (.ok stampedGraph.elements, s) :=
    (Store.onDisk IndexCaches).run_pure _ s
  obtain ⟨report, caches, after, hrun, hrebuilt, htext, -⟩ :=
    IndexStores.exists_run_update (stores_diskOfVersion h) supplies accepts hindex needed []
  have hreports : "Rebuilt index from 1 elements\n" = String.join
      ["Rebuilt index from ", count stampedGraph.elements.length, " elements\n"] := by
    decide +kernel
  refine ⟨updateLines "." [] stampedGraph report, after, ?_, hreports ▸ reports_of_rebuilt hrebuilt,
    ?_⟩
  · refine runOn_runApplyChanges_eq_ok_iff.2 ⟨[], stampedGraph, report, caches,
      ⟨_, rfl, read_pretty_nil⟩, ⟨_, rfl, read_pretty_stampedGraph⟩, ?_, rfl⟩
    rw [Option.getD_some]
    exact hrun
  · simpa using htext

/-- An index of another version is rebuilt from the graph. -/
theorem runApplyChanges_hasIndexOf_version_two :
    ∃ printed after,
      runOn (diskOfVersion 2) (runApplyChanges .standard "changes" "graph" true (some ".")) =
          (.ok printed, after) ∧
        "Rebuilt index from ".toList <+: printed.output.toList ∧
        after.HasIndexOf "." stampedGraph.elements := by
  have accepts : (diskOfVersion 2).AcceptsIndex "." := by decide +kernel
  obtain ⟨printed, after, hrun, hreports, -⟩ := exists_runOn_diskOfVersion (by decide) accepts
  have hreports : "Rebuilt index from ".toList <+: printed.output.toList :=
    List.IsPrefix.trans (by decide) hreports
  obtain ⟨batch, loaded, versions, -, hloaded, hversions, -, hiff⟩ :=
    runApplyChanges_hasIndexOf_iff hrun hreports
  -- The documents and the versions that the request found are those of the disk.
  obtain rfl := hversions.unique (stores_diskOfVersion (by decide))
  obtain rfl := hloaded.unique ⟨_, rfl, read_pretty_stampedGraph⟩
  exact ⟨printed, after, hrun, hreports, hiff.2 (.inl (by decide +kernel))⟩

/-- A current index that is not trusted is not rebuilt from the graph, although that is printed. -/
theorem runApplyChanges_not_hasIndexOf_version_three :
    ∃ printed after,
      runOn (diskOfVersion 3) (runApplyChanges .standard "changes" "graph" true (some ".")) =
          (.ok printed, after) ∧
        "Rebuilt index from 1 elements\n".toList <+: printed.output.toList ∧
        ¬ after.HasIndexOf "." stampedGraph.elements := by
  have accepts : (diskOfVersion 3).AcceptsIndex "." := by decide +kernel
  obtain ⟨printed, after, hrun, hreports, hindex⟩ := exists_runOn_diskOfVersion (by decide) accepts
  refine ⟨printed, after, hrun, hreports, fun hasIndex => ?_⟩
  have loaded := ElementGraph.loaded_of_read read_pretty_stampedGraph
  -- The instance contributes an entry, and no changes leave none.
  have hentry := (Disk.hasIndexOf_iff (List.forall_mem_nil _) loaded hindex).1 hasIndex
    ("first", .ofInstance "a" "t" "x")
  exact hentry.2 ⟨_, List.mem_singleton_self _, by decide⟩

end ElementCatalog.Request
