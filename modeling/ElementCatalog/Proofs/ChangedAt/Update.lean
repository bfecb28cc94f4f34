import ElementCatalog.ChangedAt.InMemory
import ElementCatalog.Proofs.ChangedAt.Stored
import ElementCatalog.Proofs.Store.Execution

/-!
# What an update does to the stores

Stores are lawful if each operation that succeeds does what it does to an index in memory
(`IndexStores.Lawful`). In lawful stores an update that succeeds leaves the index that the changes
make of the stored one, or of an empty one (`IndexStores.Lawful.of_run_update`).
-/

namespace ElementCatalog

namespace StoredIndex

/-- How many keys changes write and delete. -/
def written (changes : List Change) (stored : StoredIndex) : Nat × Nat :=
  (((updatedPart changes stored).toList.filter fun (_, ids) => !ids.isEmpty).length,
    ((updatedPart changes stored).toList.filter fun (_, ids) => ids.isEmpty).length)

/-- Where no key is touched, nothing is updated. -/
private theorem toList_updatedPart {changes : List Change} {stored : StoredIndex}
    (h : Change.touchedKeys changes = []) : (updatedPart changes stored).toList = [] := by
  refine List.eq_nil_iff_forall_not_mem.2 fun ⟨key, ids⟩ hmem => ?_
  have hkey : key ∈ updatedPart changes stored := by
    rw [Std.ExtTreeMap.mem_iff_isSome_getElem?,
      Std.ExtTreeMap.mem_toList_iff_getElem?_eq_some.1 hmem, Option.isSome_some]
  rcases ChangeIndex.mem_foldl.2 hkey with hread | htouched
  · rw [h] at hread
    exact Std.ExtTreeMap.not_mem_empty hread
  · rw [h] at htouched
    exact List.not_mem_nil htouched

/-- Changes that touch no key write and delete none. -/
theorem written_of_touchedKeys_eq_nil {changes : List Change} {stored : StoredIndex}
    (h : Change.touchedKeys changes = []) : stored.written changes = (0, 0) := by
  rw [written, toList_updatedPart h]
  rfl

/-- Changes that touch no key leave the stored index as it is. -/
theorem afterChanges_of_touchedKeys_eq_nil {changes : List Change} {stored : StoredIndex}
    (h : Change.touchedKeys changes = []) : stored.afterChanges changes = stored := by
  rw [afterChanges, commit, toList_updatedPart h]
  rfl

end StoredIndex

namespace IndexMemory

/-- Whether an update builds the index anew. -/
def needsRebuild (memory : IndexMemory) (cacheIsValid : Bool) : Bool :=
  !cacheIsValid || memory.versions[versionKey]? != some layoutVersion

/-- What an update answers once the relevant changes are made, and what is stored then. -/
def finished (rebuilt : Bool) (relevant : List Change) (memory : IndexMemory) :
    IndexUpdate × IndexMemory :=
  let start : StoredIndex := if rebuilt then ∅ else memory.index
  (⟨rebuilt, (start.written relevant).1, (start.written relevant).2⟩,
    { index := start.afterChanges relevant
      versions :=
        if rebuilt then memory.versions.insert versionKey layoutVersion else memory.versions })

end IndexMemory

namespace IndexStores

variable {m : Type → Type} [Monad m] {σ : Type}

/-- Stores whose operations do, whenever they succeed, what they do to an index in memory. -/
structure Lawful (stores : IndexStores m) (execution : Execution m σ) (view : σ → IndexMemory) :
    Prop where
  /-- Reading several keys of the index. -/
  getMany (keys : List String) : execution.Does view (stores.index.getMany keys) fun memory =>
    (keys.map fun key => memory.index[key]?, memory)
  /-- Writing several keys of the index. -/
  setAll (entries : List (String × List ElementId)) :
    execution.Does view (stores.index.setAll entries) fun memory =>
      ((), { memory with index := Store.insertAll entries memory.index })
  /-- Removing keys of the index. -/
  deleteAll (keys : List String) : execution.Does view (stores.index.deleteAll keys) fun memory =>
    ((), { memory with index := Store.eraseAll keys memory.index })
  /-- Clearing the index. -/
  clear : execution.Does view stores.index.clear fun memory => ((), { memory with index := ∅ })
  /-- Reading a version. -/
  getVersion (key : String) : execution.Does view (stores.versions.get key) fun memory =>
    (memory.versions[key]?, memory)
  /-- Writing a version. -/
  setVersion (key : String) (version : Nat) :
    execution.Does view (stores.versions.set key version) fun memory =>
      ((), { memory with versions := memory.versions.insert key version })

/-- The part of an update that makes the relevant changes. -/
def finish (stores : IndexStores m) (rebuilt : Bool) (relevant : List Change) : m IndexUpdate := do
  if rebuilt then stores.index.clear
  let (keysSet, keysDeleted) ← stores.applyChanges relevant
  if rebuilt then stores.versions.set versionKey layoutVersion
  return ⟨rebuilt, keysSet, keysDeleted⟩

/-- The changes that an update makes, depending on the version. -/
def relevantChanges (source : m (List Element)) (changes : List Change) (version : Option Nat) :
    m (List Change) :=
  if version = some layoutVersion then pure changes else Change.additions <$> source

/-- An update finds out the relevant changes and then makes them. -/
theorem update_eq (stores : IndexStores m) (source : m (List Element)) (changes : List Change)
    (cacheIsValid : Bool) : stores.update source changes cacheIsValid =
      stores.versions.get versionKey >>= fun version =>
        relevantChanges source changes version >>= fun relevant =>
          stores.finish (!cacheIsValid || version != some layoutVersion) relevant := by
  rw [update]
  congr 1
  funext version
  by_cases h : version = some layoutVersion
  · subst h
    rfl
  · have hcurrent : (version == some layoutVersion) = false := beq_false_of_ne h
    simp only [relevantChanges, if_neg h, bne, hcurrent]
    rfl

variable {stores : IndexStores m} {execution : Execution m σ} {view : σ → IndexMemory}

/-- Changes that are applied to the stores change the stored index. -/
theorem Lawful.does_applyChanges (lawful : stores.Lawful execution view) (changes : List Change) :
    execution.Does view (stores.applyChanges changes) fun memory =>
      (StoredIndex.written changes memory.index,
        { memory with index := StoredIndex.afterChanges changes memory.index }) := by
  rw [applyChanges]
  by_cases hkeys : Change.touchedKeys changes = []
  -- Without touched keys no store is asked for anything.
  · simp only [hkeys, StoredIndex.written_of_touchedKeys_eq_nil hkeys,
      StoredIndex.afterChanges_of_touchedKeys_eq_nil hkeys]
    exact execution.does_pure _
  · simp only [List.isEmpty_eq_false_iff.2 hkeys]
    exact (lawful.getMany _).bind fun stored => (lawful.setAll _).bind fun _ =>
      (lawful.deleteAll _).bind fun _ => Execution.does_pure _

/-- Making the relevant changes answers and stores what it does in memory. -/
theorem Lawful.does_finish (lawful : stores.Lawful execution view) (rebuilt : Bool)
    (relevant : List Change) :
    execution.Does view (stores.finish rebuilt relevant)
      (IndexMemory.finished rebuilt relevant) := by
  rw [finish]
  cases rebuilt with
  | true =>
    exact lawful.clear.bind fun _ => (lawful.does_applyChanges relevant).bind fun _ =>
      (lawful.setVersion _ _).bind fun _ => execution.does_pure _
  | false =>
    exact (lawful.does_applyChanges relevant).bind fun _ => execution.does_pure _

/-- An update that succeeds makes the given changes if the version is the current one, and else one
addition for each element that the source returned. -/
theorem Lawful.of_run_update [LawfulMonad m] (lawful : stores.Lawful execution view)
    {source : m (List Element)} {changes : List Change} {cacheIsValid : Bool} {s after : σ}
    {report : IndexUpdate}
    (kept : ∀ ⦃before list middle⦄, execution.run source before = (.ok list, middle) →
      view middle = view before)
    (h : execution.run (stores.update source changes cacheIsValid) s = (.ok report, after)) :
    ∃ relevant,
      ((view s).versions[versionKey]? = some layoutVersion ∧ relevant = changes ∨
        (view s).versions[versionKey]? ≠ some layoutVersion ∧
          ∃ before list middle, execution.run source before = (.ok list, middle) ∧
            relevant = Change.additions list) ∧
      IndexMemory.finished ((view s).needsRebuild cacheIsValid) relevant (view s) =
        (report, view after) := by
  rw [update_eq] at h
  obtain ⟨version, s₁, hversion, h⟩ := Execution.run_bind_eq_ok_iff.1 h
  obtain ⟨relevant, s₂, hrelevant, h⟩ := Execution.run_bind_eq_ok_iff.1 h
  obtain ⟨rfl, hview₁⟩ := Prod.mk.inj (lawful.getVersion versionKey hversion)
  have hfinished := lawful.does_finish _ relevant h
  -- Whose changes are made depends on the version alone, and not on the cache.
  rw [relevantChanges] at hrelevant
  split at hrelevant
  · next hcurrent =>
    rw [execution.run_pure] at hrelevant
    cases hrelevant
    rw [← hview₁] at hfinished
    exact ⟨_, .inl ⟨hcurrent, rfl⟩, hfinished⟩
  · next hcurrent =>
    rw [map_eq_pure_bind] at hrelevant
    obtain ⟨list, middle, hlist, hadditions⟩ := Execution.run_bind_eq_ok_iff.1 hrelevant
    rw [execution.run_pure] at hadditions
    cases hadditions
    rw [kept hlist, ← hview₁] at hfinished
    exact ⟨_, .inr ⟨hcurrent, s₁, list, s₂, hlist, rfl⟩, hfinished⟩

/-- The stores in memory are lawful. -/
theorem lawful_inMemory :
    (IndexMemory.stores (m := Id)).Lawful (Execution.inMemory IndexMemory) id where
  getMany keys s after result h := by
    cases h
    rfl
  setAll entries s after result h := by
    cases h
    rfl
  deleteAll keys s after result h := by
    cases h
    rfl
  clear s after result h := by
    cases h
    rfl
  getVersion key s after result h := by
    cases h
    rfl
  setVersion key version s after result h := by
    cases h
    rfl

/-- An update of stores in memory succeeds if the source does. -/
theorem succeeds_update_inMemory
    {source : ExceptT IndexError (StateT IndexMemory Id) (List Element)}
    (h : (Execution.inMemory IndexMemory).Succeeds source) (changes : List Change)
    (cacheIsValid : Bool) :
    (Execution.inMemory IndexMemory).Succeeds
      (IndexMemory.stores.update source changes cacheIsValid) := by
  have happly (changes : List Change) : (Execution.inMemory IndexMemory).Succeeds
      ((IndexMemory.stores (m := Id)).applyChanges changes) := by
    rw [applyChanges]
    by_cases hkeys : (Change.touchedKeys changes).isEmpty = true
    · simp only [if_pos hkeys]
      exact Execution.succeeds_pure _
    · simp only [if_neg hkeys]
      exact fun s => ⟨_, _, rfl⟩
  have hfinish (rebuilt : Bool) (relevant : List Change) :
      (Execution.inMemory IndexMemory).Succeeds
        ((IndexMemory.stores (m := Id)).finish rebuilt relevant) := by
    rw [finish]
    cases rebuilt with
    | true =>
      exact Execution.Succeeds.bind (fun s => ⟨_, _, rfl⟩) fun _ =>
        (happly relevant).bind fun _ =>
          Execution.Succeeds.bind (fun s => ⟨_, _, rfl⟩) fun _ => Execution.succeeds_pure _
    | false => exact (happly relevant).bind fun _ => Execution.succeeds_pure _
  rw [update_eq]
  refine Execution.Succeeds.bind (fun s => ⟨_, _, rfl⟩) fun version =>
    Execution.Succeeds.bind ?_ fun relevant => hfinish _ relevant
  rw [relevantChanges]
  split
  · exact Execution.succeeds_pure changes
  · rw [map_eq_pure_bind]
    exact h.bind fun _ => Execution.succeeds_pure _

end IndexStores

end ElementCatalog
