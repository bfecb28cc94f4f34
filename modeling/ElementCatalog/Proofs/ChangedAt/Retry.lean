import ElementCatalog.Proofs.ChangedAt.Evolution

/-!
# Updates that are made again

Stores are atomic if an operation that fails leaves them as they were (`IndexStores.Atomic`). An
update of atomic stores can still stop between two operations: behind the clearing of the index,
between the writing and the deletion of keys, or in front of the writing of the version. What it
leaves then is not the old index, but one from which the same update reaches the same end
(`IndexStores.Atomic.leaves_update`). So an update can be tried until it succeeds
(`IndexStores.retries_eq_update`).
-/

namespace ElementCatalog

namespace IndexMemory

variable {memory after : IndexMemory} {elements : List Element} {changes : List Change}
  {cacheIsValid : Bool}

/-- What an update answers, and what is stored then, if nothing fails. -/
def updated (elements : List Element) (changes : List Change) (cacheIsValid : Bool)
    (memory : IndexMemory) : IndexUpdate × IndexMemory :=
  finished (memory.needsRebuild cacheIsValid)
    (if memory.versions[versionKey]? = some layoutVersion then changes
      else Change.additions elements) memory

/-- What relevant changes leave of an index if they stop: the versions, and the index that they
make. -/
def Resumable (rebuilt : Bool) (relevant : List Change) (memory after : IndexMemory) : Prop :=
  after.versions = memory.versions ∧
    finished rebuilt relevant after = finished rebuilt relevant memory

/-- An index that is built anew can be built anew from anything. -/
theorem resumable_true {relevant : List Change} (h : after.versions = memory.versions) :
    Resumable true relevant memory after := by
  refine ⟨h, ?_⟩
  simp only [finished, if_true, h]

/-- Changes that stop before they write anything, or before they delete anything, can be made
again. -/
theorem resumable_false {relevant : List Change}
    (h : after = memory ∨
      after = { memory with index := StoredIndex.halfway relevant memory.index }) :
    Resumable false relevant memory after := by
  rcases h with rfl | rfl
  · exact ⟨rfl, rfl⟩
  · refine ⟨rfl, ?_⟩
    simp only [finished, StoredIndex.written, StoredIndex.updatedPart_halfway,
      StoredIndex.afterChanges_halfway, Bool.false_eq_true, if_false]

end IndexMemory

namespace IndexStores

variable {m : Type → Type} [Monad m] {σ : Type}

/-- Lawful stores whose operations leave everything as it was whenever they fail. -/
structure Atomic (stores : IndexStores m) (execution : Execution m σ) (view : σ → IndexMemory) :
    Prop extends Lawful stores execution view where
  /-- Reading several keys of the index. -/
  getMany_fails (keys : List String) : execution.Leaves view (stores.index.getMany keys) Eq
  /-- Writing several keys of the index. -/
  setAll_fails (entries : List (String × List ElementId)) :
    execution.Leaves view (stores.index.setAll entries) Eq
  /-- Removing keys of the index. -/
  deleteAll_fails (keys : List String) : execution.Leaves view (stores.index.deleteAll keys) Eq
  /-- Clearing the index. -/
  clear_fails : execution.Leaves view stores.index.clear Eq
  /-- Reading a version. -/
  getVersion_fails (key : String) : execution.Leaves view (stores.versions.get key) Eq
  /-- Writing a version. -/
  setVersion_fails (key : String) (version : Nat) :
    execution.Leaves view (stores.versions.set key version) Eq

/-- A source that returns the given elements or fails, and leaves the stores alone. -/
structure Returns (execution : Execution m σ) (view : σ → IndexMemory) (source : m (List Element))
    (elements : List Element) : Prop where
  /-- What the source returns. -/
  does : execution.Does view source fun memory => (elements, memory)
  /-- What it leaves if it fails. -/
  fails : execution.Leaves view source Eq

variable {stores : IndexStores m} {execution : Execution m σ} {view : σ → IndexMemory}
  {source : m (List Element)} {elements : List Element} {changes : List Change}
  {cacheIsValid : Bool}

/-- Changes fail before they write keys, or between that and the deletion of keys. -/
theorem Atomic.leaves_applyChanges (atomic : stores.Atomic execution view)
    (changes : List Change) :
    execution.Leaves view (stores.applyChanges changes) fun memory after =>
      after = memory ∨
        after = { memory with index := StoredIndex.halfway changes memory.index } := by
  rw [applyChanges]
  by_cases hkeys : Change.touchedKeys changes = []
  · simp only [hkeys]
    exact Execution.leaves_pure _ _
  · simp only [List.isEmpty_eq_false_iff.2 hkeys]
    refine ((atomic.getMany_fails _).bind (atomic.getMany _) fun stored =>
      (atomic.setAll_fails _).bind (atomic.setAll _) fun _ =>
        (atomic.deleteAll_fails _).bind (atomic.deleteAll _) fun _ =>
          Execution.leaves_pure _ fun _ _ => False).mono ?_
    rintro memory after (rfl | rfl | rfl | h)
    · exact .inl rfl
    · exact .inl rfl
    · exact .inr rfl
    · exact h.elim

/-- Wherever the relevant changes stop, they can be made again. -/
theorem Atomic.leaves_finish (atomic : stores.Atomic execution view) (rebuilt : Bool)
    (relevant : List Change) :
    execution.Leaves view (stores.finish rebuilt relevant)
      (IndexMemory.Resumable rebuilt relevant) := by
  rw [finish]
  cases rebuilt with
  | true =>
    -- The index is built anew in any case, so only the versions matter, which come last.
    refine (atomic.clear_fails.bind atomic.clear fun _ =>
      (atomic.leaves_applyChanges relevant).bind (atomic.does_applyChanges relevant) fun counts =>
        (atomic.setVersion_fails versionKey layoutVersion).bind (atomic.setVersion _ _) fun _ =>
          Execution.leaves_pure _ fun _ _ => False).mono ?_
    rintro memory after (rfl | (rfl | rfl) | rfl | h)
    · exact IndexMemory.resumable_true rfl
    · exact IndexMemory.resumable_true rfl
    · exact IndexMemory.resumable_true rfl
    · exact IndexMemory.resumable_true rfl
    · exact h.elim
  | false =>
    refine ((atomic.leaves_applyChanges relevant).bind (atomic.does_applyChanges relevant)
      fun counts => Execution.leaves_pure _ fun _ _ => False).mono ?_
    rintro memory after (h | h)
    · exact IndexMemory.resumable_false h
    · exact h.elim

/-- A source of elements gives the relevant changes, and never changes the stores. -/
theorem Returns.does_relevantChanges [LawfulMonad m]
    (returns : Returns execution view source elements) (changes : List Change)
    (version : Option Nat) :
    execution.Does view (relevantChanges source changes version) (fun memory =>
      (if version = some layoutVersion then changes else Change.additions elements, memory)) ∧
      execution.Leaves view (relevantChanges source changes version) Eq := by
  rw [relevantChanges]
  split
  · exact ⟨Execution.does_pure _, Execution.leaves_pure _ _⟩
  · rw [map_eq_pure_bind]
    refine ⟨returns.does.bind fun _ => Execution.does_pure _, ?_⟩
    refine (returns.fails.bind returns.does fun _ =>
      Execution.leaves_pure _ fun _ _ => False).mono ?_
    rintro memory after (h | h)
    · exact h
    · exact h.elim

/-- An update that succeeds answers and stores what it does in memory. -/
theorem Lawful.does_update [LawfulMonad m] (lawful : stores.Lawful execution view)
    (returns : Returns execution view source elements) (changes : List Change)
    (cacheIsValid : Bool) :
    execution.Does view (stores.update source changes cacheIsValid)
      (IndexMemory.updated elements changes cacheIsValid) := by
  rw [update_eq]
  exact (lawful.getVersion versionKey).bind fun version =>
    (returns.does_relevantChanges changes version).1.bind fun relevant =>
      lawful.does_finish _ relevant

/-- An update that fails leaves the versions, and stores from which the same update comes to the
same end. -/
theorem Atomic.leaves_update [LawfulMonad m] (atomic : stores.Atomic execution view)
    (returns : Returns execution view source elements) (changes : List Change)
    (cacheIsValid : Bool) :
    execution.Leaves view (stores.update source changes cacheIsValid) fun memory after =>
      after.versions = memory.versions ∧
        IndexMemory.updated elements changes cacheIsValid after =
          IndexMemory.updated elements changes cacheIsValid memory := by
  rw [update_eq]
  refine ((atomic.getVersion_fails versionKey).bind (atomic.getVersion versionKey) fun version =>
    (returns.does_relevantChanges changes version).2.bind
      (returns.does_relevantChanges changes version).1 fun relevant =>
        atomic.leaves_finish (!cacheIsValid || version != some layoutVersion) relevant).mono ?_
  rintro memory after (rfl | rfl | ⟨hversions, hfinished⟩)
  · exact ⟨rfl, rfl⟩
  · exact ⟨rfl, rfl⟩
  · refine ⟨hversions, ?_⟩
    -- The version is the old one, so the same changes are relevant.
    simp only [IndexMemory.updated, IndexMemory.needsRebuild, hversions]
    exact hfinished

/-! ## Attempts -/

variable (execution view) in
/-- One attempt of an update on some atomic stores, with a source of the given elements. Where the
attempts of a run differ is in what fails. -/
def Attempt (elements : List Element) (changes : List Change) (cacheIsValid : Bool) (s : σ)
    (outcome : Except IndexError IndexUpdate) (after : σ) : Prop :=
  ∃ (stores : IndexStores m) (source : m (List Element)),
    stores.Atomic execution view ∧ Returns execution view source elements ∧
      execution.run (stores.update source changes cacheIsValid) s = (outcome, after)

variable (execution view) in
/-- An attempt that fails. -/
def FailedAttempt (elements : List Element) (changes : List Change) (cacheIsValid : Bool)
    (s after : σ) : Prop :=
  ∃ error, Attempt execution view elements changes cacheIsValid s (.error error) after

/-- Attempts that fail leave stores from which the update comes to the same end. -/
theorem updated_of_failedAttempts [LawfulMonad m] {start last : σ}
    (failed : Relation.ReflTransGen
      (FailedAttempt execution view elements changes cacheIsValid) start last) :
    IndexMemory.updated elements changes cacheIsValid (view last) =
      IndexMemory.updated elements changes cacheIsValid (view start) := by
  induction failed with
  | refl => rfl
  | tail _ attempt ih =>
    obtain ⟨error, stores, source, atomic, returns, hrun⟩ := attempt
    exact (atomic.leaves_update returns changes cacheIsValid hrun).2.trans ih

/-- An attempt that succeeds answers and stores what the update does. -/
theorem Attempt.updated_eq [LawfulMonad m] {s after : σ} {report : IndexUpdate}
    (attempt : Attempt execution view elements changes cacheIsValid s (.ok report) after) :
    IndexMemory.updated elements changes cacheIsValid (view s) = (report, view after) := by
  obtain ⟨stores, source, atomic, returns, hrun⟩ := attempt
  exact atomic.does_update returns changes cacheIsValid hrun

/-- A pure source returns its elements. -/
theorem returns_pure (elements : List Element) :
    Returns execution view (pure elements) elements where
  does := Execution.does_pure _
  fails := Execution.leaves_pure _ _

/-- An update of stores in memory does what an update does if nothing fails. -/
theorem run_update_inMemory (elements : List Element) (changes : List Change)
    (cacheIsValid : Bool) (memory : IndexMemory) :
    (Execution.inMemory IndexMemory).run
      (IndexMemory.stores.update (pure elements) changes cacheIsValid) memory =
      (.ok (IndexMemory.updated elements changes cacheIsValid memory).1,
        (IndexMemory.updated elements changes cacheIsValid memory).2) := by
  obtain ⟨report, after, hrun⟩ :=
    succeeds_update_inMemory (Execution.succeeds_pure elements) changes cacheIsValid memory
  have hupdated := lawful_inMemory.does_update (returns_pure elements) changes cacheIsValid hrun
  simp only [id] at hupdated
  rw [hrun, hupdated]

/-- However often an update fails, each failed attempt leaves the versions as they were. Once an
attempt succeeds, it answers and leaves what a single update in memory does from the first state
on, and what any attempt does that succeeds at once. -/
theorem retries_eq_update [LawfulMonad m] (execution : Execution m σ) (view : σ → IndexMemory)
    (elements : List Element) (changes : List Change) (cacheIsValid : Bool) :
    (∀ s after, FailedAttempt execution view elements changes cacheIsValid s after →
      (view after).versions = (view s).versions) ∧
    ∀ start last after report,
      Relation.ReflTransGen (FailedAttempt execution view elements changes cacheIsValid)
        start last →
      Attempt execution view elements changes cacheIsValid last (.ok report) after →
      (Execution.inMemory IndexMemory).run
          (IndexMemory.stores.update (pure elements) changes cacheIsValid) (view start) =
        (.ok report, view after) ∧
      ∀ report' once,
        Attempt execution view elements changes cacheIsValid start (.ok report') once →
        report' = report ∧ view once = view after := by
  constructor
  · rintro s after ⟨error, stores, source, atomic, returns, hrun⟩
    exact (atomic.leaves_update returns changes cacheIsValid hrun).1
  · intro start last after report failed succeeded
    have hupdated : IndexMemory.updated elements changes cacheIsValid (view start) =
        (report, view after) :=
      (updated_of_failedAttempts failed).symm.trans succeeded.updated_eq
    refine ⟨?_, fun report' once attempt => ?_⟩
    · rw [run_update_inMemory, hupdated]
    · exact Prod.mk.inj (attempt.updated_eq.symm.trans hupdated)

/-! ## Stores that refuse some operations -/

/-- Stores that refuse some operations are atomic if the stores behind them are. -/
theorem Atomic.refusing [MonadExceptOf IndexError m]
    (throws : ∀ {β : Type} (error : IndexError) (s : σ),
      execution.run (throw error : m β) s = (.error error, s))
    (atomic : stores.Atomic execution view) (refused refusedVersions : List Store.Operation) :
    IndexStores.Atomic
      ⟨Store.refusing refused stores.index, Store.refusing refusedVersions stores.versions⟩
      execution view := by
  have hdoes {β : Type} {operation : Store.Operation} {operations : List Store.Operation}
      {action : m β} {effect : IndexMemory → β × IndexMemory} {error : IndexError}
      (h : execution.Does view action effect) :
      execution.Does view (if operation ∈ operations then throw error else action) effect := by
    intro s after result hrun
    split at hrun
    · rw [throws] at hrun
      cases hrun
    · exact h hrun
  have hleaves {β : Type} {operation : Store.Operation} {operations : List Store.Operation}
      {action : m β} {error : IndexError} (h : execution.Leaves view action Eq) :
      execution.Leaves view (if operation ∈ operations then throw error else action) Eq := by
    intro s after error' hrun
    split at hrun
    · rw [throws] at hrun
      cases hrun
      rfl
    · exact h hrun
  exact {
    getMany := fun keys => hdoes (atomic.getMany keys)
    setAll := fun entries => hdoes (atomic.setAll entries)
    deleteAll := fun keys => hdoes (atomic.deleteAll keys)
    clear := hdoes atomic.clear
    getVersion := fun key => hdoes (atomic.getVersion key)
    setVersion := fun key version => hdoes (atomic.setVersion key version)
    getMany_fails := fun keys => hleaves (atomic.getMany_fails keys)
    setAll_fails := fun entries => hleaves (atomic.setAll_fails entries)
    deleteAll_fails := fun keys => hleaves (atomic.deleteAll_fails keys)
    clear_fails := hleaves atomic.clear_fails
    getVersion_fails := fun key => hleaves (atomic.getVersion_fails key)
    setVersion_fails := fun key version => hleaves (atomic.setVersion_fails key version) }

/-- The stores in memory never fail, so they are atomic. -/
theorem atomic_inMemory :
    (IndexMemory.stores (m := Id)).Atomic (Execution.inMemory IndexMemory) id where
  toLawful := lawful_inMemory
  getMany_fails keys s after error h := by cases h
  setAll_fails entries s after error h := by cases h
  deleteAll_fails keys s after error h := by cases h
  clear_fails s after error h := by cases h
  getVersion_fails key s after error h := by cases h
  setVersion_fails key version s after error h := by cases h

/-- Stores in memory that refuse to delete keys of the index. -/
def undeletable : IndexStores (ExceptT IndexError (StateT IndexMemory Id)) where
  index := Store.refusing [.deleteAll] IndexMemory.stores.index
  versions := Store.refusing [] IndexMemory.stores.versions

/-- An index in the current layout that lists an instance under some times. -/
def listedUnder (times : List String) : IndexMemory where
  index := Store.insertAll (times.map fun time => (time, [.ofInstance "a" "t" "x"])) ∅
  versions := (∅ : Std.ExtTreeMap String Nat).insert versionKey layoutVersion

/-- The change that moves the instance from its first time to its later one. -/
def restamping : List Change :=
  [.modification (stamped "x" "first") (stamped "x" "later")]

/-- An instance that is listed under its first time moves to its later one. The first attempt writes
the new key and is refused the deletion of the old one, which leaves the instance listed under both
times. The second attempt deletes the old key, and so ends where a single update in memory does. -/
theorem retries_eq_update_undeletable :
    (Execution.inMemory IndexMemory).run (undeletable.update (pure []) restamping true)
        (listedUnder ["first"]) =
      (.error (.store "delete_all rejected"), listedUnder ["first", "later"]) ∧
    FailedAttempt (Execution.inMemory IndexMemory) id [] restamping true
      (listedUnder ["first"]) (listedUnder ["first", "later"]) ∧
    Attempt (Execution.inMemory IndexMemory) id [] restamping true
      (listedUnder ["first", "later"]) (.ok ⟨false, 1, 1⟩) (listedUnder ["later"]) ∧
    (Execution.inMemory IndexMemory).run (IndexMemory.stores.update (pure []) restamping true)
        (listedUnder ["first"]) =
      (.ok ⟨false, 1, 1⟩, listedUnder ["later"]) := by
  have hrefused : (Execution.inMemory IndexMemory).run
      (undeletable.update (pure []) restamping true) (listedUnder ["first"]) =
        (.error (.store "delete_all rejected"), listedUnder ["first", "later"]) := by
    decide +kernel
  have hdeleted : (Execution.inMemory IndexMemory).run
      (IndexMemory.stores.update (pure []) restamping true) (listedUnder ["first", "later"]) =
        (.ok ⟨false, 1, 1⟩, listedUnder ["later"]) := by
    decide +kernel
  have failed : FailedAttempt (Execution.inMemory IndexMemory) id [] restamping true
      (listedUnder ["first"]) (listedUnder ["first", "later"]) :=
    ⟨_, undeletable, pure [], atomic_inMemory.refusing (fun _ _ => rfl) _ _, returns_pure [],
      hrefused⟩
  have succeeded : Attempt (Execution.inMemory IndexMemory) id [] restamping true
      (listedUnder ["first", "later"]) (.ok ⟨false, 1, 1⟩) (listedUnder ["later"]) :=
    ⟨IndexMemory.stores, pure [], atomic_inMemory, returns_pure [], hdeleted⟩
  obtain ⟨-, hretries⟩ :=
    retries_eq_update (Execution.inMemory IndexMemory) id [] restamping true
  exact ⟨hrefused, failed, succeeded, (hretries _ _ _ _ (.single failed) succeeded).1⟩

end IndexStores

end ElementCatalog
