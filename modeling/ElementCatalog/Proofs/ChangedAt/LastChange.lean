import ElementCatalog.Proofs.ChangedAt.Evolution

/-!
# The last change decides

Changes can come in any order, be repeated, remove what is not there or add what is. Of all changes
in a batch that concern an entry, the last one decides whether it is listed. An entry that none of
them concerns is listed as it was (`Change.leaveAll_iff_addsLast`).

An update does nothing else to the stored index, whatever stands there
(`IndexStores.settles_of_update`).
-/

namespace ElementCatalog

namespace Change

variable {change : Change} {changes : List Change} {entry : IndexEntry}

/-- A change adds an entry or removes it. -/
def Concerns (change : Change) (entry : IndexEntry) : Prop :=
  entry ∈ change.added ∨ entry ∈ change.removed

/-- Of the changes that concern an entry there is a last one, and it adds the entry. -/
def AddsLast (entry : IndexEntry) (changes : List Change) : Prop :=
  ∃ front change back, changes = front ++ change :: back ∧ entry ∈ change.added ∧
    ∀ later ∈ back, ¬ later.Concerns entry

/-- Behind one more change in front, an entry is added last by one of the others, or by the first
one if none of the others concerns it. -/
theorem addsLast_cons : AddsLast entry (change :: changes) ↔
    AddsLast entry changes ∨ entry ∈ change.added ∧ ∀ later ∈ changes, ¬ later.Concerns entry := by
  constructor
  · rintro ⟨front, last, back, heq, hadded, hback⟩
    -- The last change that adds the entry is the first one of all, or one of the others.
    cases front with
    | nil =>
      obtain ⟨rfl, rfl⟩ := List.cons_eq_cons.1 heq
      exact .inr ⟨hadded, hback⟩
    | cons first front =>
      obtain ⟨-, rfl⟩ := List.cons_eq_cons.1 heq
      exact .inl ⟨front, last, back, rfl, hadded, hback⟩
  · rintro (⟨front, last, back, rfl, hadded, hback⟩ | ⟨hadded, hback⟩)
    · exact ⟨change :: front, last, back, rfl, hadded, hback⟩
    · exact ⟨[], change, changes, rfl, hadded, hback⟩

/-- Changes leave an entry if the last one that concerns it adds it, or if none concerns it and it
was held. -/
theorem leaveAll_iff_addsLast {held : Prop} : LeaveAll entry changes held ↔
    AddsLast entry changes ∨ (∀ change ∈ changes, ¬ change.Concerns entry) ∧ held := by
  -- The first change decides what is held for the rest.
  induction changes generalizing held with
  | nil => simp [LeaveAll, AddsLast]
  | cons change rest ih =>
    rw [LeaveAll, ih, addsLast_cons, List.forall_mem_cons, Leaves, Concerns]
    tauto

end Change

namespace StoredIndex

variable {relevant : List Change} {base after : StoredIndex}

/-- A stored index after changes, in terms of the one they were made to. -/
structure Settles (relevant : List Change) (base after : StoredIndex) : Prop where
  /-- An identifier is listed under a key if the last change that adds or removes the pair adds it,
  or if no change does and it was listed. -/
  lists_iff (entry : IndexEntry) : after.Lists entry ↔ Change.AddsLast entry relevant ∨
    (∀ change ∈ relevant, ¬ change.Concerns entry) ∧ base.Lists entry
  /-- Under a key that occurs in a state before or after a change stands nothing, or a list that is
  not empty and strictly ascending. -/
  ascending {key : String} (touched : ∃ change ∈ relevant, ∃ id, (key, id) ∈ change.indexEntries) :
    ∀ ids ∈ after[key]?, ids ≠ [] ∧ ids.Pairwise fun a b => compare a b = .lt
  /-- Every other key has what it had. -/
  untouched {key : String}
    (untouched : ¬ ∃ change ∈ relevant, ∃ id, (key, id) ∈ change.indexEntries) :
    after[key]? = base[key]?

/-- What changes make of a stored index, whatever it has. -/
theorem settles_afterChanges (relevant : List Change) (base : StoredIndex) :
    Settles relevant base (base.afterChanges relevant) where
  lists_iff _ := lists_afterChanges.trans Change.leaveAll_iff_addsLast
  ascending touched _ hids := ascending_afterChanges (Change.mem_touchedKeys_iff.2 touched) hids
  untouched untouched := getElem?_afterChanges_of_not_mem (mt Change.mem_touchedKeys_iff.1 untouched)

end StoredIndex

namespace IndexStores

variable {m : Type → Type} [Monad m] {σ : Type} {stores : IndexStores m}
  {execution : Execution m σ} {view : σ → IndexMemory} {source : m (List Element)}

/-- An update that succeeds settles the relevant changes on the index from before, or on an empty one
if it reports a rebuild. The relevant changes are the given ones if the version is the current one,
and else one addition for each element of a list that the source returned. -/
theorem settles_of_update [LawfulMonad m] (lawful : stores.Lawful execution view)
    (kept : ∀ ⦃before list middle⦄, execution.run source before = (.ok list, middle) →
      view middle = view before)
    {changes : List Change} {cacheIsValid : Bool} {s after : σ} {report : IndexUpdate}
    (h : execution.run (stores.update source changes cacheIsValid) s = (.ok report, after)) :
    (report.rebuilt = true ↔
      cacheIsValid = false ∨ (view s).versions[versionKey]? ≠ some layoutVersion) ∧
    ∃ relevant,
      ((view s).versions[versionKey]? = some layoutVersion ∧ relevant = changes ∨
        (view s).versions[versionKey]? ≠ some layoutVersion ∧
          ∃ before list middle, execution.run source before = (.ok list, middle) ∧
            relevant = Change.additions list) ∧
      StoredIndex.Settles relevant (if report.rebuilt then ∅ else (view s).index)
        (view after).index := by
  obtain ⟨relevant, hrelevant, hfinished⟩ := lawful.of_run_update kept h
  obtain ⟨hreport, hafter⟩ := Prod.mk.inj hfinished
  have hrebuilt : report.rebuilt = (view s).needsRebuild cacheIsValid := by rw [← hreport]
  refine ⟨?_, relevant, hrelevant, ?_⟩
  · rw [hrebuilt]
    simp [IndexMemory.needsRebuild]
  · rw [hrebuilt, ← hafter]
    exact StoredIndex.settles_afterChanges relevant _

/-- Stores in memory with an unordered list. An instance is removed that is not listed, and then added
twice and modified: its last entry is the one of the modification. -/
theorem settles_of_update_stamped :
    let changes : List Change := [.removal (stamped "x" "first"), .addition (stamped "x" "first"),
      .addition (stamped "x" "first"), .modification (stamped "x" "first") (stamped "x" "later")]
    let memory : IndexMemory :=
      ⟨(∅ : StoredIndex).insert "later" [.ofInstance "a" "t" "z", .ofInstance "a" "t" "y"],
        (∅ : Std.ExtTreeMap String Nat).insert versionKey layoutVersion⟩
    ∃ report after,
      (Execution.inMemory IndexMemory).run (IndexMemory.stores.update (pure []) changes true) memory =
        (.ok report, after) ∧
      report.rebuilt = false ∧ StoredIndex.Settles changes memory.index after.index := by
  intro changes memory
  have hversion : (id memory).versions[versionKey]? = some layoutVersion :=
    Std.ExtTreeMap.getElem?_insert_self
  obtain ⟨report, after, hrun⟩ :=
    succeeds_update_inMemory (Execution.succeeds_pure []) changes true memory
  have kept ⦃before : IndexMemory⦄ ⦃list : List Element⦄ ⦃middle : IndexMemory⦄
      (h : (Execution.inMemory IndexMemory).run (pure []) before = (.ok list, middle)) :
      id middle = id before := by
    rw [Execution.run_pure] at h
    cases h
    rfl
  obtain ⟨hrebuilt, relevant, hrelevant, hsettles⟩ :=
    settles_of_update lawful_inMemory kept hrun
  have hkept : report.rebuilt = false := by
    rw [← Bool.not_eq_true, hrebuilt]
    exact fun h => h.elim Bool.true_eq_false.mp fun h => h hversion
  -- The version is the current one, so that the given changes are the relevant ones.
  rcases hrelevant with ⟨-, rfl⟩ | ⟨hother, -⟩
  · simp only [hkept, Bool.false_eq_true, if_false] at hsettles
    exact ⟨report, after, hrun, hkept, hsettles⟩
  · exact absurd hversion hother

end IndexStores

end ElementCatalog
