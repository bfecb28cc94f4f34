import ElementCatalog.Proofs.ChangedAt.Update
import Mathlib.Data.Set.Insert
import Mathlib.Data.Set.Pairwise.Basic
import Mathlib.Logic.Relation

/-!
# Indexes of element sets that evolve

A set of elements evolves with batches of changes, and each batch updates the stored index. Elements
contribute their identifiers, and types those of their fields, to the keys that their annotations
`_changed_at` give (`contributes_iff`). The index describes a set of elements if it is the one that
is built from them from scratch (`StoredIndex.Describes`). Updates keep it so, from any index that
describes the elements and from any index at all with another version
(`IndexStores.describes_of_calls`). What makes this work is that no two elements contribute a common
identifier, so that what one change removes no other element contributes.
-/

namespace ElementCatalog

namespace Element

/-- The identifiers that an element can contribute to an index: its own and those of its fields. -/
def contributedIds : Element → List ElementId
  | ofType definition => definition.id :: definition.fields.map fun (_, field) => field.id
  | ofInstance contents => [contents.id]

/-- The entries of an element have identifiers that it contributes. -/
theorem mem_contributedIds {element : Element} {entry : IndexEntry}
    (h : entry ∈ element.indexEntries) : entry.2 ∈ element.contributedIds := by
  rcases mem_indexEntries_iff.1 h with ⟨hid, -⟩ | ⟨definition, rfl, name, field, hfield, hid, -⟩
  · rw [← hid]
    cases element with
    | ofType definition => exact List.mem_cons_self
    | ofInstance contents => exact List.mem_singleton_self _
  · rw [← hid]
    exact List.mem_cons_of_mem _ (List.mem_map.2 ⟨(name, field), hfield, rfl⟩)

end Element

variable {elements middle later : Set Element} {changes : List Change} {entry : IndexEntry}

/-- Some element of a set contributes an entry. -/
def Contributes (elements : Set Element) (entry : IndexEntry) : Prop :=
  ∃ element ∈ elements, entry ∈ element.indexEntries

/-- An identifier is contributed to a key if an element with the identifier, or a type with a field
with the identifier, was changed at the key. -/
theorem contributes_iff {key : String} {id : ElementId} :
    Contributes elements (key, id) ↔
      (∃ element ∈ elements, element.id = id ∧ ChangedAt element.annotations key) ∨
        ∃ definition, Element.ofType definition ∈ elements ∧
          ∃ name field, (name, field) ∈ definition.fields ∧
            field.id = id ∧ ChangedAt field.annotations key := by
  simp only [Contributes, Element.mem_indexEntries_iff]
  constructor
  · rintro ⟨element, helement, hown | ⟨definition, rfl, hfield⟩⟩
    · exact .inl ⟨element, helement, hown⟩
    · exact .inr ⟨definition, helement, hfield⟩
  · rintro (⟨element, helement, hown⟩ | ⟨definition, hdefinition, hfield⟩)
    · exact ⟨element, helement, .inl hown⟩
    · exact ⟨_, hdefinition, .inr ⟨definition, rfl, hfield⟩⟩

/-- No two elements of a set contribute a common identifier. -/
def Apart (elements : Set Element) : Prop :=
  elements.Pairwise fun a b => a.contributedIds.Disjoint b.contributedIds

/-- What a set of elements becomes with a change. What is removed or replaced is in the set. -/
def Change.Turns : Change → Set Element → Set Element → Prop
  | addition after, elements, later => later = insert after elements
  | removal before, elements, later => before ∈ elements ∧ later = elements \ {before}
  | modification before after, elements, later =>
    before ∈ elements ∧ later = insert after (elements \ {before})

/-- What a set of elements becomes with changes, one after another. At every moment no two elements
contribute a common identifier. -/
inductive Evolves : List Change → Set Element → Set Element → Prop
  /-- Without changes the set stays as it is. -/
  | nil {elements : Set Element} (apart : Apart elements) : Evolves [] elements elements
  /-- The first change, and then the others. -/
  | cons {change : Change} {changes : List Change} {elements middle later : Set Element}
      (apart : Apart elements) (turns : change.Turns elements middle)
      (rest : Evolves changes middle later) : Evolves (change :: changes) elements later

/-! ## Contributions under changes -/

/-- What one of several elements contributes, the others do not. -/
theorem not_contributes_of_apart (apart : Apart elements) {before : Element}
    (hbefore : before ∈ elements) (h : entry ∈ before.indexEntries) :
    ¬ Contributes (elements \ {before}) entry := by
  rintro ⟨other, ⟨hother, hne⟩, hentry⟩
  exact apart hbefore hother (Ne.symm hne) (Element.mem_contributedIds h)
    (Element.mem_contributedIds hentry)

/-- What elements contribute is contributed by one of them or by the others. -/
theorem contributes_iff_diff {before : Element} (hbefore : before ∈ elements) :
    Contributes elements entry ↔
      entry ∈ before.indexEntries ∨ Contributes (elements \ {before}) entry := by
  constructor
  · rintro ⟨element, helement, h⟩
    by_cases heq : element = before
    · exact .inl (heq ▸ h)
    · exact .inr ⟨element, ⟨helement, heq⟩, h⟩
  · rintro (h | ⟨element, helement, h⟩)
    · exact ⟨before, hbefore, h⟩
    · exact ⟨element, helement.1, h⟩

/-- What elements contribute together with one more. -/
theorem contributes_insert_iff {after : Element} :
    Contributes (insert after elements) entry ↔
      entry ∈ after.indexEntries ∨ Contributes elements entry := by
  simp [Contributes]

/-- A change leaves the entries that the elements after it contribute. -/
theorem leaves_contributes_iff {change : Change} (apart : Apart elements)
    (turns : change.Turns elements later) :
    change.Leaves entry (Contributes elements entry) ↔ Contributes later entry := by
  cases change with
  | addition after =>
    obtain rfl := turns
    simp [Change.Leaves, Change.added, Change.removed, contributes_insert_iff]
  | removal before =>
    obtain ⟨hbefore, rfl⟩ := turns
    -- What is removed no other element contributes.
    have hother : entry ∈ before.indexEntries → ¬ Contributes (elements \ {before}) entry :=
      not_contributes_of_apart apart hbefore
    simp only [Change.Leaves, Change.added, Change.removed, List.not_mem_nil, false_or,
      contributes_iff_diff hbefore]
    tauto
  | modification before after =>
    obtain ⟨hbefore, rfl⟩ := turns
    have hother : entry ∈ before.indexEntries → ¬ Contributes (elements \ {before}) entry :=
      not_contributes_of_apart apart hbefore
    simp only [Change.Leaves, Change.added, Change.removed, List.mem_filter, Bool.not_eq_true',
      List.contains_eq_mem, decide_eq_false_iff_not, contributes_insert_iff,
      contributes_iff_diff hbefore]
    tauto

/-- Changes leave the entries that the elements after them contribute. -/
theorem leaveAll_contributes_iff (evolves : Evolves changes elements later) :
    Change.LeaveAll entry changes (Contributes elements entry) ↔ Contributes later entry := by
  induction evolves with
  | nil apart => exact Iff.rfl
  | cons apart turns rest ih =>
    rw [Change.LeaveAll, propext (leaves_contributes_iff apart turns), ih]

/-- Additions leave the entries that the elements contribute. -/
theorem leaveAll_additions_iff {list : List Element} {held : Prop} :
    Change.LeaveAll entry (Change.additions list) held ↔
      (∃ element ∈ list, entry ∈ element.indexEntries) ∨ held := by
  induction list generalizing held with
  | nil => simp [Change.additions, Change.LeaveAll]
  | cons element rest ih =>
    rw [Change.additions, List.map_cons, Change.LeaveAll, ← Change.additions, ih]
    simp only [Change.Leaves, Change.added, Change.removed, List.not_mem_nil, not_false_eq_true,
      true_and, List.mem_cons, exists_eq_or_imp]
    exact or_left_comm.trans or_assoc.symm

/-! ## Indexes that describe elements -/

namespace StoredIndex

variable {stored : StoredIndex}

/-- A stored index is the one of a set of elements: a key is there exactly if some element
contributes to it, and its list has the contributed identifiers in strictly ascending order. -/
structure Describes (stored : StoredIndex) (elements : Set Element) : Prop where
  /-- The keys are those that some element contributes to. -/
  mem_iff : ∀ key, key ∈ stored ↔ ∃ id, Contributes elements (key, id)
  /-- Under a key are the identifiers that are contributed to it. -/
  ids_iff : ∀ (key : String) (ids : List ElementId), stored[key]? = some ids →
    ∀ id, id ∈ ids ↔ Contributes elements (key, id)
  /-- The identifiers are in strictly ascending order. -/
  ascending : ∀ (key : String) (ids : List ElementId), stored[key]? = some ids →
    ids.Pairwise fun a b => compare a b = .lt

/-- An index that describes elements lists what they contribute. -/
theorem Describes.lists_iff (describes : stored.Describes elements) :
    stored.Lists entry ↔ Contributes elements entry := by
  rw [Lists]
  cases hids : stored[entry.1]? with
  | some ids => exact describes.ids_iff _ _ hids _
  | none =>
    have hkey : entry.1 ∉ stored := by simp [Std.ExtTreeMap.mem_iff_isSome_getElem?, hids]
    rw [describes.mem_iff] at hkey
    exact ⟨fun h => absurd h List.not_mem_nil, fun h => absurd ⟨entry.2, h⟩ hkey⟩

/-- An index describes the elements that contribute what it lists, if its lists are ascending and
not empty. -/
theorem describes_of_lists_iff (lists : ∀ entry, stored.Lists entry ↔ Contributes elements entry)
    (sound : ∀ (key : String) (ids : List ElementId), stored[key]? = some ids →
      ids ≠ [] ∧ ids.Pairwise fun a b => compare a b = .lt) : stored.Describes elements where
  mem_iff key := by
    simp only [← lists, Lists]
    rw [Std.ExtTreeMap.mem_iff_isSome_getElem?]
    cases hids : stored[key]? with
    | some ids => simpa using List.exists_mem_of_ne_nil ids (sound key ids hids).1
    | none => simp
  ids_iff key ids hids id := by
    rw [← lists, Lists, hids]
    rfl
  ascending key ids hids := (sound key ids hids).2

/-- Changes of the elements take an index that describes them to one that does. -/
theorem Describes.afterChanges (describes : stored.Describes elements)
    (evolves : Evolves changes elements later) :
    (stored.afterChanges changes).Describes later := by
  refine describes_of_lists_iff (fun entry => ?_) fun key ids hids => ?_
  · rw [lists_afterChanges, propext describes.lists_iff, leaveAll_contributes_iff evolves]
  · by_cases h : key ∈ Change.touchedKeys changes
    · exact ascending_afterChanges h hids
    · -- The list under the key is the old one, and some element contributes to it.
      rw [getElem?_afterChanges_of_not_mem h] at hids
      refine ⟨?_, describes.ascending key ids hids⟩
      rintro rfl
      have hmem : key ∈ stored := by simp [Std.ExtTreeMap.mem_iff_isSome_getElem?, hids]
      obtain ⟨id, hid⟩ := (describes.mem_iff key).1 hmem
      exact List.not_mem_nil ((describes.ids_iff key [] hids id).2 hid)

/-- What changes make of an empty index describes elements exactly if the changes leave the entries
that the elements contribute. -/
theorem describes_afterChanges_empty_iff :
    (StoredIndex.afterChanges changes ∅).Describes elements ↔
      ∀ entry, Change.LeaveAll entry changes False ↔ Contributes elements entry := by
  have hlists (entry : IndexEntry) :
      (StoredIndex.afterChanges changes ∅).Lists entry ↔ Change.LeaveAll entry changes False := by
    rw [lists_afterChanges]
    simp [Lists]
  constructor
  · exact fun describes entry => (hlists entry).symm.trans describes.lists_iff
  · intro h
    refine describes_of_lists_iff (fun entry => (hlists entry).trans (h entry)) ?_
    intro key ids hids
    by_cases hkey : key ∈ Change.touchedKeys changes
    · exact ascending_afterChanges hkey hids
    · rw [getElem?_afterChanges_of_not_mem hkey] at hids
      simp at hids

/-- An index that is built from scratch describes the elements. -/
theorem describes_additions {list : List Element}
    (h : ∀ element, element ∈ list ↔ element ∈ elements) :
    (StoredIndex.afterChanges (Change.additions list) ∅).Describes elements := by
  refine describes_afterChanges_empty_iff.2 fun entry => ?_
  rw [leaveAll_additions_iff]
  simp [Contributes, h]

end StoredIndex

/-! ## Runs of updates -/

namespace IndexStores

variable {m : Type → Type} [Monad m] {σ : Type} (stores : IndexStores m)
  (execution : Execution m σ) (view : σ → IndexMemory)

/-- A source that returns, whenever it succeeds, just the elements of a set, and leaves the stores
alone. -/
def Supplies (execution : Execution m σ) (view : σ → IndexMemory) (source : m (List Element))
    (elements : Set Element) : Prop :=
  ∀ ⦃s list after⦄, execution.run source s = (.ok list, after) →
    view after = view s ∧ ∀ element, element ∈ list ↔ element ∈ elements

/-- One call that succeeds: the elements evolve with changes, and the stored index is updated with
them, with the elements after the changes as source. -/
def Call (start after : Set Element × σ) : Prop :=
  ∃ (source : m (List Element)) (changes : List Change) (report : IndexUpdate),
    Evolves changes start.1 after.1 ∧ Supplies execution view source after.1 ∧
      execution.run (stores.update source changes true) start.2 = (.ok report, after.2)

/-- What a store should hold for a set of elements: the version is the current one, and the index
describes the elements. -/
def UpToDate (memory : IndexMemory) (elements : Set Element) : Prop :=
  memory.versions[versionKey]? = some layoutVersion ∧ StoredIndex.Describes memory.index elements

variable {stores execution view}

/-- A call brings the stores up to date if they were, or if the version was another one. -/
theorem Call.upToDate [LawfulMonad m] (lawful : stores.Lawful execution view)
    {start after : Set Element × σ} (call : Call stores execution view start after)
    (h : (view start.2).versions[versionKey]? ≠ some layoutVersion ∨
      UpToDate (view start.2) start.1) : UpToDate (view after.2) after.1 := by
  obtain ⟨source, changes, report, evolves, supplies, hrun⟩ := call
  obtain ⟨relevant, hrelevant, hfinished⟩ :=
    lawful.of_run_update (fun _ _ _ hlist => (supplies hlist).1) hrun
  have hmemory := congrArg Prod.snd hfinished
  rcases hrelevant with ⟨hcurrent, rfl⟩ | ⟨hother, before, list, middle, hlist, rfl⟩
  · -- The version is current, so the index described the elements before the changes.
    have hdescribes := (h.resolve_left (not_not.2 hcurrent)).2
    rw [IndexMemory.needsRebuild, hcurrent] at hmemory
    simp only at hmemory
    rw [UpToDate, ← hmemory]
    exact ⟨hcurrent, hdescribes.afterChanges evolves⟩
  · -- Under another version the index is built anew, whatever was stored.
    have hrebuild : (view start.2).needsRebuild true = true := by
      simpa [IndexMemory.needsRebuild] using hother
    rw [hrebuild] at hmemory
    simp only at hmemory
    rw [UpToDate, ← hmemory]
    exact ⟨by simp [IndexMemory.finished], StoredIndex.describes_additions (supplies hlist).2⟩

/-- After every call of a run the stores are up to date, if they were at the start, or if the
version was another one. -/
theorem describes_of_calls [LawfulMonad m] (lawful : stores.Lawful execution view)
    {start after : Set Element × σ}
    (h : (view start.2).versions[versionKey]? ≠ some layoutVersion ∨
      (view start.2).versions[versionKey]? = some layoutVersion ∧
        StoredIndex.Describes (view start.2).index start.1)
    (calls : Relation.TransGen (Call stores execution view) start after) :
    (view after.2).versions[versionKey]? = some layoutVersion ∧
      StoredIndex.Describes (view after.2).index after.1 := by
  induction calls with
  | single call => exact call.upToDate lawful h
  | tail _ call ih => exact call.upToDate lawful (.inr ih)

/-- An instance that was changed at some time. -/
def stamped (name changedAt : String) : Element :=
  .ofInstance ((Instance.declare "a" "t" name []).annotate changedAtKey (.string changedAt))

/-- The instance contributes its identifier to its time, and nothing else. -/
theorem contributes_stamped_iff {name changedAt key : String} {id : ElementId} :
    Contributes {stamped name changedAt} (key, id) ↔
      key = changedAt ∧ id = .ofInstance "a" "t" name := by
  have hstamp : ChangedAt (stamped name changedAt).annotations key ↔ key = changedAt := by
    simp [ChangedAt, stamped, Element.annotations, Instance.annotate, Instance.declare, Keyed.put,
      Keyed.get?, Value.nameFragment, eq_comm]
  simp only [contributes_iff, Set.mem_singleton_iff, exists_eq_left, hstamp]
  constructor
  · rintro (⟨rfl, rfl⟩ | ⟨definition, htype, -⟩)
    · exact ⟨rfl, rfl⟩
    · cases htype
  · rintro ⟨rfl, rfl⟩
    exact .inl ⟨rfl, rfl⟩

/-- Sets with at most one element evolve by a change into one with at most one. -/
theorem evolves_of_subsingleton {change : Change} (h : elements.Subsingleton)
    (turns : change.Turns elements later) (hlater : later.Subsingleton) :
    Evolves [change] elements later :=
  .cons (h.pairwise _) turns (.nil (hlater.pairwise _))

/-- Stores in memory that are empty at first are up to date after an instance is added, and after it
is replaced by one with another name and another time. Only the new name is listed then, under the
new time. -/
theorem describes_of_calls_stamped :
    (id IndexMemory.empty).versions[versionKey]? ≠ some layoutVersion ∧
      ∃ after : IndexMemory,
        Relation.TransGen
          (Call IndexMemory.stores (Execution.inMemory IndexMemory) id)
          (∅, IndexMemory.empty) ({stamped "y" "later"}, after) ∧
        after.versions[versionKey]? = some layoutVersion ∧
        StoredIndex.Describes after.index {stamped "y" "later"} ∧
        ∀ key id, StoredIndex.Lists after.index (key, id) ↔
          key = "later" ∧ id = .ofInstance "a" "t" "y" := by
  have hversion : (id IndexMemory.empty).versions[versionKey]? ≠ some layoutVersion := by
    simp [IndexMemory.empty]
  have supplies (element : Element) : Supplies (Execution.inMemory IndexMemory) id
      (pure [element]) {element} := by
    intro s list after hrun
    rw [Execution.run_pure] at hrun
    cases hrun
    exact ⟨rfl, fun other => by simp⟩
  have hadd : Evolves [.addition (stamped "x" "first")] ∅ {stamped "x" "first"} :=
    evolves_of_subsingleton Set.subsingleton_empty (by simp [Change.Turns])
      Set.subsingleton_singleton
  have hmodify : Evolves [.modification (stamped "x" "first") (stamped "y" "later")]
      {stamped "x" "first"} {stamped "y" "later"} :=
    evolves_of_subsingleton Set.subsingleton_singleton (by simp [Change.Turns])
      Set.subsingleton_singleton
  obtain ⟨report, middle, hfirst⟩ := succeeds_update_inMemory
    (Execution.succeeds_pure [stamped "x" "first"]) [.addition (stamped "x" "first")] true
    IndexMemory.empty
  obtain ⟨report', after, hsecond⟩ := succeeds_update_inMemory
    (Execution.succeeds_pure [stamped "y" "later"])
    [.modification (stamped "x" "first") (stamped "y" "later")] true middle
  have first : Call IndexMemory.stores (Execution.inMemory IndexMemory) id
      (∅, IndexMemory.empty) ({stamped "x" "first"}, middle) :=
    ⟨_, _, report, hadd, supplies _, hfirst⟩
  have second : Call IndexMemory.stores (Execution.inMemory IndexMemory) id
      ({stamped "x" "first"}, middle) ({stamped "y" "later"}, after) :=
    ⟨_, _, report', hmodify, supplies _, hsecond⟩
  have calls := Relation.TransGen.tail (.single first) second
  obtain ⟨hcurrent, hdescribes⟩ := describes_of_calls lawful_inMemory (.inl hversion) calls
  exact ⟨hversion, after, calls, hcurrent, hdescribes, fun _ _ =>
    hdescribes.lists_iff.trans contributes_stamped_iff⟩

end IndexStores

end ElementCatalog
