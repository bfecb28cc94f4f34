import ElementCatalog.ChangedAt.Entries
import Mathlib.Tactic.Tauto

/-!
# What changes do to an index

The entries of an element pair its own identifier and those of its fields with the texts of their
annotations `_changed_at` (`Element.mem_indexEntries_iff`).

An index in memory holds entries, each a key with an identifier (`ChangeIndex.Holds`). A change adds
some entries and removes others, and leaves all else alone. So whether an entry is held after
changes depends only on whether it was held before, and on the changes (`ChangeIndex.holds_foldl`).
-/

namespace ElementCatalog

/-! ## The entries of an element -/

/-- Annotations have a value under `_changed_at` that is not `null`, and the key is its text. -/
def ChangedAt (annotations : ValueMap) (key : String) : Prop :=
  ∃ value, Keyed.get? annotations changedAtKey = some value ∧ value ≠ .null ∧
    value.nameFragment = key

/-- The key that annotations give is the text of their value under `_changed_at`. -/
theorem changedAt?_eq_some_iff {annotations : ValueMap} {key : String} :
    changedAt? annotations = some key ↔ ChangedAt annotations key := by
  rw [changedAt?, ChangedAt]
  split
  · next hmissing => simp [hmissing]
  · next hnull => simp [hnull]
  · next value hne hvalue =>
    rw [hvalue, Option.some_inj]
    constructor
    · rintro rfl
      exact ⟨value, rfl, hne, rfl⟩
    · rintro ⟨_, hsome, -, rfl⟩
      rw [Option.some.inj hsome]

/-- The entries of an element are its identifier under the text of its own annotation and, if it is
a type, the identifiers of its fields under the texts of theirs. -/
theorem Element.mem_indexEntries_iff {element : Element} {key : String} {id : ElementId} :
    (key, id) ∈ element.indexEntries ↔
      element.id = id ∧ ChangedAt element.annotations key ∨
        ∃ definition, element = .ofType definition ∧
          ∃ name field, (name, field) ∈ definition.fields ∧
            field.id = id ∧ ChangedAt field.annotations key := by
  have hentry (annotations : ValueMap) (other : ElementId) :
      (changedAt? annotations).map (·, other) = some (key, id) ↔
        other = id ∧ ChangedAt annotations key := by
    rw [Option.map_eq_some_iff, ← changedAt?_eq_some_iff]
    constructor
    · rintro ⟨_, hkey, heq⟩
      obtain ⟨rfl, rfl⟩ := Prod.mk.inj heq
      exact ⟨rfl, hkey⟩
    · rintro ⟨rfl, hkey⟩
      exact ⟨key, hkey, rfl⟩
  cases element with
  | ofInstance contents =>
    simp only [indexEntries, List.nil_append, Option.mem_toList, hentry, reduceCtorEq, false_and,
      exists_false, or_false]
  | ofType definition =>
    simp only [indexEntries, List.mem_append, List.mem_filterMap, Option.mem_toList, Prod.exists,
      FieldDefinition.indexEntry?, hentry, Element.ofType.injEq, exists_eq_left']
    exact or_comm

/-! ## The entries of changes -/

namespace Change

/-- The entries that a change adds: those of the new state that the old state does not have. -/
def added : Change → List IndexEntry
  | addition after => after.indexEntries
  | removal _ => []
  | modification before after =>
    after.indexEntries.filter fun entry => !before.indexEntries.contains entry

/-- The entries that a change removes: those of the old state that the new state does not have. -/
def removed : Change → List IndexEntry
  | addition _ => []
  | removal before => before.indexEntries
  | modification before after =>
    before.indexEntries.filter fun entry => !after.indexEntries.contains entry

/-- Whether an entry is held after a change, given whether it was before. -/
def Leaves (change : Change) (entry : IndexEntry) (held : Prop) : Prop :=
  entry ∈ change.added ∨ entry ∉ change.removed ∧ held

/-- Whether an entry is held after changes, given whether it was before. -/
def LeaveAll (entry : IndexEntry) : List Change → Prop → Prop
  | [], held => held
  | change :: rest, held => LeaveAll entry rest (change.Leaves entry held)

/-- A change adds and removes entries of the states before and after it. -/
theorem mem_indexEntries_of_mem_added_or_removed {change : Change} {entry : IndexEntry}
    (h : entry ∈ change.added ∨ entry ∈ change.removed) : entry ∈ change.indexEntries := by
  cases change with
  | addition after => simpa [added, removed, indexEntries, before?, after?] using h
  | removal before => simpa [added, removed, indexEntries, before?, after?] using h
  | modification before after =>
    simp only [added, removed, List.mem_filter] at h
    simp only [indexEntries, before?, after?, Option.toList_some, List.cons_append,
      List.nil_append, List.flatMap_cons, List.flatMap_nil, List.append_nil, List.mem_append]
    exact h.elim (fun h => .inr h.1) fun h => .inl h.1

/-- The touched keys are those of the entries of the states before and after the changes. -/
theorem mem_touchedKeys_iff {changes : List Change} {key : String} :
    key ∈ touchedKeys changes ↔ ∃ change ∈ changes, ∃ id, (key, id) ∈ change.indexEntries := by
  rw [touchedKeys, Std.ExtTreeSet.mem_toList, Std.ExtTreeSet.mem_ofList, List.contains_iff_mem]
  simp only [List.mem_map, List.mem_flatMap]
  constructor
  · rintro ⟨⟨_, id⟩, ⟨change, hchange, h⟩, rfl⟩
    exact ⟨change, hchange, id, h⟩
  · rintro ⟨change, hchange, id, h⟩
    exact ⟨(key, id), ⟨change, hchange, h⟩, rfl⟩

/-- Changes leave an entry alone if its key is not touched. -/
theorem leaveAll_iff_of_not_mem {changes : List Change} {entry : IndexEntry} {held : Prop}
    (h : entry.1 ∉ touchedKeys changes) : LeaveAll entry changes held ↔ held := by
  induction changes generalizing held with
  | nil => exact Iff.rfl
  | cons change rest ih =>
    -- Neither the first change nor the others concern the entry.
    have hchange : ¬ (entry ∈ change.added ∨ entry ∈ change.removed) := fun hmem =>
      h (mem_touchedKeys_iff.2 ⟨change, List.mem_cons_self, entry.2,
        mem_indexEntries_of_mem_added_or_removed hmem⟩)
    have hrest : entry.1 ∉ touchedKeys rest := fun hmem => by
      obtain ⟨other, hother, hid⟩ := mem_touchedKeys_iff.1 hmem
      exact h (mem_touchedKeys_iff.2 ⟨other, List.mem_cons_of_mem _ hother, hid⟩)
    rw [LeaveAll, ih hrest, Leaves]
    tauto

/-- An entry that changes leave was added by one of them, or was held before. -/
theorem exists_added_or_of_leaveAll {changes : List Change} {entry : IndexEntry} {held : Prop}
    (h : LeaveAll entry changes held) : (∃ change ∈ changes, entry ∈ change.added) ∨ held := by
  induction changes generalizing held with
  | nil => exact .inr h
  | cons change rest ih =>
    rcases ih h with ⟨other, hother, hadded⟩ | hadded | ⟨-, hheld⟩
    · exact .inl ⟨other, List.mem_cons_of_mem _ hother, hadded⟩
    · exact .inl ⟨change, List.mem_cons_self, hadded⟩
    · exact .inr hheld

/-- Changes leave an entry if they add it last, or if it was held and they do not remove it. -/
theorem leaveAll_iff_or {changes : List Change} {entry : IndexEntry} (held : Prop) :
    LeaveAll entry changes held ↔
      LeaveAll entry changes False ∨ LeaveAll entry changes True ∧ held := by
  induction changes generalizing held with
  | nil => simp [LeaveAll]
  | cons change rest ih =>
    simp only [LeaveAll]
    rw [ih, ih (change.Leaves entry False), ih (change.Leaves entry True)]
    simp only [Leaves]
    tauto

/-- Changes that are made twice leave what they leave when they are made once. -/
theorem leaveAll_leaveAll {changes : List Change} {entry : IndexEntry} {held : Prop} :
    LeaveAll entry changes (LeaveAll entry changes held) ↔ LeaveAll entry changes held := by
  -- What is left where it was not held is left where it was held, too.
  have hmono : LeaveAll entry changes False → LeaveAll entry changes True := fun h =>
    (leaveAll_iff_or True).2 (.inl h)
  rw [leaveAll_iff_or (LeaveAll entry changes held), leaveAll_iff_or held]
  tauto

/-- No key is touched twice. -/
theorem nodup_touchedKeys (changes : List Change) : (touchedKeys changes).Nodup :=
  Std.ExtTreeSet.distinct_toList.imp fun h heq => h (by rw [heq]; exact Std.ReflCmp.compare_self)

end Change

/-! ## The entries of an index in memory -/

namespace ChangeIndex

variable {index : ChangeIndex} {key : String} {entry added removed : IndexEntry}

/-- An index holds an entry if the identifier is listed under the key. -/
def Holds (index : ChangeIndex) (entry : IndexEntry) : Prop :=
  entry.2 ∈ index[entry.1]?.getD ∅

/-- An entry that is added is held, together with those that were. -/
theorem holds_addEntry :
    (index.addEntry added).Holds entry ↔ entry = added ∨ index.Holds entry := by
  obtain ⟨key, id⟩ := entry
  obtain ⟨addedKey, addedId⟩ := added
  by_cases hkey : addedKey = key
  · subst hkey
    simp [Holds, addEntry, eq_comm (a := id)]
  · simp [Holds, addEntry, Std.ExtTreeMap.getElem?_insert, hkey, Ne.symm hkey]

/-- An entry that is removed is not held any more, and the others are. -/
theorem holds_removeEntry :
    (index.removeEntry removed).Holds entry ↔ entry ≠ removed ∧ index.Holds entry := by
  obtain ⟨key, id⟩ := entry
  obtain ⟨removedKey, removedId⟩ := removed
  cases hids : index[removedKey]? with
  | none =>
    -- Nothing is listed under the key, so the index stays as it is.
    by_cases hkey : removedKey = key
    · subst hkey
      simp [Holds, removeEntry, hids]
    · simp [Holds, removeEntry, hids, Ne.symm hkey]
  | some ids =>
    by_cases hkey : removedKey = key
    · subst hkey
      simp [Holds, removeEntry, hids, eq_comm (a := id)]
    · simp [Holds, removeEntry, hids, Std.ExtTreeMap.getElem?_insert, hkey, Ne.symm hkey]

/-- Entries that are added are held, together with those that were. -/
theorem holds_add {entries : List IndexEntry} :
    (index.add entries).Holds entry ↔ entry ∈ entries ∨ index.Holds entry := by
  induction entries generalizing index with
  | nil => simp [add]
  | cons added rest ih =>
    rw [add, List.foldl_cons, ← add, ih, holds_addEntry, List.mem_cons]
    tauto

/-- Entries that are removed are not held any more, and the others are. -/
theorem holds_remove {entries : List IndexEntry} :
    (index.remove entries).Holds entry ↔ entry ∉ entries ∧ index.Holds entry := by
  induction entries generalizing index with
  | nil => simp [remove]
  | cons removed rest ih =>
    rw [remove, List.foldl_cons, ← remove, ih, holds_removeEntry, List.mem_cons]
    tauto

/-- A change removes some entries, and then adds others. -/
theorem apply_eq (index : ChangeIndex) (change : Change) :
    index.apply change = (index.remove change.removed).add change.added := by
  cases change <;> rfl

/-- What is held after a change. -/
theorem holds_apply {change : Change} :
    (index.apply change).Holds entry ↔ change.Leaves entry (index.Holds entry) := by
  rw [apply_eq, holds_add, holds_remove, Change.Leaves]

/-- What is held after changes. -/
theorem holds_foldl {changes : List Change} :
    (changes.foldl apply index).Holds entry ↔
      Change.LeaveAll entry changes (index.Holds entry) := by
  induction changes generalizing index with
  | nil => exact Iff.rfl
  | cons change rest ih =>
    rw [List.foldl_cons, ih, Change.LeaveAll]
    simp only [holds_apply]

/-! ## Keys -/

/-- The keys after an entry is added. -/
theorem mem_addEntry : key ∈ index.addEntry added ↔ key = added.1 ∨ key ∈ index := by
  simp [addEntry, eq_comm (a := key)]

/-- The keys after an entry is removed. -/
theorem mem_removeEntry : key ∈ index.removeEntry removed ↔ key ∈ index := by
  rw [removeEntry]
  split
  · next ids h =>
    -- The key stays even if no identifier is left under it.
    simp only [Std.ExtTreeMap.mem_insert, Std.compare_eq_iff_eq, or_iff_right_iff_imp]
    rintro rfl
    rw [Std.ExtTreeMap.mem_iff_isSome_getElem?, h, Option.isSome_some]
  · exact Iff.rfl

/-- The keys after a change are those before it and those of the entries that it adds. -/
theorem mem_apply {change : Change} :
    key ∈ index.apply change ↔ (∃ id, (key, id) ∈ change.added) ∨ key ∈ index := by
  have hadd {index : ChangeIndex} {entries : List IndexEntry} :
      key ∈ index.add entries ↔ (∃ id, (key, id) ∈ entries) ∨ key ∈ index := by
    induction entries generalizing index with
    | nil => simp [add]
    | cons added rest ih =>
      rw [add, List.foldl_cons, ← add, ih, mem_addEntry]
      simp only [List.mem_cons, Prod.ext_iff, exists_or, exists_and_left, exists_eq, and_true]
      tauto
  have hremove {index : ChangeIndex} {entries : List IndexEntry} :
      key ∈ index.remove entries ↔ key ∈ index := by
    induction entries generalizing index with
    | nil => rfl
    | cons removed rest ih => rw [remove, List.foldl_cons, ← remove, ih, mem_removeEntry]
  rw [apply_eq, hadd, hremove]

/-- Changes add only touched keys, and remove none. -/
theorem mem_foldl {changes : List Change} :
    (key ∈ index → key ∈ changes.foldl apply index) ∧
      (key ∈ changes.foldl apply index → key ∈ index ∨ key ∈ Change.touchedKeys changes) := by
  induction changes generalizing index with
  | nil => exact ⟨id, .inl⟩
  | cons change rest ih =>
    rw [List.foldl_cons]
    refine ⟨fun h => ih.1 (mem_apply.2 (.inr h)), fun h => ?_⟩
    rcases ih.2 h with h | h
    · rcases mem_apply.1 h with ⟨id, h⟩ | h
      · exact .inr (Change.mem_touchedKeys_iff.2 ⟨change, List.mem_cons_self, id,
          Change.mem_indexEntries_of_mem_added_or_removed (.inl h)⟩)
      · exact .inl h
    · obtain ⟨other, hother, hid⟩ := Change.mem_touchedKeys_iff.1 h
      exact .inr (Change.mem_touchedKeys_iff.2 ⟨other, List.mem_cons_of_mem _ hother, hid⟩)

/-- The keys after changes are those before them and those of the entries that some change adds. -/
theorem mem_foldl_iff {changes : List Change} :
    key ∈ changes.foldl apply index ↔
      key ∈ index ∨ ∃ change ∈ changes, ∃ id, (key, id) ∈ change.added := by
  induction changes generalizing index with
  | nil => simp
  | cons change rest ih =>
    rw [List.foldl_cons, ih, mem_apply]
    simp only [List.mem_cons, exists_eq_or_imp]
    tauto

/-- Two indexes agree on a key that both have or lack, if they hold the same entries there. -/
theorem getElem?_eq_of_forall {other : ChangeIndex} (hkey : key ∈ index ↔ key ∈ other)
    (hholds : ∀ id, index.Holds (key, id) ↔ other.Holds (key, id)) : index[key]? = other[key]? := by
  simp only [Holds] at hholds
  rw [Std.ExtTreeMap.mem_iff_isSome_getElem?, Std.ExtTreeMap.mem_iff_isSome_getElem?] at hkey
  cases hi : index[key]? with
  | none =>
    rw [hi] at hkey
    exact (Option.not_isSome_iff_eq_none.1 fun h => Bool.false_ne_true (hkey.2 h)).symm
  | some ids =>
    rw [hi] at hkey
    obtain ⟨ids', hids'⟩ := Option.isSome_iff_exists.1 (hkey.1 rfl)
    simp only [hi, hids', Option.getD_some] at hholds
    rw [hids', Std.ExtTreeSet.ext_mem fun {id} => hholds id]

end ChangeIndex

end ElementCatalog
