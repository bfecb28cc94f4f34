import ElementCatalog.ChangedAt.Update
import ElementCatalog.Proofs.ChangedAt.Entries
import ElementCatalog.Proofs.Store.Contents
import Mathlib.Data.List.Basic

/-!
# What changes do to a stored index

A stored index lists identifiers under keys. Changes read the touched keys, and write them back, or
delete those that have no identifiers left (`StoredIndex.afterChanges`). The entries after it are
those that the changes leave (`StoredIndex.lists_afterChanges`), each touched key has a non-empty
ascending list or none (`StoredIndex.ascending_afterChanges`), and no other key changes
(`StoredIndex.getElem?_afterChanges_of_not_mem`).
-/

namespace ElementCatalog

/-- Lists of identifiers under keys, as an index is stored. -/
abbrev StoredIndex := Std.ExtTreeMap String (List ElementId)

namespace StoredIndex

variable {stored : StoredIndex} {updated : ChangeIndex} {changes : List Change} {key : String}
  {ids : List ElementId}

/-- A stored index lists an entry if the identifier is in the list under the key. -/
def Lists (stored : StoredIndex) (entry : IndexEntry) : Prop :=
  entry.2 ∈ stored[entry.1]?.getD []

/-- The entries under some keys, as an index in memory. -/
def readAt (stored : StoredIndex) (keys : List String) : ChangeIndex :=
  IndexStores.indexOf keys (keys.map fun key => stored[key]?)

/-- The touched part of the index after changes. -/
def updatedPart (changes : List Change) (stored : StoredIndex) : ChangeIndex :=
  changes.foldl ChangeIndex.apply (stored.readAt (Change.touchedKeys changes))

/-- The stored index with the keys of an index in memory written that have identifiers. -/
def fill (updated : ChangeIndex) (stored : StoredIndex) : StoredIndex :=
  Store.insertAll
    ((updated.toList.filter fun (_, ids) => !ids.isEmpty).map fun (key, ids) =>
      (key, ids.toList)) stored

/-- The stored index with the keys of an index in memory written back. Keys without identifiers are
deleted. -/
def commit (updated : ChangeIndex) (stored : StoredIndex) : StoredIndex :=
  Store.eraseAll ((updated.toList.filter fun (_, ids) => ids.isEmpty).map Prod.fst)
    (Store.insertAll
      ((updated.toList.filter fun (_, ids) => !ids.isEmpty).map fun (key, ids) =>
        (key, ids.toList)) stored)

/-- The stored index after changes. -/
def afterChanges (changes : List Change) (stored : StoredIndex) : StoredIndex :=
  commit (updatedPart changes stored) stored

/-- The list that a set of identifiers is stored as. An empty set is not stored. -/
def listing (ids : Std.ExtTreeSet ElementId) : Option (List ElementId) :=
  if ids.isEmpty then none else some ids.toList

/-! ## Reading and writing -/

/-- Keys of which no two are equal are distinct in the order of keys. -/
private theorem distinct_of_nodup {β : Type} {entries : List (String × β)}
    (h : (entries.map Prod.fst).Nodup) :
    entries.Pairwise fun a b => ¬ compare a.1 b.1 = .eq :=
  (List.pairwise_map.1 h).imp fun hne heq => hne (Std.LawfulEqCmp.eq_of_compare heq)

/-- The keys of a map are distinct. -/
private theorem nodup_keys {β : Type} (map : Std.ExtTreeMap String β) :
    (map.toList.map Prod.fst).Nodup :=
  List.pairwise_map.2 (map.distinct_keys_toList.imp fun h heq => h (Std.compare_eq_iff_eq.2 heq))

/-- The entries that are read at some keys. -/
private theorem readAt_eq (stored : StoredIndex) (keys : List String) :
    stored.readAt keys = .ofList (keys.filterMap fun key =>
      stored[key]?.map fun ids => (key, Std.ExtTreeSet.ofList ids)) := by
  rw [readAt, IndexStores.indexOf]
  congr 1
  induction keys with
  | nil => rfl
  | cons key rest ih => simp only [List.map_cons, List.zip_cons_cons, List.filterMap_cons, ih]

/-- What is read under a key is what is stored there, if the key is read at all. -/
theorem getElem?_readAt {keys : List String} (distinct : keys.Nodup) :
    (stored.readAt keys)[key]? =
      if key ∈ keys then stored[key]?.map fun ids => .ofList ids else none := by
  -- The keys that are read are those with something stored under them.
  have hkeys : (keys.filterMap fun key =>
      stored[key]?.map fun ids => (key, Std.ExtTreeSet.ofList ids)).map Prod.fst =
      keys.filter fun key => stored[key]?.isSome := by
    rw [List.map_filterMap, ← List.filterMap_eq_filter]
    refine List.filterMap_congr fun key _ => ?_
    cases hids : stored[key]? <;> simp [Option.guard, hids]
  rw [readAt_eq]
  split
  · next hkey =>
    cases hids : stored[key]? with
    | some ids =>
      refine Std.ExtTreeMap.getElem?_ofList_of_mem Std.ReflCmp.compare_self
        (distinct_of_nodup ?_) ?_
      · rw [hkeys]
        exact distinct.filter _
      · exact List.mem_filterMap.2 ⟨key, hkey, by rw [hids]; rfl⟩
    | none =>
      refine Std.ExtTreeMap.getElem?_ofList_of_contains_eq_false ?_
      rw [hkeys, List.contains_eq_mem, decide_eq_false_iff_not]
      exact fun h => by simpa [hids] using (List.mem_filter.1 h).2
  · next hkey =>
    refine Std.ExtTreeMap.getElem?_ofList_of_contains_eq_false ?_
    rw [hkeys]
    simp [hkey]

/-- What is stored under a key once the filled keys are written. -/
theorem getElem?_fill :
    (fill updated stored)[key]? =
      match updated[key]? with
      | some ids => if ids.isEmpty then stored[key]? else some ids.toList
      | none => stored[key]? := by
  have hfilled : ((updated.toList.filter fun (_, ids) => !ids.isEmpty).map fun (key, ids) =>
        (key, ids.toList)).map Prod.fst =
      (updated.toList.filter fun (_, ids) => !ids.isEmpty).map Prod.fst := by
    rw [List.map_map]
    rfl
  -- A key is written exactly if identifiers are left under it.
  have hwritten : key ∈ (updated.toList.filter fun (_, ids) => !ids.isEmpty).map Prod.fst ↔
      ∃ ids, updated[key]? = some ids ∧ ids.isEmpty = false := by
    constructor
    · intro h
      obtain ⟨⟨key, ids⟩, hentry, rfl⟩ := List.mem_map.1 h
      obtain ⟨hentry, hempty⟩ := List.mem_filter.1 hentry
      exact ⟨ids, Std.ExtTreeMap.mem_toList_iff_getElem?_eq_some.1 hentry, by simpa using hempty⟩
    · rintro ⟨ids, hids, hempty⟩
      exact List.mem_map.2 ⟨(key, ids), List.mem_filter.2
        ⟨Std.ExtTreeMap.mem_toList_iff_getElem?_eq_some.2 hids, by simp [hempty]⟩, rfl⟩
  rw [fill]
  cases hids : updated[key]? with
  | none =>
    refine Store.getElem?_insertAll_of_not_mem ?_
    rw [hfilled, hwritten]
    simp [hids]
  | some ids =>
    by_cases hempty : ids.isEmpty = true
    · simp only [if_pos hempty]
      refine Store.getElem?_insertAll_of_not_mem ?_
      rw [hfilled, hwritten]
      rintro ⟨ids', hids', hfull⟩
      obtain rfl := Option.some.inj (hids.symm.trans hids')
      simp [hempty] at hfull
    · simp only [if_neg hempty]
      refine Store.getElem?_insertAll_of_mem ?_ ?_
      · rw [hfilled]
        exact (nodup_keys updated).sublist (List.filter_sublist.map _)
      · have hentry : (key, ids) ∈ updated.toList.filter fun (_, ids) => !ids.isEmpty :=
          List.mem_filter.2 ⟨Std.ExtTreeMap.mem_toList_iff_getElem?_eq_some.2 hids,
            by simpa using hempty⟩
        exact List.mem_map.2 ⟨(key, ids), hentry, rfl⟩

/-- What is stored under a key after writing back. -/
theorem getElem?_commit :
    (commit updated stored)[key]? =
      match updated[key]? with
      | some ids => listing ids
      | none => stored[key]? := by
  -- A key is deleted exactly if it is there without identifiers.
  have hemptied : key ∈ (updated.toList.filter fun (_, ids) => ids.isEmpty).map Prod.fst ↔
      ∃ ids, updated[key]? = some ids ∧ ids.isEmpty = true := by
    constructor
    · intro h
      obtain ⟨⟨key, ids⟩, hentry, rfl⟩ := List.mem_map.1 h
      obtain ⟨hentry, hempty⟩ := List.mem_filter.1 hentry
      exact ⟨ids, Std.ExtTreeMap.mem_toList_iff_getElem?_eq_some.1 hentry, hempty⟩
    · rintro ⟨ids, hids, hempty⟩
      exact List.mem_map.2 ⟨(key, ids), List.mem_filter.2
        ⟨Std.ExtTreeMap.mem_toList_iff_getElem?_eq_some.2 hids, hempty⟩, rfl⟩
  rw [commit, ← fill, Store.getElem?_eraseAll, getElem?_fill]
  cases hids : updated[key]? with
  | none => rw [if_neg fun h => by simpa [hids] using hemptied.1 h]
  | some ids =>
    by_cases hempty : ids.isEmpty = true
    · rw [if_pos (hemptied.2 ⟨ids, hids, hempty⟩)]
      simp only [listing, if_pos hempty]
    · rw [if_neg fun h => hempty (by simpa [hids] using hemptied.1 h)]
      simp only [listing, if_neg hempty]

/-! ## Changes -/

/-- A key that is not touched is not in the part of the index that is updated. -/
theorem getElem?_afterChanges_of_not_mem (h : key ∉ Change.touchedKeys changes) :
    (stored.afterChanges changes)[key]? = stored[key]? := by
  have hread : key ∉ stored.readAt (Change.touchedKeys changes) := by
    rw [Std.ExtTreeMap.mem_iff_isSome_getElem?, getElem?_readAt (Change.nodup_touchedKeys changes),
      if_neg h]
    exact Bool.false_ne_true
  have hupdated : key ∉ updatedPart changes stored := fun hmem =>
    (ChangeIndex.mem_foldl.2 hmem).elim hread h
  rw [afterChanges, getElem?_commit, Std.ExtTreeMap.getElem?_eq_none hupdated]

/-- Under a touched key stands the list of the identifiers that the changes leave there. -/
theorem getElem?_afterChanges_of_mem (h : key ∈ Change.touchedKeys changes) :
    (stored.afterChanges changes)[key]? = listing ((updatedPart changes stored)[key]?.getD ∅) := by
  rw [afterChanges, getElem?_commit]
  cases hupdated : (updatedPart changes stored)[key]? with
  | some ids => rfl
  | none =>
    -- A key that is read stays in the part, so nothing was stored under this one.
    have hmem : key ∉ stored.readAt (Change.touchedKeys changes) := fun hmem => by
      have hkey : key ∈ updatedPart changes stored := ChangeIndex.mem_foldl.1 hmem
      rw [Std.ExtTreeMap.mem_iff_isSome_getElem?, hupdated] at hkey
      cases hkey
    rw [Std.ExtTreeMap.mem_iff_isSome_getElem?, getElem?_readAt (Change.nodup_touchedKeys changes),
      if_pos h] at hmem
    simpa [listing] using hmem

/-- Whether an entry of a touched key is held by the part of the index that is updated. -/
theorem holds_updatedPart {entry : IndexEntry} (h : entry.1 ∈ Change.touchedKeys changes) :
    (updatedPart changes stored).Holds entry ↔
      Change.LeaveAll entry changes (stored.Lists entry) := by
  have hread : (stored.readAt (Change.touchedKeys changes)).Holds entry ↔ stored.Lists entry := by
    rw [ChangeIndex.Holds, getElem?_readAt (Change.nodup_touchedKeys changes), if_pos h, Lists]
    cases stored[entry.1]? <;> simp
  rw [updatedPart, ChangeIndex.holds_foldl, hread]

/-- The entries after changes are those that the changes leave. -/
theorem lists_afterChanges {entry : IndexEntry} :
    (stored.afterChanges changes).Lists entry ↔
      Change.LeaveAll entry changes (stored.Lists entry) := by
  by_cases h : entry.1 ∈ Change.touchedKeys changes
  · rw [← holds_updatedPart h, Lists, getElem?_afterChanges_of_mem h, ChangeIndex.Holds, listing]
    split
    · next hempty => simp [Std.ExtTreeSet.isEmpty_iff.1 hempty]
    · simp
  · rw [Lists, getElem?_afterChanges_of_not_mem h, ← Lists, Change.leaveAll_iff_of_not_mem h]

/-- A touched key has a list of identifiers in ascending order, or nothing. -/
theorem ascending_afterChanges (h : key ∈ Change.touchedKeys changes)
    (hids : (stored.afterChanges changes)[key]? = some ids) :
    ids ≠ [] ∧ ids.Pairwise fun a b => compare a b = .lt := by
  rw [getElem?_afterChanges_of_mem h, listing] at hids
  split at hids
  · cases hids
  · next hne =>
    obtain rfl := Option.some.inj hids
    exact ⟨fun h => hne (Std.ExtTreeSet.isEmpty_iff.2 (Std.ExtTreeSet.toList_eq_nil_iff.1 h)),
      Std.ExtTreeSet.ordered_toList⟩

/-! ## A batch that stops halfway -/

/-- The stored index when the changes have written keys, but have not deleted any. -/
def halfway (changes : List Change) (stored : StoredIndex) : StoredIndex :=
  fill (updatedPart changes stored) stored

/-- A key is updated if it is touched and stored, or if some change adds to it. -/
theorem mem_updatedPart_iff :
    key ∈ updatedPart changes stored ↔
      key ∈ Change.touchedKeys changes ∧ key ∈ stored ∨
        ∃ change ∈ changes, ∃ id, (key, id) ∈ change.added := by
  have hread : key ∈ stored.readAt (Change.touchedKeys changes) ↔
      key ∈ Change.touchedKeys changes ∧ key ∈ stored := by
    rw [Std.ExtTreeMap.mem_iff_isSome_getElem?, Std.ExtTreeMap.mem_iff_isSome_getElem?,
      getElem?_readAt (Change.nodup_touchedKeys changes)]
    by_cases h : key ∈ Change.touchedKeys changes <;> simp [h]
  rw [updatedPart, ChangeIndex.mem_foldl_iff, hread]

/-- An updated key is touched. -/
theorem mem_touchedKeys_of_mem_updatedPart (h : key ∈ updatedPart changes stored) :
    key ∈ Change.touchedKeys changes := by
  rcases mem_updatedPart_iff.1 h with h | ⟨change, hchange, id, hid⟩
  · exact h.1
  · exact Change.mem_touchedKeys_iff.2 ⟨change, hchange, id,
      Change.mem_indexEntries_of_mem_added_or_removed (.inl hid)⟩

/-- Halfway, the same keys are updated. -/
theorem mem_updatedPart_halfway :
    key ∈ updatedPart changes (stored.halfway changes) ↔ key ∈ updatedPart changes stored := by
  have hstored : key ∈ stored.halfway changes → key ∈ stored ∨ key ∈ updatedPart changes stored := by
    simp only [Std.ExtTreeMap.mem_iff_isSome_getElem?, halfway, getElem?_fill]
    cases (updatedPart changes stored)[key]? <;> simp
  have hkept : key ∈ stored → key ∈ stored.halfway changes := by
    simp only [Std.ExtTreeMap.mem_iff_isSome_getElem?, halfway, getElem?_fill]
    cases (updatedPart changes stored)[key]? with
    | none => exact id
    | some ids => by_cases h : ids.isEmpty = true <;> simp [h]
  constructor
  · intro h
    rcases mem_updatedPart_iff.1 h with ⟨htouched, h⟩ | hadded
    · exact (hstored h).elim (fun h => mem_updatedPart_iff.2 (.inl ⟨htouched, h⟩)) id
    · exact mem_updatedPart_iff.2 (.inr hadded)
  · intro h
    rcases mem_updatedPart_iff.1 h with ⟨htouched, h⟩ | hadded
    · exact mem_updatedPart_iff.2 (.inl ⟨htouched, hkept h⟩)
    · exact mem_updatedPart_iff.2 (.inr hadded)

/-- Halfway, an entry is listed if it was, or if the changes leave it: which one depends on whether
its key is written already. -/
theorem lists_halfway (stored : StoredIndex) {entry : IndexEntry}
    (h : entry.1 ∈ Change.touchedKeys changes) :
    ((stored.halfway changes).Lists entry ↔ stored.Lists entry) ∨
      ((stored.halfway changes).Lists entry ↔
        Change.LeaveAll entry changes (stored.Lists entry)) := by
  rw [← holds_updatedPart h]
  simp only [Lists, ChangeIndex.Holds, halfway, getElem?_fill]
  cases (updatedPart changes stored)[entry.1]? with
  | none => exact .inl Iff.rfl
  | some ids =>
    by_cases hempty : ids.isEmpty = true
    · simp [hempty]
    · simp [hempty]

/-- Changes that are made again after they stopped halfway make the same of the touched keys. -/
theorem updatedPart_halfway :
    updatedPart changes (stored.halfway changes) = updatedPart changes stored := by
  refine Std.ExtTreeMap.ext_getElem? fun key => ?_
  by_cases h : key ∈ updatedPart changes stored
  · have htouched := mem_touchedKeys_of_mem_updatedPart h
    refine ChangeIndex.getElem?_eq_of_forall mem_updatedPart_halfway fun id => ?_
    rw [holds_updatedPart htouched, holds_updatedPart htouched]
    have hlisted : (key, id).1 ∈ Change.touchedKeys changes := htouched
    rcases lists_halfway stored hlisted with hlists | hlists
    · rw [hlists]
    -- What the changes left already they leave again.
    · rw [hlists, Change.leaveAll_leaveAll]
  · rw [Std.ExtTreeMap.getElem?_eq_none h,
      Std.ExtTreeMap.getElem?_eq_none fun hmem => h (mem_updatedPart_halfway.1 hmem)]

/-- Changes that are made again after they stopped halfway leave the same stored index. -/
theorem afterChanges_halfway :
    (stored.halfway changes).afterChanges changes = stored.afterChanges changes := by
  refine Std.ExtTreeMap.ext_getElem? fun key => ?_
  rw [afterChanges, afterChanges, updatedPart_halfway, getElem?_commit, getElem?_commit]
  cases hids : (updatedPart changes stored)[key]? with
  | some ids => rfl
  | none => simp only [halfway, getElem?_fill, hids]

end StoredIndex

end ElementCatalog
