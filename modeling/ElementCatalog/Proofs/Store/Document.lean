import ElementCatalog.ChangedAt.OnFile
import ElementCatalog.Proofs.Reading.Record
import ElementCatalog.Proofs.Store.Contents

/-!
# Entries in documents

The entries of a store read back from the document that is written for them
(`Store.entriesOfText_textOfEntries`), if each value reads back from what the codec writes for it
(`Codec.ReadsBack`). The lists of identifiers and the versions of an index do: an identifier that is
the one with its full name, and a number that fits 32 bits.
-/

namespace ElementCatalog

/-- An integer within the bounds is written as a number. -/
theorem Json.ofNat_of_bounds {n : Nat}
    (bounds : Number.leastInt ≤ (n : Int) ∧ (n : Int) < Number.intBound) :
    Json.ofNat n = .number (.int n bounds) := by
  have hint : Number.ofInt? n = some (.int n bounds) := by
    unfold Number.ofInt?
    exact dif_pos bounds
  unfold Json.ofNat
  rw [hint]
  rfl

namespace Codec

variable {α : Type} {codec : Codec α}

/-- A value reads back from the tree that is written for it, inside of at least one container. -/
def ReadsBack (codec : Codec α) (value : α) : Prop :=
  ∀ room : Nat, codec.read (room + 1) (codec.write value).toDraft = .ok value

theorem readsBack_ids {list : List ElementId}
    (h : ∀ id ∈ list, ElementId.parse id.fullName = .ok id) : ids.ReadsBack list := by
  intro room
  have hread (id : ElementId) (hid : id ∈ list) :
      Json.Draft.elementId id.toJson.toDraft = .ok id := by
    have htext : ElementId.ofText id.fullName = .ok id := by
      rw [ElementId.ofText, h id hid]
      rfl
    rw [ElementId.toJson, Json.toDraft, Json.Draft.elementId, Json.Draft.string]
    simp only [bind, Except.bind, htext, Read.ofShape, Except.mapError]
  have hitems : ids.read (room + 1) (ids.write list).toDraft = .ok (list.map id) :=
    Json.Draft.items_toDraft hread
  rwa [List.map_id] at hitems

theorem readsBack_version {number : Nat} (h : number < 0x100000000) :
    version.ReadsBack number := by
  have bounds : Number.leastInt ≤ (number : Int) ∧ (number : Int) < Number.intBound := by
    rw [Number.leastInt, Number.intBound]
    omega
  -- The codec is opened by rewriting: unfolding it would compare numbers digit by digit.
  have hwrite : version.write number = Json.ofNat number := by
    rw [version]
  have hread (room : Nat) : version.read room = Json.Draft.natBelow 0x100000000 := by
    rw [version]
  intro room
  rw [hread, hwrite, Json.ofNat_of_bounds bounds, Json.toDraft, Json.Draft.natBelow,
    if_pos (by omega), Int.toNat_natCast]

/-- The values that the stores of an index keep: lists of identifiers that read back from their full
names, and versions of 32 bits. -/
inductive Keeps : {α : Type} → Codec α → α → Prop
  /-- A list of identifiers. -/
  | ids {list : List ElementId} (h : ∀ id ∈ list, ElementId.parse id.fullName = .ok id) :
    Keeps ids list
  /-- A version. -/
  | version {number : Nat} (h : number < 0x100000000) : Keeps version number

theorem Keeps.readsBack {value : α} (h : codec.Keeps value) : codec.ReadsBack value := by
  cases h with
  | ids h => exact readsBack_ids h
  | version h => exact readsBack_version h

/-- All values of a map read back. -/
def ReadsBackAll (codec : Codec α) (map : Std.ExtTreeMap String α) : Prop :=
  ∀ (key : String) (value : α), map[key]? = some value → codec.ReadsBack value

variable {map : Std.ExtTreeMap String α}

theorem readsBackAll_empty : codec.ReadsBackAll ∅ := by
  intro key value h
  simp at h

theorem ReadsBackAll.insert (h : codec.ReadsBackAll map) (key : String) {value : α}
    (hvalue : codec.ReadsBack value) : codec.ReadsBackAll (map.insert key value) := by
  intro other found hfound
  rw [Std.ExtTreeMap.getElem?_insert] at hfound
  split at hfound
  · cases hfound
    exact hvalue
  · exact h other found hfound

theorem ReadsBackAll.insertAll (h : codec.ReadsBackAll map) {entries : List (String × α)}
    (hentries : ∀ entry ∈ entries, codec.ReadsBack entry.2) :
    codec.ReadsBackAll (Store.insertAll entries map) := by
  induction entries generalizing map with
  | nil => exact h
  | cons entry rest ih =>
    exact ih (h.insert entry.1 (hentries entry List.mem_cons_self)) fun entry hentry =>
      hentries entry (List.mem_cons_of_mem _ hentry)

theorem ReadsBackAll.eraseAll (h : codec.ReadsBackAll map) (keys : List String) :
    codec.ReadsBackAll (Store.eraseAll keys map) := by
  intro key value hvalue
  rw [Store.getElem?_eraseAll] at hvalue
  split at hvalue
  · cases hvalue
  · exact h key value hvalue

theorem readsBackAll_ofList {entries : List (String × α)}
    (h : ∀ entry ∈ entries, codec.ReadsBack entry.2) :
    codec.ReadsBackAll (Std.ExtTreeMap.ofList entries) := by
  rw [Std.ExtTreeMap.ofList_eq_insertMany_empty]
  suffices hinsert : ∀ (rest : List (String × α)) (map : Std.ExtTreeMap String α),
      codec.ReadsBackAll map → rest ⊆ entries → codec.ReadsBackAll (map.insertMany rest) from
    hinsert entries ∅ readsBackAll_empty (List.Subset.refl _)
  intro rest
  induction rest with
  | nil =>
    intro map hmap _
    rwa [Std.ExtTreeMap.insertMany_nil]
  | cons entry rest ih =>
    intro map hmap hsubset
    obtain ⟨hentry, hrest⟩ := List.cons_subset.1 hsubset
    rw [show entry = (entry.1, entry.2) from rfl, Std.ExtTreeMap.insertMany_cons]
    exact ih _ (hmap.insert entry.1 (h entry hentry)) hrest

end Codec

namespace Store

variable {α : Type} {codec : Codec α}

/-- Entries read back from the object that is written for them. -/
theorem members_toDraft {entries : List (String × α)}
    (h : ∀ entry ∈ entries, codec.ReadsBack entry.2) (room : Nat) :
    Json.Draft.members codec.read (room + 2)
      (Json.object (entries.map fun (key, value) => (key, codec.write value))).toDraft =
      .ok entries := by
  have hmembers : Json.Draft.members codec.read (room + 2)
      (Json.object (entries.map fun (key, value) => (key, codec.write value))).toDraft =
      .ok (entries.map fun entry => (entry.1, id entry.2)) :=
    Json.Draft.members_toDraft fun entry hentry => h entry hentry room
  exact hmembers.trans (congrArg Except.ok (List.map_id entries))

/-- The map with the entries of another map is that map. -/
theorem ofList_toList (map : Std.ExtTreeMap String α) :
    Std.ExtTreeMap.ofList map.toList = map := by
  apply Std.ExtTreeMap.ext_getElem?
  intro key
  cases h : map[key]? with
  | some value =>
    apply Std.ExtTreeMap.getElem?_ofList_of_mem Std.ReflCmp.compare_self
      Std.ExtTreeMap.distinct_keys_toList
    exact Std.ExtTreeMap.mem_toList_iff_getElem?_eq_some.2 h
  | none =>
    apply Std.ExtTreeMap.getElem?_ofList_of_contains_eq_false
    rw [List.contains_eq_mem, decide_eq_false_iff_not]
    intro hkey
    -- A key of an entry is one of the map.
    obtain ⟨⟨other, value⟩, hmem, rfl⟩ := List.mem_map.1 hkey
    rw [Std.ExtTreeMap.mem_toList_iff_getElem?_eq_some.1 hmem] at h
    cases h

/-- Entries read back from the document that is written for them. -/
theorem entriesOfText_textOfEntries {map : Std.ExtTreeMap String α}
    (h : codec.ReadsBackAll map) :
    entriesOfText codec (textOfEntries codec map) = .ok map := by
  have hentries : ∀ entry ∈ map.toList, codec.ReadsBack entry.2 := fun entry hentry =>
    h entry.1 entry.2 (Std.ExtTreeMap.mem_toList_iff_getElem?_eq_some.1 hentry)
  rw [entriesOfText, textOfEntries, Json.Document.read_pretty, Json.depthLimit,
    members_toDraft hentries 125]
  show Except.ok (Std.ExtTreeMap.ofList map.toList) = Except.ok map
  rw [ofList_toList]

/-- Entries that read back are told apart by the documents that are written for them. -/
theorem eq_of_textOfEntries_eq {map other : Std.ExtTreeMap String α} (hmap : codec.ReadsBackAll map)
    (hother : codec.ReadsBackAll other)
    (h : textOfEntries codec map = textOfEntries codec other) : map = other := by
  have hread := entriesOfText_textOfEntries hmap
  rw [h, entriesOfText_textOfEntries hother] at hread
  exact (Except.ok.inj hread).symm

/-- Versions that are read from a document read back from what is written for them. -/
theorem readsBackAll_of_entriesOfText {text : String} {versions : Std.ExtTreeMap String Nat}
    (h : entriesOfText .version text = .ok versions) : Codec.version.ReadsBackAll versions := by
  obtain ⟨members, hmembers, h⟩ := exists_of_bind_eq_ok h
  obtain rfl := Except.ok.inj h
  obtain ⟨draft, hfound⟩ := Json.Document.exists_reader_of_read hmembers
  refine Codec.readsBackAll_ofList fun entry hentry => ?_
  obtain ⟨room, part, hpart⟩ := Json.Draft.exists_read_of_mem_members hfound hentry
  -- A version that is read is below the limit.
  have hread : Codec.version.read room = Json.Draft.natBelow 0x100000000 := by
    rw [Codec.version]
  rw [hread] at hpart
  unfold Json.Draft.natBelow at hpart
  split at hpart
  · split at hpart
    · next hbounds =>
      rw [← Except.ok.inj hpart]
      exact Codec.readsBack_version (by omega)
    · cases hpart
  · cases hpart

end Store

end ElementCatalog
