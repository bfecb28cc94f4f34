import ElementCatalog.Proofs.Keyed
import ElementCatalog.Proofs.Reading.Draft
import ElementCatalog.Proofs.Value.Place
import ElementCatalog.Value.Document

/-!
# Values that survive being saved

A value is written as a document, and whatever is written is read as a value. It is the same value
unless some part of it looks like something else there: references are written as maps, so a map or
a list of the right shape is read as a reference, an identifier can have a full name that another
identifier has or none, and a snapshot that is nothing counts as absent.

## Main definitions

* `Value.Within`: a value is a part of another one, at any depth;
* `Value.KeepsShape`: a value is not taken for another one, whatever its parts are taken for;
* `Value.Survives`: every part of a value keeps its shape;
* `Value.reread`: what a value is after it has been written and read.

## Main results

* `Value.reread_of_survives`: a value that survives is read as it was;
* `Value.survives_of_same_reread`: a value that is read as an equal one survives;
* `Value.reads_back_iff`: both for the texts of a value.
-/

namespace ElementCatalog

namespace Value

/-! ## Parts that keep their shape -/

/-- A value is a part of another one, at any depth. Snapshots are entered. -/
inductive Within (part : Value) : Value → Prop
  /-- A value is a part of itself. -/
  | self : Within part part
  /-- A part of a snapshot. -/
  | snapshot {target : ElementId} {snapshot : Value} (inner : Within part snapshot) :
    Within part (.reference target (some snapshot))
  /-- A part of an item. -/
  | item {items : List Value} {item : Value} (mem : item ∈ items) (inner : Within part item) :
    Within part (.list items)
  /-- A part of a value under a key. -/
  | member {members : List (String × Value)} {member : String × Value} (mem : member ∈ members)
    (inner : Within part member.2) : Within part (.map members)

/-- One or two items of which the first is a text that reads as an identifier. -/
def AreReferenceItems (items : List Value) : Prop :=
  ∃ text rest id, items = .string text :: rest ∧ rest.length ≤ 1 ∧ ElementId.parse text = .ok id

/-- A text that reads as an identifier under the key of targets, and nothing else but what stands
under the key of snapshots, if there is something. -/
def AreReferenceMembers (members : List (String × Value)) : Prop :=
  Keyed.keys members ⊆ [targetKey, snapshotKey] ∧
    ∃ text id, Keyed.get? members targetKey = some (.string text) ∧ ElementId.parse text = .ok id

/-- A value is not taken for another one where it is read, whatever its parts are taken for. -/
def KeepsShape : Value → Prop
  | reference target snapshot =>
    ElementId.parse target.fullName = .ok target ∧ snapshot ≠ some null
  | list items => ¬ AreReferenceItems items
  | map members => ¬ AreReferenceMembers members
  | null | bool _ | number _ | string _ => True

/-- Every part of a value keeps its shape. -/
def Survives (value : Value) : Prop :=
  ∀ part, Within part value → part.KeepsShape

/-- A property holds of a value and of all its parts. -/
def Throughout (holds : Value → Prop) (value : Value) : Prop :=
  ∀ part, Within part value → holds part

variable {holds : Value → Prop} {items : List Value} {members : List (String × Value)}
  {target : ElementId}

theorem throughout_reference {snapshot : Option Value} :
    Throughout holds (.reference target snapshot) ↔
      holds (.reference target snapshot) ∧ ∀ held ∈ snapshot, held.Throughout holds := by
  constructor
  · intro h
    refine ⟨h _ .self, ?_⟩
    rintro held rfl part hpart
    exact h part (.snapshot hpart)
  · rintro ⟨hself, hsnapshot⟩ part hpart
    cases hpart with
    | self => exact hself
    | snapshot hpart => exact hsnapshot _ rfl part hpart

theorem throughout_list :
    Throughout holds (.list items) ↔
      holds (.list items) ∧ ∀ item ∈ items, item.Throughout holds := by
  constructor
  · exact fun h => ⟨h _ .self, fun item hitem part hpart => h part (.item hitem hpart)⟩
  · rintro ⟨hself, hitems⟩ part hpart
    cases hpart with
    | self => exact hself
    | item hitem hpart => exact hitems _ hitem part hpart

theorem throughout_map :
    Throughout holds (.map members) ↔
      holds (.map members) ∧ ∀ member ∈ members, member.2.Throughout holds := by
  constructor
  · exact fun h => ⟨h _ .self, fun member hmember part hpart => h part (.member hmember hpart)⟩
  · rintro ⟨hself, hmembers⟩ part hpart
    cases hpart with
    | self => exact hself
    | member hmember hpart => exact hmembers _ hmember part hpart

theorem survives_reference {snapshot : Option Value} :
    Survives (.reference target snapshot) ↔ ElementId.parse target.fullName = .ok target ∧
      ∀ held ∈ snapshot, held ≠ .null ∧ held.Survives := by
  have hnull : snapshot ≠ some .null ↔ ∀ held ∈ snapshot, held ≠ .null := by
    cases snapshot <;> simp
  exact throughout_reference.trans (by
    simp only [KeepsShape, hnull, forall₂_and, and_assoc]
    exact Iff.rfl)

theorem survives_list :
    Survives (.list items) ↔ ¬ AreReferenceItems items ∧ ∀ item ∈ items, item.Survives :=
  throughout_list

theorem survives_map :
    Survives (.map members) ↔
      ¬ AreReferenceMembers members ∧ ∀ member ∈ members, member.2.Survives :=
  throughout_map

/-! ## What is read as a reference -/

/-- Whatever is not nothing is a snapshot. -/
theorem snapshotOf_eq_some_iff {value snapshot : Value} :
    snapshotOf value = some snapshot ↔ value ≠ .null ∧ value = snapshot := by
  cases value <;> simp [snapshotOf]

/-- A reference is made for a text that reads as an identifier. -/
theorem referenceOf?_eq_some_iff {value : Value} {snapshot : Option Value} {found : Value} :
    referenceOf? value snapshot = some found ↔
      ∃ text id, value = .string text ∧ ElementId.parse text = .ok id ∧
        found = .reference id (snapshot.bind snapshotOf) := by
  unfold referenceOf?
  constructor
  · intro h
    split at h
    · next text =>
      split at h
      · next id hid => exact ⟨text, id, rfl, hid, (Option.some.inj h).symm⟩
      · cases h
    · cases h
  · rintro ⟨text, id, rfl, hid, rfl⟩
    simp only [hid]

theorem referenceOf?_eq_none {value : Value} (snapshot : Option Value)
    (h : ∀ text id, value = .string text → ElementId.parse text ≠ .ok id) :
    referenceOf? value snapshot = none := by
  cases hfound : referenceOf? value snapshot with
  | none => rfl
  | some found =>
    obtain ⟨text, id, hvalue, hid, -⟩ := referenceOf?_eq_some_iff.1 hfound
    exact absurd hid (h text id hvalue)

/-- Items of the shape of a reference are read as one. -/
theorem exists_ofItems (h : AreReferenceItems items) :
    ∃ id snapshot, ofItems items = .reference id snapshot := by
  obtain ⟨text, rest, id, rfl, hrest, hid⟩ := h
  match rest with
  | [] => exact ⟨id, none, by simp only [ofItems, referenceOf?, hid]; rfl⟩
  | [snapshot] => exact ⟨id, snapshotOf snapshot, by simp only [ofItems, referenceOf?, hid]; rfl⟩
  | _ :: _ :: _ => simp at hrest

/-- Other items are read as a list. -/
theorem ofItems_of_not (h : ¬ AreReferenceItems items) : ofItems items = .list items := by
  match items with
  | [] | _ :: _ :: _ :: _ => rfl
  | [target] =>
    have hnone := referenceOf?_eq_none none fun text id htext hid =>
      h ⟨text, [], id, htext ▸ rfl, by decide, hid⟩
    simp only [ofItems, hnone, Option.getD_none]
  | [target, snapshot] =>
    have hnone := referenceOf?_eq_none (some snapshot) fun text id htext hid =>
      h ⟨text, [snapshot], id, htext ▸ rfl, le_rfl, hid⟩
    simp only [ofItems, hnone, Option.getD_none]

/-- Members under the keys of references, one of them the target, are one or two. -/
theorem members_cases {α : Type} {members : List (String × α)}
    (distinct : (Keyed.keys members).Nodup)
    (hkeys : Keyed.keys members ⊆ [targetKey, snapshotKey]) {value : α}
    (h : Keyed.get? members targetKey = some value) :
    members = [(targetKey, value)] ∨
      ∃ snapshot, members = [(targetKey, value), (snapshotKey, snapshot)] ∨
        members = [(snapshotKey, snapshot), (targetKey, value)] := by
  have hlength : members.length ≤ 2 := by
    have := (distinct.subperm hkeys).length_le
    rwa [Keyed.keys, List.length_map] at this
  have hmem := Keyed.mem_of_get?_eq_some h
  -- A member beside the one of the target is the one of a snapshot.
  have hother {member : String × α} (hmember : member.1 ∈ Keyed.keys members)
      (hne : member.1 ≠ targetKey) : member = (snapshotKey, member.2) := by
    have hkey : member.1 = snapshotKey := by simpa [hne] using hkeys hmember
    exact Prod.ext hkey rfl
  rcases members with _ | ⟨first, _ | ⟨second, _ | ⟨_, _⟩⟩⟩
  · cases hmem
  · exact .inl (by rw [List.mem_singleton.1 hmem])
  · have hne : first.1 ≠ second.1 := by simpa [Keyed.keys] using distinct
    rcases List.mem_pair.1 hmem with rfl | rfl
    · exact .inr ⟨second.2, .inl (by rw [← hother (by simp [Keyed.keys]) hne.symm])⟩
    · exact .inr ⟨first.2, .inr (by rw [← hother (by simp [Keyed.keys]) hne])⟩
  · simp at hlength

/-- Members of the shape of a reference are read as one. -/
theorem exists_ofMembers (distinct : (Keyed.keys members).Nodup)
    (h : AreReferenceMembers members) :
    ∃ id snapshot, ofMembers members = .reference id snapshot := by
  obtain ⟨hkeys, text, id, htext, hid⟩ := h
  rcases members_cases distinct hkeys htext with rfl | ⟨snapshot, rfl | rfl⟩
  · exact ⟨id, none, by simp only [ofMembers, referenceOf?, hid]; rfl⟩
  · exact ⟨id, snapshotOf snapshot, by simp only [ofMembers, referenceOf?, hid]; rfl⟩
  · exact ⟨id, snapshotOf snapshot, by simp only [ofMembers, referenceOf?, hid]; rfl⟩

/-- Other members are read as a map, which they are where no key is repeated. -/
theorem ofMembers_eq_map (h : (Keyed.keys members).Nodup → ¬ AreReferenceMembers members) :
    ofMembers members = .map (Keyed.ofMembers members) := by
  have hmap : (none : Option Value).getD (.map (Keyed.ofMembers members)) =
      .map (Keyed.ofMembers members) := rfl
  -- No value under the key of targets makes a reference.
  have hnone (snapshot : Option Value) {target : Value} (distinct : (Keyed.keys members).Nodup)
      (hkeys : Keyed.keys members ⊆ [targetKey, snapshotKey])
      (htarget : Keyed.get? members targetKey = some target) :
      referenceOf? target snapshot = none :=
    referenceOf?_eq_none snapshot fun text id htext hid =>
      h distinct ⟨hkeys, text, id, htext ▸ htarget, hid⟩
  match members with
  | [] | _ :: _ :: _ :: _ => exact hmap
  | [(key, target)] =>
    simp only [ofMembers]
    split
    · next hkey =>
      rw [hnone none (by simp [Keyed.keys]) (by simp [Keyed.keys, hkey]) (by simp [Keyed.get?, hkey])]
      exact hmap
    · exact hmap
  | [(first, a), (second, b)] =>
    simp only [ofMembers]
    split
    · next hkeys =>
      rw [hnone (some b) (by simp [Keyed.keys, hkeys, targetKey, snapshotKey])
        (by simp [Keyed.keys, hkeys]) (by simp [Keyed.get?, hkeys])]
      exact hmap
    · split
      · next hkeys =>
        rw [hnone (some a) (by simp [Keyed.keys, hkeys, targetKey, snapshotKey])
          (by simp [Keyed.keys, hkeys])
          (by simp [Keyed.get?, hkeys, targetKey, snapshotKey])]
        exact hmap
      · exact hmap

/-- Other members with distinct keys are read as the map that they are. -/
theorem ofMembers_of_not (distinct : (Keyed.keys members).Nodup)
    (h : ¬ AreReferenceMembers members) : ofMembers members = .map members := by
  rw [ofMembers_eq_map fun _ => h, Keyed.ofMembers_of_nodup distinct]

/-! ## Writing and reading -/

/-- What a value is after it has been written and read. -/
def reread (value : Value) : Value :=
  ofJson value.toJson

theorem ofJsonItems_toJsonItems (items : List Value) :
    ofJsonItems (toJsonItems items) = items.map reread := by
  induction items with
  | nil => rfl
  | cons item rest ih => rw [toJsonItems, ofJsonItems, ih, List.map_cons, reread]

theorem ofJsonMembers_toJsonMembers (members : List (String × Value)) :
    ofJsonMembers (toJsonMembers members) =
      members.map fun member => (member.1, reread member.2) := by
  induction members with
  | nil => rfl
  | cons member rest ih => rw [toJsonMembers, ofJsonMembers, ih, List.map_cons, reread]

theorem reread_list (items : List Value) : reread (.list items) = ofItems (items.map reread) := by
  rw [reread, toJson, ofJson, ofJsonItems_toJsonItems]

theorem reread_map (members : List (String × Value)) :
    reread (.map members) = ofMembers (members.map fun member => (member.1, reread member.2)) := by
  rw [reread, toJson, ofJson, ofJsonMembers_toJsonMembers]

/-- A reference is read as one if the full name of its target reads as an identifier. -/
theorem reread_reference_of_parse {id : ElementId} (hid : ElementId.parse target.fullName = .ok id)
    (snapshot : Option Value) :
    reread (.reference target snapshot) =
      .reference id (snapshot.bind fun held => snapshotOf held.reread) := by
  cases snapshot with
  | none =>
    simp only [reread, toJson, ofJson, ofJsonMembers, ofMembers, referenceOf?, hid, if_true]
    rfl
  | some held =>
    simp only [reread, toJson, ofJson, ofJsonMembers, ofMembers, referenceOf?, hid, and_self,
      if_true]
    rfl

/-- Otherwise it is read as the map that it is written as. -/
theorem exists_reread_reference (h : ∀ id, ElementId.parse target.fullName ≠ .ok id)
    (snapshot : Option Value) : ∃ members, reread (.reference target snapshot) = .map members := by
  have hnone (value : Option Value) : referenceOf? (.string target.fullName) value = none :=
    referenceOf?_eq_none value fun _ id htext => by
      cases htext
      exact h id
  cases snapshot with
  | none =>
    simp only [reread, toJson, ofJson, ofJsonMembers, ofMembers, hnone, if_true]
    exact ⟨_, rfl⟩
  | some held =>
    simp only [reread, toJson, ofJson, ofJsonMembers, ofMembers, hnone, and_self, if_true]
    exact ⟨_, rfl⟩

/-- What is read as a reference or else as something that is no text is no text. -/
theorem getD_ne_string {found : Option Value} {other : Value}
    (hfound : ∀ value ∈ found, ∃ target snapshot, referenceOf? target snapshot = some value)
    (hother : ∀ text, other ≠ .string text) (text : String) : found.getD other ≠ .string text := by
  cases found with
  | none => exact hother text
  | some value =>
    obtain ⟨target, snapshot, hvalue⟩ := hfound value rfl
    obtain ⟨_, _, _, _, rfl⟩ := referenceOf?_eq_some_iff.1 hvalue
    exact nofun

theorem ofItems_ne_string (items : List Value) (text : String) : ofItems items ≠ .string text := by
  refine getD_ne_string (fun value hvalue => ?_) (by intro _ h; cases h) text
  split at hvalue
  · exact ⟨_, _, hvalue⟩
  · exact ⟨_, _, hvalue⟩
  · cases hvalue

theorem ofMembers_ne_string (members : List (String × Value)) (text : String) :
    ofMembers members ≠ .string text := by
  refine getD_ne_string (fun value hvalue => ?_) (by intro _ h; cases h) text
  split at hvalue
  · split at hvalue
    · exact ⟨_, _, hvalue⟩
    · cases hvalue
  · split at hvalue
    · exact ⟨_, _, hvalue⟩
    · split at hvalue
      · exact ⟨_, _, hvalue⟩
      · cases hvalue
  · cases hvalue

/-- Only a text is read as a text. -/
theorem reread_eq_string_iff {value : Value} {text : String} :
    reread value = .string text ↔ value = .string text := by
  cases value with
  | null | bool _ | number _ | string _ => exact Iff.rfl
  | reference target snapshot =>
    refine iff_of_false ?_ nofun
    cases snapshot with
    | none => exact ofMembers_ne_string [(targetKey, .string target.fullName)] text
    | some snapshot =>
      exact ofMembers_ne_string
        [(targetKey, .string target.fullName), (snapshotKey, snapshot.reread)] text
  | list items => exact iff_of_false (ofItems_ne_string _ text) nofun
  | map members => exact iff_of_false (ofMembers_ne_string _ text) nofun

/-- Items have the shape of a reference after they have been read exactly if they had it before. -/
theorem areReferenceItems_reread :
    AreReferenceItems (items.map reread) ↔ AreReferenceItems items := by
  constructor
  · rintro ⟨text, rest, id, hitems, hrest, hid⟩
    -- Only a text is read as a text, so the first item was this text before.
    obtain ⟨first, others, rfl, hfirst, rfl⟩ := List.map_eq_cons_iff.1 hitems
    rw [List.length_map] at hrest
    exact ⟨text, others, id, by rw [reread_eq_string_iff.1 hfirst], hrest, hid⟩
  · rintro ⟨text, rest, id, rfl, hrest, hid⟩
    exact ⟨text, rest.map reread, id, rfl, by rwa [List.length_map], hid⟩

theorem keys_reread (members : List (String × Value)) :
    Keyed.keys (members.map fun member => (member.1, reread member.2)) = Keyed.keys members := by
  simp [Keyed.keys]

/-- The same for members. -/
theorem areReferenceMembers_reread :
    AreReferenceMembers (members.map fun member => (member.1, reread member.2)) ↔
      AreReferenceMembers members := by
  have hget (text : String) : Keyed.get? (members.map fun member => (member.1, reread member.2))
      targetKey = some (.string text) ↔ Keyed.get? members targetKey = some (.string text) := by
    rw [Keyed.get?_map_snd]
    cases Keyed.get? members targetKey with
    | none => simp
    | some value => simp [reread_eq_string_iff]
  simp only [AreReferenceMembers, keys_reread, hget]

/-- A value that survives is read as it was. -/
theorem reread_of_survives {value : Value} (wellFormed : value.WellFormed)
    (h : value.Survives) : value.reread = value := by
  -- Well-formedness has a case for each kind of value, and the distinct keys of maps with it.
  induction wellFormed with
  | null | bool | number | string => rfl
  | @reference target snapshot held ih =>
    obtain ⟨htarget, hsnapshot⟩ := survives_reference.1 h
    rw [reread_reference_of_parse htarget]
    cases snapshot with
    | none => rfl
    | some snapshot =>
      obtain ⟨hnull, hsnapshot⟩ := hsnapshot snapshot rfl
      rw [Option.bind_some, ih snapshot rfl hsnapshot, snapshotOf_eq_some_iff.2 ⟨hnull, rfl⟩]
  | @list items held ih =>
    obtain ⟨hshape, hitems⟩ := survives_list.1 h
    have hmap : items.map reread = items := by
      conv_rhs => rw [← List.map_id items]
      exact List.map_congr_left fun item hitem => ih item hitem (hitems item hitem)
    rw [reread_list, hmap, ofItems_of_not hshape]
  | @map members distinct held ih =>
    obtain ⟨hshape, hmembers⟩ := survives_map.1 h
    have hmap : (members.map fun member => (member.1, reread member.2)) = members := by
      conv_rhs => rw [← List.map_id members]
      exact List.map_congr_left fun member hmember =>
        congrArg (member.1, ·) (ih member hmember (hmembers member hmember))
    rw [reread_map, hmap, ofMembers_of_not distinct hshape]

/-- References that are equal have the same target, and an equal snapshot if there is one. -/
theorem eq_and_same_of_same_reference {a b : ElementId} {left right : Option Value}
    (h : same (.reference a left) (.reference b right) = true) :
    a = b ∧ ∀ held ∈ right, ∃ found, left = some found ∧ found.same held = true := by
  rcases left with _ | found <;> rcases right with _ | held
  · exact ⟨by simpa [same] using h, nofun⟩
  · cases h
  · cases h
  · rw [same, Bool.and_eq_true, beq_iff_eq] at h
    refine ⟨h.1, ?_⟩
    rintro _ ⟨⟩
    exact ⟨found, rfl, h.2⟩

/-- Changed items are equal to the items if each of them is. -/
theorem sameItems_map (f : Value → Value) (items : List Value) :
    sameItems (items.map f) items = true ↔ ∀ item ∈ items, (f item).same item = true := by
  induction items with
  | nil => simp [sameItems]
  | cons item rest ih => simp [sameItems, ih]

/-- Changed members are equal to the members under their keys if each of them is. -/
theorem sameMembers_map (f : Value → Value) {rest : List (String × Value)}
    (distinct : (Keyed.keys members).Nodup) (hrest : rest ⊆ members) :
    sameMembers (rest.map fun member => (member.1, f member.2)) members = true ↔
      ∀ member ∈ rest, (f member.2).same member.2 = true := by
  induction rest with
  | nil => simp [sameMembers]
  | cons member rest ih =>
    obtain ⟨hmember, hrest⟩ := List.cons_subset.1 hrest
    have hget : Keyed.get? members member.1 = some member.2 :=
      (Keyed.get?_eq_some_iff distinct).2 hmember
    simp only [List.map_cons, sameMembers, hget, Bool.and_eq_true, ih hrest, List.forall_mem_cons]

/-- A well-formed value is equal to itself. -/
theorem same_self {value : Value} (wellFormed : value.WellFormed) : value.same value = true := by
  induction wellFormed with
  | null => rfl
  | bool | number | string => simp [same]
  | @reference target snapshot held ih =>
    cases snapshot with
    | none => simp [same]
    | some snapshot => simp [same, ih snapshot rfl]
  | @list items held ih =>
    have := (sameItems_map id items).2 ih
    rwa [List.map_id] at this
  | @map members distinct held ih =>
    have := (sameMembers_map id distinct (List.Subset.refl _)).2 ih
    rw [show (fun member : String × Value => (member.1, id member.2)) = id from rfl,
      List.map_id] at this
    simp [same, this]

/-- A value that is read as an equal one survives. -/
theorem survives_of_same_reread {value : Value} (wellFormed : value.WellFormed)
    (h : value.reread.same value = true) : value.Survives := by
  induction wellFormed with
  | null | bool | number | string =>
    rintro _ ⟨⟩
    trivial
  | @reference target snapshot held ih =>
    cases hid : ElementId.parse target.fullName with
    | error failure =>
      -- A map is no reference.
      obtain ⟨members, hmap⟩ := exists_reread_reference (by rw [hid]; exact nofun) snapshot
      rw [hmap] at h
      cases snapshot <;> cases h
    | ok id =>
      rw [reread_reference_of_parse hid] at h
      obtain ⟨rfl, hsame⟩ := eq_and_same_of_same_reference h
      refine survives_reference.2 ⟨hid, ?_⟩
      rintro snapshot rfl
      obtain ⟨read, hread, hsame⟩ := hsame snapshot rfl
      obtain ⟨hnull, rfl⟩ := snapshotOf_eq_some_iff.1 hread
      refine ⟨?_, ih snapshot rfl hsame⟩
      rintro rfl
      exact hnull rfl
  | @list items held ih =>
    rw [reread_list] at h
    by_cases hshape : AreReferenceItems (items.map reread)
    · -- A reference is no list.
      obtain ⟨id, snapshot, hreference⟩ := exists_ofItems hshape
      rw [hreference] at h
      cases snapshot <;> cases h
    · rw [ofItems_of_not hshape, same, sameItems_map] at h
      exact survives_list.2 ⟨mt areReferenceItems_reread.2 hshape,
        fun item hitem => ih item hitem (h item hitem)⟩
  | @map members distinct held ih =>
    rw [reread_map] at h
    -- The keys are those from before, so they are distinct still.
    have hdistinct := (keys_reread members).symm ▸ distinct
    by_cases hshape : AreReferenceMembers (members.map fun member => (member.1, reread member.2))
    · obtain ⟨id, snapshot, hreference⟩ := exists_ofMembers hdistinct hshape
      rw [hreference] at h
      cases snapshot <;> cases h
    · rw [ofMembers_of_not hdistinct hshape, same, Bool.and_eq_true] at h
      have hmembers := (sameMembers_map reread distinct (List.Subset.refl _)).1 h.2
      exact survives_map.2 ⟨mt areReferenceMembers_reread.2 hshape,
        fun member hmember => ih member hmember (hmembers member hmember)⟩

/-! ## Texts -/

/-- A value is read from its text as what it is after it has been written and read, if the
containers of its document do not stand too deep in one another. -/
theorem read_text (value : Value) {text : String}
    (htext : text ∈ [value.toJson.compact, value.toJson.pretty]) :
    Json.Document.read ofDraft text =
      if value.toJson.depth ≤ Json.depthLimit then .ok value.reread
      else .error (.text .malformed) := by
  simp only [List.mem_cons, List.not_mem_nil, or_false] at htext
  rcases htext with rfl | rfl
  · exact Json.Document.read_tree ofJson Json.Layout.isBlank_compact value.toJson
  · exact Json.Document.read_tree ofJson Json.Layout.isBlank_pretty value.toJson

/-- Exactly the values that survive are read from their texts as they were, and exactly they are
read as equal ones. -/
theorem reads_back_iff {value : Value} (wellFormed : value.WellFormed)
    (shallow : value.toJson.depth ≤ Json.depthLimit) {text : String}
    (htext : text ∈ [value.toJson.compact, value.toJson.pretty]) :
    (Json.Document.read ofDraft text = .ok value ↔ value.Survives) ∧
      ((∃ found, Json.Document.read ofDraft text = .ok found ∧ found.same value = true) ↔
        value.Survives) := by
  rw [read_text value htext, if_pos shallow]
  simp only [Except.ok.injEq, exists_eq_left']
  refine ⟨⟨fun h => ?_, reread_of_survives wellFormed⟩,
    ⟨survives_of_same_reread wellFormed, fun h => ?_⟩⟩
  · exact survives_of_same_reread wellFormed (by rw [h, same_self wellFormed])
  · rw [reread_of_survives wellFormed h, same_self wellFormed]

/-- A map with a reference whose snapshot holds a tenth is read as it was. A list with a text that
is the full name of an identifier is read as a reference. -/
theorem reads_back_iff_tenth :
    let tenth : Binary64 := ⟨false, 0x1999999999999A, -56, by decide⟩
    let kept : Value := .map [("owner",
      .reference (.ofType "adapter" "type") (some (.list [.null, .number (.binary tenth)])))]
    let lost : Value := .list [.string "adapter.type"]
    Json.Document.read ofDraft kept.toJson.pretty = .ok kept ∧
      ¬ ∃ found, Json.Document.read ofDraft lost.toJson.compact = .ok found ∧
        found.same lost = true := by
  intro tenth kept lost
  constructor
  · have wellFormed : kept.WellFormed := by
      refine .map (by decide) fun _ hmember => ?_
      obtain rfl := List.mem_singleton.1 hmember
      refine .reference fun _ hsnapshot => ?_
      obtain rfl := Option.mem_some.1 hsnapshot
      refine .list fun item hitem => ?_
      simp only [List.mem_cons, List.not_mem_nil, or_false] at hitem
      rcases hitem with rfl | rfl
      · exact .null
      · exact .number
    have survives : kept.Survives := by
      refine survives_map.2 ⟨fun h => absurd (h.1 List.mem_cons_self) (by decide),
        fun _ hmember => ?_⟩
      obtain rfl := List.mem_singleton.1 hmember
      refine survives_reference.2 ⟨by decide, fun _ hheld => ?_⟩
      obtain rfl := Option.mem_some.1 hheld
      refine ⟨nofun, ?_⟩
      refine survives_list.2 ⟨?_, fun item hitem => ?_⟩
      · rintro ⟨_, _, _, ⟨⟩, -⟩
      · simp only [List.mem_cons, List.not_mem_nil, or_false] at hitem
        rcases hitem with rfl | rfl
        · rintro _ ⟨⟩
          trivial
        · rintro _ ⟨⟩
          trivial
    exact (reads_back_iff wellFormed (by decide) (by simp)).1.2 survives
  · have wellFormed : lost.WellFormed := by
      refine .list fun _ hitem => ?_
      obtain rfl := List.mem_singleton.1 hitem
      exact .string
    rw [(reads_back_iff wellFormed (by decide) (by simp)).2, survives_list]
    exact fun h => h.1 ⟨"adapter.type", [], .ofType "adapter" "type", rfl, by decide, by decide⟩

end Value

end ElementCatalog
