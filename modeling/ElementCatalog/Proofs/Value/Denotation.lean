import ElementCatalog.Proofs.Value.Loaded

/-!
# What documents denote

A list in a document denotes a list, item by item. An object denotes a reference if its keys are
those of a reference and an identifier stands under the key of targets; any other object denotes a
map, in which the last value of a repeated key counts.

What is read from a document is what it denotes, with one exception. One or two items of which the
first is a text that reads as an identifier are read as a reference, as if they were written as an
object.

## Main definitions

* `Value.Denotes`: a document tree denotes a value;
* `Json.HoldsReferenceList`: some list in a document tree has items of the shape of a reference;
* `Json.spellOut`: a document tree with such lists written as objects.

## Main results

* `Value.denotes_ofJson_iff`: a document tree denotes what it is read as exactly if it has no such
  list;
* `Value.denotesOne`: a document tree denotes one value at most;
* `Value.ofJson_spellOut`: a document tree is read as it is with such lists written as objects;
* `Value.read_denotes_iff`: the same for texts.
-/

namespace ElementCatalog

namespace Json

/-! ## Trees in the shape of a reference -/

/-- The members of an object that is written for a reference: the full name of the target, at most a
snapshot beside it, and each of them once. -/
structure RefersTo (members : List (String × Json)) (target : ElementId) : Prop where
  /-- No key is repeated. -/
  distinct : (Keyed.keys members).Nodup
  /-- There are no other keys. -/
  keys_subset : Keyed.keys members ⊆ [Value.targetKey, Value.snapshotKey]
  /-- The target is a text that reads as its identifier. -/
  target_mem : ∃ text, (Value.targetKey, string text) ∈ members ∧ ElementId.parse text = .ok target

/-- Whether there are one or two items of which the first is a text that reads as an identifier. -/
def areReferenceItems : List Json → Bool
  | string text :: rest => rest.length ≤ 1 && (ElementId.parse text).isOk
  | _ => false

/-- A tree is a part of another one that is taken in where this is read, at any depth. A value whose
key is repeated further on is passed over. -/
inductive PartOf (part : Json) : Json → Prop
  /-- A tree is a part of itself. -/
  | self : PartOf part part
  /-- A part of an item. -/
  | item {items : List Json} {item : Json} (mem : item ∈ items) (inner : PartOf part item) :
    PartOf part (.list items)
  /-- A part of the last value under a key. -/
  | member {members : List (String × Json)} {key : String} {value : Json}
    (last : Keyed.LastUnder key value members) (inner : PartOf part value) :
    PartOf part (.object members)

/-- Some list in a tree has items of the shape of a reference. -/
def HoldsReferenceList (tree : Json) : Prop :=
  ∃ items, PartOf (.list items) tree ∧ areReferenceItems items = true

mutual

/-- The tree with the lists that have the shape of a reference written as objects. -/
def spellOut : Json → Json
  | list items =>
    if areReferenceItems items then
      object ([Value.targetKey, Value.snapshotKey].zip (spellOutItems items))
    else list (spellOutItems items)
  | object members => object (spellOutMembers members)
  | null => null
  | bool value => bool value
  | number value => number value
  | string value => string value

/-- The items with such lists written as objects. -/
def spellOutItems : List Json → List Json
  | [] => []
  | item :: rest => item.spellOut :: spellOutItems rest

/-- The members with such lists written as objects. -/
def spellOutMembers : List (String × Json) → List (String × Json)
  | [] => []
  | (key, value) :: rest => (key, value.spellOut) :: spellOutMembers rest

end

end Json

namespace Value

open Json (RefersTo PartOf areReferenceItems HoldsReferenceList)

/-- A document tree denotes a value. -/
inductive Denotes : Json → Value → Prop
  /-- The word for nothing denotes nothing. -/
  | null : Denotes .null .null
  /-- A truth value denotes itself. -/
  | bool {value : Bool} : Denotes (.bool value) (.bool value)
  /-- A number denotes itself. -/
  | number {value : Number} : Denotes (.number value) (.number value)
  /-- A text denotes itself, whatever it reads as. -/
  | string {value : String} : Denotes (.string value) (.string value)
  /-- A list denotes the list of what its items denote, one for each and in their order. -/
  | list {trees : List Json} {items : List Value} (each : List.Forall₂ Denotes trees items) :
    Denotes (.list trees) (.list items)
  /-- An object in the shape of a reference denotes a reference. The snapshot is what stands under
  its key, if something stands there other than the word for nothing. -/
  | reference {members : List (String × Json)} {target : ElementId} {snapshot : Option Value}
      (refers : RefersTo members target)
      (absent : snapshot = none ↔ ∀ tree, (snapshotKey, tree) ∈ members → tree = .null)
      (held : ∀ tree, (snapshotKey, tree) ∈ members → ∀ value ∈ snapshot, Denotes tree value) :
    Denotes (.object members) (.reference target snapshot)
  /-- Any other object denotes a map with its keys, each at its first place and with what the last
  value under it denotes. -/
  | map {members : List (String × Json)} {entries : ValueMap}
      (noReference : ∀ target, ¬ RefersTo members target)
      (keys_eq : Keyed.keys entries = (Keyed.keys members).eraseDups)
      (held : ∀ key tree, Keyed.LastUnder key tree members →
        ∀ value ∈ Keyed.get? entries key, Denotes tree value) :
    Denotes (.object members) (.map entries)

/-! ## What parts are read as -/

variable {items : List Json} {members : List (String × Json)} {tree : Json}

/-- Items are read one by one. -/
theorem ofJsonItems_eq_map (items : List Json) : ofJsonItems items = items.map ofJson := by
  induction items with
  | nil => rfl
  | cons item rest ih => rw [ofJsonItems, ih, List.map_cons]

/-- Members are read one by one. -/
theorem ofJsonMembers_eq_map (members : List (String × Json)) :
    ofJsonMembers members = members.map fun member => (member.1, ofJson member.2) := by
  induction members with
  | nil => rfl
  | cons member rest ih => rw [ofJsonMembers, ih, List.map_cons]

/-- The keys are read as they are. -/
theorem keys_ofJsonMembers (members : List (String × Json)) :
    Keyed.keys (ofJsonMembers members) = Keyed.keys members := by
  simp [ofJsonMembers_eq_map, Keyed.keys]

/-- Only the word for nothing is read as nothing. -/
theorem ofJson_eq_null_iff : ofJson tree = .null ↔ tree = .null := by
  cases tree with
  | null | bool _ | number _ | string _ => simp [ofJson]
  | list items =>
    have hne := @holds_ofItems (· ≠ .null) (ofJsonItems items) (by simp) (by simp)
    exact iff_of_false hne (by simp)
  | object members =>
    have hne := @holds_ofMembers (· ≠ .null) (ofJsonMembers members) (by simp) (by simp)
    exact iff_of_false hne (by simp)

/-- Only a text is read as a text. -/
theorem ofJson_eq_string_iff {text : String} : ofJson tree = .string text ↔ tree = .string text := by
  cases tree with
  | null | bool _ | number _ | string _ => simp [ofJson]
  | list items => exact iff_of_false (ofItems_ne_string _ text) (by simp)
  | object members => exact iff_of_false (ofMembers_ne_string _ text) (by simp)

/-- What is read has the shape of a reference exactly if the items have it. -/
theorem areReferenceItems_ofJsonItems :
    AreReferenceItems (ofJsonItems items) ↔ areReferenceItems items = true := by
  have hparse (text : String) : (∃ id, ElementId.parse text = .ok id) ↔
      (ElementId.parse text).isOk = true := by
    cases ElementId.parse text <;> simp [Except.isOk, Except.toBool]
  rw [ofJsonItems_eq_map]
  constructor
  · rintro ⟨text, rest, id, hitems, hrest, hid⟩
    obtain ⟨first, others, rfl, hfirst, rfl⟩ := List.map_eq_cons_iff.1 hitems
    obtain rfl := ofJson_eq_string_iff.1 hfirst
    rw [List.length_map] at hrest
    simp [areReferenceItems, hrest, (hparse text).1 ⟨id, hid⟩]
  · intro h
    unfold areReferenceItems at h
    split at h
    · next text rest =>
      rw [Bool.and_eq_true, decide_eq_true_eq] at h
      obtain ⟨id, hid⟩ := (hparse text).2 h.2
      exact ⟨text, rest.map ofJson, id, rfl, by rw [List.length_map]; exact h.1, hid⟩
    · cases h

/-- An object in the shape of a reference is read as one, with the snapshot that is read if it is
something. -/
theorem exists_ofJson_of_refersTo {target : ElementId} (refers : RefersTo members target) :
    ∃ snapshot, ofJson (.object members) = .reference target snapshot ∧
      (snapshot = none ↔ ∀ held, (snapshotKey, held) ∈ members → held = .null) ∧
      ∀ held, (snapshotKey, held) ∈ members → ∀ value ∈ snapshot, value = ofJson held := by
  obtain ⟨text, htext, hid⟩ := refers.target_mem
  have hnone {held : Json} : snapshotOf (ofJson held) = none ↔ held = .null := by
    rw [← ofJson_eq_null_iff]
    cases ofJson held <;> simp [snapshotOf]
  have hsome {held : Json} {value : Value} (h : snapshotOf (ofJson held) = some value) :
      value = ofJson held := (snapshotOf_eq_some_iff.1 h).2.symm
  have hkey : snapshotKey ≠ targetKey := by decide
  rcases members_cases refers.distinct refers.keys_subset
    ((Keyed.get?_eq_some_iff refers.distinct).2 htext) with rfl | ⟨held, rfl | rfl⟩
  · refine ⟨none, ?_, by simp [hkey], by simp [hkey]⟩
    simp only [ofJson, ofJsonMembers, ofMembers, referenceOf?, hid, if_true]
    rfl
  · refine ⟨snapshotOf (ofJson held), ?_, by simp [hkey, hnone], ?_⟩
    · simp only [ofJson, ofJsonMembers, ofMembers, referenceOf?, hid, and_self, if_true]
      rfl
    · simp only [List.mem_cons, Prod.mk.injEq, hkey, false_and, true_and, List.not_mem_nil, or_false,
        false_or]
      rintro _ rfl value hvalue
      exact hsome hvalue
  · refine ⟨snapshotOf (ofJson held), ?_, by simp [hkey, hnone], ?_⟩
    · simp only [ofJson, ofJsonMembers, ofMembers, referenceOf?, hid, hkey, false_and, and_self,
        if_true, if_false]
      rfl
    · simp only [List.mem_cons, Prod.mk.injEq, hkey, false_and, true_and, List.not_mem_nil, or_false]
      rintro _ rfl value hvalue
      exact hsome hvalue

/-- Any other object is read as the map of what its values are read as. -/
theorem ofJson_of_not_refersTo (h : ∀ target, ¬ RefersTo members target) :
    ofJson (.object members) = .map (Keyed.ofMembers (ofJsonMembers members)) := by
  refine ofMembers_eq_map fun distinct hshape => ?_
  obtain ⟨hkeys, text, target, htext, hid⟩ := hshape
  rw [keys_ofJsonMembers] at distinct hkeys
  rw [ofJsonMembers_eq_map, Keyed.get?_map_snd] at htext
  obtain ⟨held, hheld, hstring⟩ := Option.map_eq_some_iff.1 htext
  -- What was read as a text is one in the document too, so the object is written for the target.
  obtain rfl := ofJson_eq_string_iff.1 hstring
  exact h target ⟨distinct, hkeys, text, Keyed.mem_of_get?_eq_some hheld, hid⟩

/-! ## What trees denote -/

/-- A list is one of the lists that it holds. -/
theorem holdsReferenceList_list : HoldsReferenceList (.list items) ↔
    areReferenceItems items = true ∨ ∃ item ∈ items, item.HoldsReferenceList := by
  constructor
  · rintro ⟨found, hpart, hshape⟩
    cases hpart with
    | self => exact .inl hshape
    | item mem inner => exact .inr ⟨_, mem, found, inner, hshape⟩
  · rintro (hshape | ⟨item, hitem, found, inner, hshape⟩)
    · exact ⟨items, .self, hshape⟩
    · exact ⟨found, .item hitem inner, hshape⟩

/-- An object holds the lists of the last values under its keys. -/
theorem holdsReferenceList_object : HoldsReferenceList (.object members) ↔
    ∃ key held, Keyed.LastUnder key held members ∧ held.HoldsReferenceList := by
  constructor
  · rintro ⟨found, hpart, hshape⟩
    cases hpart with
    | member last inner => exact ⟨_, _, last, found, inner, hshape⟩
  · rintro ⟨key, held, last, found, inner, hshape⟩
    exact ⟨found, .member last inner, hshape⟩

/-- A word or a text holds no list. -/
theorem not_holdsReferenceList_atom {tree : Json} (h : ∀ items, ¬ PartOf (.list items) tree) :
    ¬ tree.HoldsReferenceList := by
  rintro ⟨items, hpart, -⟩
  exact h items hpart

/-- A list denotes what it is read as exactly if no list in it has the shape of a reference, if this
is so of its items. -/
theorem denotes_ofJson_list_iff
    (ih : ∀ item ∈ items, Denotes item (ofJson item) ↔ ¬ item.HoldsReferenceList) :
    Denotes (.list items) (ofJson (.list items)) ↔ ¬ HoldsReferenceList (.list items) := by
  rw [holdsReferenceList_list, ofJson]
  by_cases hshape : areReferenceItems items = true
  · -- A reference is no list.
    obtain ⟨target, snapshot, hread⟩ := exists_ofItems (areReferenceItems_ofJsonItems.2 hshape)
    rw [hread]
    exact iff_of_false (by rintro ⟨⟩) fun h => h (.inl hshape)
  · rw [ofItems_of_not (mt areReferenceItems_ofJsonItems.1 hshape), ofJsonItems_eq_map]
    have heach : List.Forall₂ Denotes items (items.map ofJson) ↔
        ∀ item ∈ items, Denotes item (ofJson item) := by
      rw [List.forall₂_map_right_iff]
      exact List.forall₂_same
    rw [show Denotes (.list items) (.list (items.map ofJson)) ↔ _ from
      ⟨fun h => by cases h with | list each => exact each, .list⟩, heach, forall₂_congr ih]
    simp [hshape]

/-- An object in the shape of a reference denotes what it is read as exactly if its snapshot holds no
list in that shape, if this is so of its values. -/
theorem denotes_ofJson_reference_iff {target : ElementId} (refers : RefersTo members target)
    (ih : ∀ member ∈ members, Denotes member.2 (ofJson member.2) ↔ ¬ member.2.HoldsReferenceList) :
    Denotes (.object members) (ofJson (.object members)) ↔
      ¬ HoldsReferenceList (.object members) := by
  obtain ⟨snapshot, hread, habsent, hsnapshot⟩ := exists_ofJson_of_refersTo refers
  rw [holdsReferenceList_object, hread]
  constructor
  · rintro h ⟨key, tree, last, hholds⟩
    cases h with
    | reference _ _ held =>
      have hkey := refers.keys_subset (List.mem_map_of_mem last.mem)
      simp only [List.mem_cons, List.not_mem_nil, or_false] at hkey
      rcases hkey with rfl | rfl
      · -- The target is a text.
        obtain ⟨text, htext, -⟩ := refers.target_mem
        have htree := (Keyed.get?_eq_some_iff refers.distinct).2 last.mem
        rw [(Keyed.get?_eq_some_iff refers.distinct).2 htext, Option.some.injEq] at htree
        subst htree
        exact not_holdsReferenceList_atom (by rintro _ ⟨⟩) hholds
      · -- The snapshot is passed over only if it is the word for nothing.
        cases hheld : snapshot with
        | none =>
          obtain rfl := habsent.1 hheld tree last.mem
          exact not_holdsReferenceList_atom (by rintro _ ⟨⟩) hholds
        | some value =>
          have hdenotes := held tree last.mem value hheld
          rw [hsnapshot tree last.mem value hheld] at hdenotes
          exact (ih _ last.mem).1 hdenotes hholds
  · intro h
    refine .reference refers habsent fun tree htree value hvalue => ?_
    rw [hsnapshot tree htree value hvalue, ih _ htree]
    exact fun hholds => h ⟨_, tree, Keyed.lastUnder_of_mem refers.distinct htree, hholds⟩

/-- Any other object denotes what it is read as exactly if the last values under its keys hold no
list in the shape of a reference, if this is so of its values. -/
theorem denotes_ofJson_map_iff (hshape : ∀ target, ¬ RefersTo members target)
    (ih : ∀ member ∈ members, Denotes member.2 (ofJson member.2) ↔ ¬ member.2.HoldsReferenceList) :
    Denotes (.object members) (ofJson (.object members)) ↔
      ¬ HoldsReferenceList (.object members) := by
  rw [holdsReferenceList_object, ofJson_of_not_refersTo hshape]
  have hget {key : String} {tree : Json} (last : Keyed.LastUnder key tree members) :
      Keyed.get? (Keyed.ofMembers (ofJsonMembers members)) key = some (ofJson tree) := by
    rw [Keyed.get?_ofMembers_eq_some_iff, ofJsonMembers_eq_map]
    exact last.map_snd ofJson
  constructor
  · rintro h ⟨key, tree, last, hholds⟩
    cases h with
    | map _ _ held => exact (ih _ last.mem).1 (held key tree last _ (hget last)) hholds
  · intro h
    refine .map hshape (by rw [Keyed.keys_ofMembers, keys_ofJsonMembers]) ?_
    intro key tree last value hvalue
    obtain rfl := Option.some.inj ((hget last).symm.trans hvalue)
    rw [ih _ last.mem]
    exact fun hholds => h ⟨key, tree, last, hholds⟩

mutual

/-- A document tree denotes what it is read as exactly if no list in it has the shape of a
reference. -/
theorem denotes_ofJson_iff : ∀ tree : Json, Denotes tree (ofJson tree) ↔ ¬ tree.HoldsReferenceList
  | .null => iff_of_true .null (not_holdsReferenceList_atom (by rintro _ ⟨⟩))
  | .bool _ => iff_of_true .bool (not_holdsReferenceList_atom (by rintro _ ⟨⟩))
  | .number _ => iff_of_true .number (not_holdsReferenceList_atom (by rintro _ ⟨⟩))
  | .string _ => iff_of_true .string (not_holdsReferenceList_atom (by rintro _ ⟨⟩))
  | .list items => denotes_ofJson_list_iff (denotes_ofJsonItems_iff items)
  | .object members => by
    by_cases hshape : ∃ target, RefersTo members target
    · exact denotes_ofJson_reference_iff hshape.choose_spec (denotes_ofJsonMembers_iff members)
    · exact denotes_ofJson_map_iff (not_exists.1 hshape) (denotes_ofJsonMembers_iff members)

/-- An item denotes what it is read as exactly if no list in it has the shape of a reference. -/
theorem denotes_ofJsonItems_iff : ∀ items : List Json,
    ∀ item ∈ items, Denotes item (ofJson item) ↔ ¬ item.HoldsReferenceList
  | [], _, h => absurd h List.not_mem_nil
  | first :: rest, item, h => by
    rcases List.mem_cons.1 h with heq | h
    · rw [heq]
      exact denotes_ofJson_iff first
    · exact denotes_ofJsonItems_iff rest _ h

/-- A member denotes what it is read as exactly if no list in it has the shape of a reference. -/
theorem denotes_ofJsonMembers_iff : ∀ members : List (String × Json),
    ∀ member ∈ members, Denotes member.2 (ofJson member.2) ↔ ¬ member.2.HoldsReferenceList
  | [], _, h => absurd h List.not_mem_nil
  | (_, value) :: rest, _, h => by
    rcases List.mem_cons.1 h with rfl | h
    · exact denotes_ofJson_iff value
    · exact denotes_ofJsonMembers_iff rest _ h

end

/-! ## One value for each tree -/

/-- A tree denotes no two values. -/
def DenotesOne (tree : Json) : Prop :=
  ∀ ⦃a b : Value⦄, Denotes tree a → Denotes tree b → a = b

/-- An object is written for one target. -/
theorem eq_of_refersTo {target other : ElementId} (refers : RefersTo members target)
    (refers' : RefersTo members other) : target = other := by
  obtain ⟨text, htext, hid⟩ := refers.target_mem
  obtain ⟨text', htext', hid'⟩ := refers'.target_mem
  rw [← Keyed.get?_eq_some_iff refers.distinct] at htext htext'
  obtain rfl : text = text' := by simpa using htext.symm.trans htext'
  exact Except.ok.inj (hid.symm.trans hid')

/-- Items denote one list if each of them denotes one value. -/
theorem eq_of_denotes_items {values others : List Value} (ih : ∀ item ∈ items, DenotesOne item)
    (h : List.Forall₂ Denotes items values) (h' : List.Forall₂ Denotes items others) :
    values = others := by
  induction h generalizing others with
  | nil =>
    cases h'
    rfl
  | cons hfirst _ ihrest =>
    cases h' with
    | cons hfirst' hrest' =>
      obtain ⟨one, ih⟩ := List.forall_mem_cons.1 ih
      rw [one hfirst hfirst', ihrest ih hrest']

/-- Members denote one map if each of their values denotes one value. -/
theorem eq_of_denotes_members {entries others : ValueMap}
    (ih : ∀ member ∈ members, DenotesOne member.2)
    (hkeys : Keyed.keys entries = (Keyed.keys members).eraseDups)
    (hkeys' : Keyed.keys others = (Keyed.keys members).eraseDups)
    (held : ∀ key tree, Keyed.LastUnder key tree members →
      ∀ value ∈ Keyed.get? entries key, Denotes tree value)
    (held' : ∀ key tree, Keyed.LastUnder key tree members →
      ∀ value ∈ Keyed.get? others key, Denotes tree value) : entries = others := by
  have distinct : (Keyed.keys members).eraseDups.Nodup := by
    rw [← Keyed.keys_ofMembers]
    exact (Keyed.ofMembers_spec members).1
  have hfound {map : ValueMap} (hmap : Keyed.keys map = (Keyed.keys members).eraseDups)
      {key : String} (hkey : key ∈ Keyed.keys map) : ∃ value, Keyed.get? map key = some value := by
    obtain ⟨⟨key, value⟩, hentry, rfl⟩ := List.mem_map.1 hkey
    exact ⟨value, (Keyed.get?_eq_some_iff (hmap ▸ distinct)).2 hentry⟩
  -- Both maps hold something under each key, and it is what the last value under the key denotes.
  refine Keyed.eq_of_keys_eq (hkeys ▸ distinct) (hkeys.trans hkeys'.symm) fun key hkey => ?_
  obtain ⟨value, hvalue⟩ := hfound hkeys hkey
  obtain ⟨other, hother⟩ := hfound hkeys' (hkeys'.trans hkeys.symm ▸ hkey)
  rw [hkeys, List.mem_eraseDups] at hkey
  obtain ⟨tree, last⟩ := Keyed.exists_lastUnder hkey
  rw [hvalue, hother,
    ih _ last.mem (held key tree last value hvalue) (held' key tree last other hother)]

/-- An object denotes one value if each of its values does. -/
theorem denotesOne_object (ih : ∀ member ∈ members, DenotesOne member.2) :
    DenotesOne (.object members) := by
  intro a b ha hb
  cases ha with
  | reference refers absent held =>
    cases hb with
    | reference refers' absent' held' =>
      rw [eq_of_refersTo refers refers']
      congr 1
      -- One of the two has a snapshot exactly if the other one has.
      by_cases hnull : ∀ tree, (snapshotKey, tree) ∈ members → tree = .null
      · rw [absent.2 hnull, absent'.2 hnull]
      · obtain ⟨value, rfl⟩ := Option.ne_none_iff_exists'.1 (mt absent.1 hnull)
        obtain ⟨other, rfl⟩ := Option.ne_none_iff_exists'.1 (mt absent'.1 hnull)
        obtain ⟨tree, htree⟩ := not_forall.1 hnull
        have htree := (Classical.not_imp.1 htree).1
        rw [ih _ htree (held tree htree value rfl) (held' tree htree other rfl)]
    | map noReference => exact absurd refers (noReference _)
  | map noReference hkeys held =>
    cases hb with
    | reference refers => exact absurd refers (noReference _)
    | map _ hkeys' held' => rw [eq_of_denotes_members ih hkeys hkeys' held held']

mutual

/-- A tree denotes one value at most. -/
theorem denotesOne : ∀ tree : Json, DenotesOne tree
  | .null | .bool _ | .number _ | .string _ => by
    rintro a b ⟨⟩ ⟨⟩
    rfl
  | .list items => by
    intro a b ha hb
    cases ha with
    | list each =>
      cases hb with
      | list each' => rw [eq_of_denotes_items (denotesOne_items items) each each']
  | .object members => denotesOne_object (denotesOne_members members)

/-- Items denote one value each at most. -/
theorem denotesOne_items : ∀ items : List Json, ∀ item ∈ items, DenotesOne item
  | [], _, h => absurd h List.not_mem_nil
  | first :: rest, item, h => by
    rcases List.mem_cons.1 h with heq | h
    · rw [heq]
      exact denotesOne first
    · exact denotesOne_items rest item h

/-- Members denote one value each at most. -/
theorem denotesOne_members : ∀ members : List (String × Json),
    ∀ member ∈ members, DenotesOne member.2
  | [], _, h => absurd h List.not_mem_nil
  | (_, value) :: rest, member, h => by
    rcases List.mem_cons.1 h with heq | h
    · rw [heq]
      exact denotesOne value
    · exact denotesOne_members rest member h

end

/-! ## Lists written as objects -/

/-- Items in the shape of a reference are read as the object is that they are spelled out to. -/
theorem ofJson_spellOut_reference (h : areReferenceItems items = true)
    (hitems : ofJsonItems (Json.spellOutItems items) = ofJsonItems items) :
    ofJson (.object ([targetKey, snapshotKey].zip (Json.spellOutItems items))) =
      ofJson (.list items) := by
  obtain ⟨text, rest, id, htext, hrest, hid⟩ := areReferenceItems_ofJsonItems.2 h
  have hspelled : ofJson (.object ([targetKey, snapshotKey].zip (Json.spellOutItems items))) =
      ofMembers ([targetKey, snapshotKey].zip (ofJsonItems items)) := by
    rw [ofJson, ofJsonMembers_eq_map, ← hitems, ofJsonItems_eq_map, List.zip_map_right]
    rfl
  rw [hspelled, ofJson, htext]
  rcases rest with _ | ⟨held, _ | ⟨_, _⟩⟩
  · simp only [List.zip_cons_cons, List.zip_nil_right, ofMembers, ofItems, referenceOf?, hid, if_true]
    rfl
  · simp only [List.zip_cons_cons, List.zip_nil_right, ofMembers, ofItems, referenceOf?, hid,
      and_self, if_true]
    rfl
  · simp at hrest

mutual

/-- A tree is read as it is where lists in the shape of a reference are written as objects. -/
theorem ofJson_spellOut : ∀ tree : Json, ofJson tree.spellOut = ofJson tree
  | .null | .bool _ | .number _ | .string _ => rfl
  | .list items => by
    rw [Json.spellOut]
    split
    · next h => exact ofJson_spellOut_reference h (ofJsonItems_spellOutItems items)
    · rw [ofJson, ofJson, ofJsonItems_spellOutItems]
  | .object members => by
    rw [Json.spellOut, ofJson, ofJson, ofJsonMembers_spellOutMembers]

/-- Items are read as they are where such lists are written as objects. -/
theorem ofJsonItems_spellOutItems : ∀ items : List Json,
    ofJsonItems (Json.spellOutItems items) = ofJsonItems items
  | [] => rfl
  | item :: rest => by
    rw [Json.spellOutItems, ofJsonItems, ofJsonItems, ofJson_spellOut, ofJsonItems_spellOutItems]

/-- Members are read as they are where such lists are written as objects. -/
theorem ofJsonMembers_spellOutMembers : ∀ members : List (String × Json),
    ofJsonMembers (Json.spellOutMembers members) = ofJsonMembers members
  | [] => rfl
  | (_, value) :: rest => by
    rw [Json.spellOutMembers, ofJsonMembers, ofJsonMembers, ofJson_spellOut,
      ofJsonMembers_spellOutMembers]

end

mutual

/-- No list in the shape of a reference is left where these are written as objects. -/
theorem not_holdsReferenceList_spellOut : ∀ tree : Json, ¬ tree.spellOut.HoldsReferenceList
  | .null | .bool _ | .number _ | .string _ => not_holdsReferenceList_atom (by rintro _ ⟨⟩)
  | .list items => by
    have hitems := not_holdsReferenceList_spellOutItems items
    rw [Json.spellOut]
    split
    · rw [holdsReferenceList_object]
      rintro ⟨key, held, last, hholds⟩
      exact hitems held (List.of_mem_zip last.mem).2 hholds
    · next h =>
      -- Items are read as before, so none of them gets the shape by being written otherwise.
      rw [holdsReferenceList_list, ← areReferenceItems_ofJsonItems, ofJsonItems_spellOutItems,
        areReferenceItems_ofJsonItems]
      rintro (hshape | ⟨item, hitem, hholds⟩)
      · exact h hshape
      · exact hitems item hitem hholds
  | .object members => by
    rw [Json.spellOut, holdsReferenceList_object]
    rintro ⟨key, held, last, hholds⟩
    exact not_holdsReferenceList_spellOutMembers members _ last.mem hholds

/-- None is left in the items. -/
theorem not_holdsReferenceList_spellOutItems : ∀ items : List Json,
    ∀ item ∈ Json.spellOutItems items, ¬ item.HoldsReferenceList
  | [], _, h => absurd h List.not_mem_nil
  | first :: rest, item, h => by
    rcases List.mem_cons.1 h with heq | h
    · rw [heq]
      exact not_holdsReferenceList_spellOut first
    · exact not_holdsReferenceList_spellOutItems rest item h

/-- None is left in the members. -/
theorem not_holdsReferenceList_spellOutMembers : ∀ members : List (String × Json),
    ∀ member ∈ Json.spellOutMembers members, ¬ member.2.HoldsReferenceList
  | [], _, h => absurd h List.not_mem_nil
  | (_, value) :: rest, member, h => by
    rcases List.mem_cons.1 h with heq | h
    · rw [heq]
      exact not_holdsReferenceList_spellOut value
    · exact not_holdsReferenceList_spellOutMembers rest member h

end

/-! ## Texts -/

/-- A value is read from a text exactly if it is what the tree is read as that stands there. -/
theorem read_eq_ok_iff {text : String} {value : Value} :
    Json.Document.read ofDraft text = .ok value ↔
      ∃ tree, Json.Document.read Json.Draft.tree text = .ok tree ∧ ofJson tree = value := by
  simp only [Json.Document.read, ofDraft]
  cases (Json.Document.ofText text).root.tree Json.depthLimit with
  | error error => exact iff_of_false (by rintro ⟨⟩) (by rintro ⟨_, ⟨⟩, -⟩)
  | ok tree =>
    cases (Json.Document.ofText text).trailing with
    | true => exact iff_of_false (by rintro ⟨⟩) (by rintro ⟨_, ⟨⟩, -⟩)
    | false =>
      constructor
      · intro h
        exact ⟨tree, rfl, Except.ok.inj h⟩
      · rintro ⟨_, ⟨⟩, rfl⟩
        rfl

/-- A value that is read from a text is the one that the document denotes once its lists of the shape
of a reference are written as objects. The document itself denotes it exactly if there are none of
them where they count. -/
theorem read_denotes_iff {text : String} {value : Value}
    (h : Json.Document.read ofDraft text = .ok value) :
    ∃ tree, Json.Document.read Json.Draft.tree text = .ok tree ∧
      (∀ found, Denotes tree.spellOut found ↔ found = value) ∧
      (Denotes tree value ↔ ¬ tree.HoldsReferenceList) := by
  obtain ⟨tree, htree, rfl⟩ := read_eq_ok_iff.1 h
  have hspelled : Denotes tree.spellOut (ofJson tree) := by
    rw [← ofJson_spellOut]
    exact (denotes_ofJson_iff tree.spellOut).2 (not_holdsReferenceList_spellOut tree)
  refine ⟨tree, htree, fun found => ⟨fun hfound => ?_, ?_⟩, denotes_ofJson_iff tree⟩
  · exact denotesOne tree.spellOut hfound hspelled
  · rintro rfl
    exact hspelled

/-- A text that reads as an identifier and a word behind it are read as the reference that they are
spelled out to, and another text as the list that it is in. -/
theorem read_denotes_iff_owner :
    let tree := Json.object [("owner", .list [.string "a.t.instance.x", .bool true]),
      ("tags", .list [.string "plain"])]
    let value := Value.map [("owner", .reference (.ofInstance "a" "t" "x") (some (.bool true))),
      ("tags", .list [.string "plain"])]
    Json.Document.read ofDraft tree.compact = .ok value ∧
      ∃ found, Json.Document.read Json.Draft.tree tree.compact = .ok found ∧
        (∀ denoted, Denotes found.spellOut denoted ↔ denoted = value) ∧
        (Denotes found value ↔ ¬ found.HoldsReferenceList) := by
  intro tree value
  have howner : ElementId.parse "a.t.instance.x" = .ok (.ofInstance "a" "t" "x") := by decide +kernel
  have htag : ElementId.parse "plain" = .error (.incomplete "plain") := by decide +kernel
  have hvalue : ofJson tree = value := by
    simp only [tree, ofJson, ofJsonMembers, ofJsonItems, ofItems, referenceOf?, howner, htag]
    rfl
  have hread : Json.Document.read ofDraft tree.compact = .ok value := by
    refine (Json.Document.read_tree ofJson Json.Layout.isBlank_compact tree).trans ?_
    rw [if_pos (by decide), hvalue]
  exact ⟨hread, read_denotes_iff hread⟩

/-- A list with a text that reads as an identifier is read as a reference, which is not the list that
the document denotes. -/
theorem not_denotes_listed :
    let text := "[\"a.t.instance.x\"]"
    let value := Value.reference (.ofInstance "a" "t" "x") none
    Json.Document.read ofDraft text = .ok value ∧
      ∃ tree, Json.Document.read Json.Draft.tree text = .ok tree ∧ ¬ Denotes tree value := by
  intro text value
  let tree := Json.list [.string "a.t.instance.x"]
  have htext : text = tree.compact := by decide +kernel
  have hid : ElementId.parse "a.t.instance.x" = .ok (.ofInstance "a" "t" "x") := by decide +kernel
  have hvalue : ofJson tree = value := by
    simp only [tree, ofJson, ofJsonItems, ofItems, referenceOf?, hid]
    rfl
  have hread : Json.Document.read ofDraft text = .ok value := by
    rw [htext, ← hvalue]
    exact Json.Document.read_tree ofJson Json.Layout.isBlank_compact tree
  have htree : Json.Document.read Json.Draft.tree text = .ok tree := by
    have h := Json.Document.read_tree id Json.Layout.isBlank_compact tree
    simp only [id_map] at h
    rw [htext]
    exact h
  refine ⟨hread, tree, htree, ?_⟩
  show ¬ Denotes (.list _) (.reference _ _)
  rintro ⟨⟩

end Value

end ElementCatalog
