import ElementCatalog.Proofs.ElementId.Grammar
import ElementCatalog.Proofs.Reading.Record
import ElementCatalog.Proofs.Value.Retarget
import ElementCatalog.Proofs.Value.RoundTrip

/-!
# Values that were read

Not every value can be read from a document. One that was read has distinct keys in its maps, its
references have targets that read back and snapshots that are something, and none of its lists looks
like a reference. Written again, it goes no deeper than what it was read from.

So only its maps can be taken for something else where it is read once more: a map that looks like a
reference comes from an object in which a key is repeated (`Value.Loaded.survives_iff`).

## Main definitions

* `Value.Loaded`: what is known of a value that was read;
* `Value.HoldsReferenceMap`: some map in a value looks like a reference.

## Main results

* `Value.loaded_ofJson`: the value that a document tree stands for is a loaded one;
* `Value.Loaded.survives_iff`: a loaded value survives exactly if no map in it looks like a reference.
-/

namespace ElementCatalog

namespace Value

/-! ## What items and members stand for -/

variable {holds : Value → Prop} {items : List Value} {members : List (String × Value)}

/-- A reference is made with a target that reads back, and with the snapshot if it is something. -/
theorem holds_of_referenceOf? {target value : Value} {snapshot : Option Value}
    (h : referenceOf? target snapshot = some value)
    (hreference : ∀ (id : ElementId) (held : Option Value), ElementId.parse id.fullName = .ok id →
      (∀ part ∈ held, part ≠ .null ∧ snapshot = some part) → holds (.reference id held)) :
    holds value := by
  obtain ⟨text, id, -, hid, rfl⟩ := referenceOf?_eq_some_iff.1 h
  refine hreference id _ (ElementId.parse_fullName (ElementId.isWritable_of_parse hid)) ?_
  intro part hpart
  obtain ⟨written, rfl, hwritten⟩ := Option.bind_eq_some_iff.1 hpart
  obtain ⟨hnull, rfl⟩ := snapshotOf_eq_some_iff.1 hwritten
  exact ⟨hnull, rfl⟩

/-- Items stand for a list that does not look like a reference, or for a reference. -/
theorem holds_ofItems (hlist : ¬ AreReferenceItems items → holds (.list items))
    (hreference : ∀ (id : ElementId) (held : Option Value), ElementId.parse id.fullName = .ok id →
      (∀ part ∈ held, part ≠ .null ∧ part ∈ items) → holds (.reference id held)) :
    holds (ofItems items) := by
  by_cases hshape : AreReferenceItems items
  · obtain ⟨text, rest, id, rfl, hrest, hid⟩ := hshape
    have hfound (snapshot : Option Value) : referenceOf? (.string text) snapshot =
        some (.reference id (snapshot.bind snapshotOf)) :=
      referenceOf?_eq_some_iff.2 ⟨text, id, rfl, hid, rfl⟩
    rcases rest with _ | ⟨snapshot, _ | ⟨_, _⟩⟩
    · simp only [ofItems, hfound none, Option.getD_some]
      exact holds_of_referenceOf? (hfound none) fun id held hid hheld =>
        hreference id held hid fun part hpart => by cases (hheld part hpart).2
    · simp only [ofItems, hfound (some snapshot), Option.getD_some]
      refine holds_of_referenceOf? (hfound (some snapshot)) fun id held hid hheld =>
        hreference id held hid fun part hpart => ?_
      obtain ⟨hnull, heq⟩ := hheld part hpart
      obtain rfl := Option.some.inj heq
      exact ⟨hnull, by simp⟩
    · simp at hrest
  · rw [ofItems_of_not hshape]
    exact hlist hshape

/-- Members stand for a map that is made of them, or for a reference. -/
theorem holds_ofMembers (hmap : holds (.map (Keyed.ofMembers members)))
    (hreference : ∀ (id : ElementId) (held : Option Value), ElementId.parse id.fullName = .ok id →
      (∀ part ∈ held, part ≠ .null ∧ part ∈ members.map Prod.snd) → holds (.reference id held)) :
    holds (ofMembers members) := by
  have hgetD {found : Option Value} (hfound : ∀ value ∈ found, holds value) :
      holds (found.getD (.map (Keyed.ofMembers members))) := by
    cases found with
    | none => exact hmap
    | some value => exact hfound value rfl
  have hmade {target value : Value} {snapshot : Option Value}
      (h : referenceOf? target snapshot = some value)
      (hsnapshot : ∀ part, snapshot = some part → part ∈ members.map Prod.snd) : holds value :=
    holds_of_referenceOf? h fun id held hid hheld => hreference id held hid fun part hpart =>
      ⟨(hheld part hpart).1, hsnapshot part (hheld part hpart).2⟩
  refine hgetD fun value hvalue => ?_
  split at hvalue
  · split at hvalue
    · exact hmade hvalue fun _ h => by cases h
    · cases hvalue
  · -- The snapshot stands behind the target or in front of it.
    split at hvalue
    · refine hmade hvalue fun part hpart => ?_
      obtain rfl := Option.some.inj hpart
      simp
    · split at hvalue
      · refine hmade hvalue fun part hpart => ?_
        obtain rfl := Option.some.inj hpart
        simp
      · cases hvalue
  · cases hvalue

/-! ## Loaded values -/

/-- A value as it can have been read from a document that goes no deeper than a bound. -/
structure Loaded (bound : Nat) (value : Value) : Prop where
  /-- The keys of each map are distinct. -/
  wellFormed : value.WellFormed
  /-- All parts keep their shape where they are read, apart from maps. -/
  keepsShape : value.Throughout fun part => (∀ members, part ≠ .map members) → part.KeepsShape
  /-- Written, the value goes no deeper than the bound. -/
  depth_le : value.toJson.depth ≤ bound

/-- Some map in a value looks like a reference. -/
def HoldsReferenceMap (value : Value) : Prop :=
  ∃ members, Within (.map members) value ∧ AreReferenceMembers members

/-- A loaded value survives exactly if no map in it looks like a reference. -/
theorem Loaded.survives_iff {bound : Nat} {value : Value} (loaded : value.Loaded bound) :
    value.Survives ↔ ¬ value.HoldsReferenceMap := by
  constructor
  · rintro h ⟨members, hpart, hshape⟩
    exact h _ hpart hshape
  · intro h part hpart
    by_cases hmap : ∃ members, part = .map members
    · obtain ⟨members, rfl⟩ := hmap
      exact fun hshape => h ⟨members, hpart, hshape⟩
    · exact loaded.keepsShape part hpart fun members heq => hmap ⟨members, heq⟩

/-- The items of a written list are the items written. -/
theorem toJsonItems_eq_map (items : List Value) : toJsonItems items = items.map toJson := by
  induction items with
  | nil => rfl
  | cons item rest ih => rw [toJsonItems, ih, List.map_cons]

/-- The members of a written map are the members written. -/
theorem toJsonMembers_eq_map (members : List (String × Value)) :
    toJsonMembers members = members.map fun member => (member.1, member.2.toJson) := by
  induction members with
  | nil => rfl
  | cons member rest ih => rw [toJsonMembers, ih, List.map_cons]

/-- A written list goes one level deeper than its items. -/
theorem depth_toJson_list_le_iff {bound : Nat} :
    (list items).toJson.depth ≤ bound + 1 ↔ ∀ item ∈ items, item.toJson.depth ≤ bound := by
  rw [toJson, Json.depth, Nat.add_le_add_iff_right, Json.itemDepth_le_iff, toJsonItems_eq_map,
    List.forall_mem_map]

/-- A written map goes one level deeper than its values. -/
theorem depth_toJson_map_le_iff {bound : Nat} :
    (map members).toJson.depth ≤ bound + 1 ↔
      ∀ member ∈ members, member.2.toJson.depth ≤ bound := by
  rw [toJson, Json.depth, Nat.add_le_add_iff_right, Json.memberDepth_le_iff, toJsonMembers_eq_map,
    List.forall_mem_map]

/-- A written reference goes one level deeper than its snapshot. -/
theorem depth_toJson_reference_le_iff {target : ElementId} {snapshot : Option Value} {bound : Nat} :
    (reference target snapshot).toJson.depth ≤ bound + 1 ↔
      ∀ held ∈ snapshot, held.toJson.depth ≤ bound := by
  cases snapshot with
  | none => simp [toJson, Json.depth, Json.memberDepth]
  | some held => simp [toJson, Json.depth, Json.memberDepth]

namespace Loaded

variable {bound : Nat}

/-- A value without parts is loaded. -/
theorem of_atom {value : Value} (wellFormed : value.WellFormed) (keeps : value.KeepsShape)
    (alone : ∀ part, Within part value → part = value) (hdepth : value.toJson.depth = 0) :
    value.Loaded bound where
  wellFormed := wellFormed
  keepsShape part hpart _ := alone part hpart ▸ keeps
  depth_le := hdepth ▸ Nat.zero_le bound

/-- A reference is loaded if its target reads back and its snapshot is loaded and something. -/
theorem reference {target : ElementId} {snapshot : Option Value}
    (htarget : ElementId.parse target.fullName = .ok target)
    (hsnapshot : ∀ held ∈ snapshot, held ≠ .null ∧ held.Loaded bound) :
    (Value.reference target snapshot).Loaded (bound + 1) where
  wellFormed := .reference fun held hheld => (hsnapshot held hheld).2.wellFormed
  keepsShape := throughout_reference.2
    ⟨fun _ => ⟨htarget, fun hnull => (hsnapshot .null hnull).1 rfl⟩,
      fun held hheld => (hsnapshot held hheld).2.keepsShape⟩
  depth_le := depth_toJson_reference_le_iff.2 fun held hheld => (hsnapshot held hheld).2.depth_le

/-- A list is loaded if its items are and it does not look like a reference. -/
theorem list (hshape : ¬ AreReferenceItems items) (held : ∀ item ∈ items, item.Loaded bound) :
    (Value.list items).Loaded (bound + 1) where
  wellFormed := .list fun item hitem => (held item hitem).wellFormed
  keepsShape := throughout_list.2 ⟨fun _ => hshape, fun item hitem => (held item hitem).keepsShape⟩
  depth_le := depth_toJson_list_le_iff.2 fun item hitem => (held item hitem).depth_le

/-- A map is loaded if its keys are distinct and its values are loaded. -/
theorem map (distinct : (Keyed.keys members).Nodup)
    (held : ∀ member ∈ members, member.2.Loaded bound) : (Value.map members).Loaded (bound + 1) where
  wellFormed := .map distinct fun member hmember => (held member hmember).wellFormed
  keepsShape := throughout_map.2
    ⟨fun h => absurd rfl (h members), fun member hmember => (held member hmember).keepsShape⟩
  depth_le := depth_toJson_map_le_iff.2 fun member hmember => (held member hmember).depth_le

/-- The bound can be a wider one. -/
theorem mono {value : Value} {wider : Nat} (loaded : value.Loaded bound) (h : bound ≤ wider) :
    value.Loaded wider :=
  ⟨loaded.wellFormed, loaded.keepsShape, loaded.depth_le.trans h⟩

/-- Items of which each is loaded stand for a loaded value. -/
theorem ofItems (held : ∀ item ∈ items, item.Loaded bound) :
    (Value.ofItems items).Loaded (bound + 1) :=
  holds_ofItems (fun hshape => .list hshape held) fun _ _ hid hsnapshot =>
    .reference hid fun part hpart => ⟨(hsnapshot part hpart).1, held part (hsnapshot part hpart).2⟩

/-- A map made of members of which each is loaded is loaded. -/
theorem map_ofMembers (held : ∀ member ∈ members, member.2.Loaded bound) :
    (Value.map (Keyed.ofMembers members)).Loaded (bound + 1) := by
  obtain ⟨distinct, hmembers⟩ := Keyed.ofMembers_spec members
  exact .map distinct fun member hmember => held member (hmembers hmember)

/-- Members of which each is loaded stand for a loaded value. -/
theorem ofMembers (held : ∀ member ∈ members, member.2.Loaded bound) :
    (Value.ofMembers members).Loaded (bound + 1) := by
  refine holds_ofMembers (map_ofMembers held) fun id snapshot hid hsnapshot =>
    .reference hid fun part hpart => ⟨(hsnapshot part hpart).1, ?_⟩
  obtain ⟨member, hmember, rfl⟩ := List.mem_map.1 (hsnapshot part hpart).2
  exact held member hmember

end Loaded

/-! ## Parts of loaded values -/

/-- Exactly the references whose targets read back and whose snapshots are loaded and something are
loaded. -/
theorem loaded_reference_iff {target : ElementId} {snapshot : Option Value} {bound : Nat} :
    (reference target snapshot).Loaded (bound + 1) ↔
      ElementId.parse target.fullName = .ok target ∧
        ∀ held ∈ snapshot, held ≠ .null ∧ held.Loaded bound := by
  refine ⟨fun loaded => ?_, fun h => .reference h.1 h.2⟩
  obtain ⟨hshape, hparts⟩ := throughout_reference.1 loaded.keepsShape
  -- A reference is no map, so it has to keep its shape.
  obtain ⟨htarget, hnull⟩ := hshape fun members heq => by cases heq
  refine ⟨htarget, fun held hheld => ⟨?_, ?_, hparts held hheld,
    depth_toJson_reference_le_iff.1 loaded.depth_le held hheld⟩⟩
  · rintro rfl
    exact hnull hheld
  · cases loaded.wellFormed with
    | reference wellFormed => exact wellFormed held hheld

/-- Exactly the lists that do not look like references and whose items are loaded are loaded. -/
theorem loaded_list_iff {bound : Nat} : (list items).Loaded (bound + 1) ↔
    ¬ AreReferenceItems items ∧ ∀ item ∈ items, item.Loaded bound := by
  refine ⟨fun loaded => ?_, fun h => .list h.1 h.2⟩
  obtain ⟨hshape, hparts⟩ := throughout_list.1 loaded.keepsShape
  refine ⟨hshape (fun _ heq => by cases heq), fun item hitem => ⟨?_, hparts item hitem,
    depth_toJson_list_le_iff.1 loaded.depth_le item hitem⟩⟩
  cases loaded.wellFormed with
  | list wellFormed => exact wellFormed item hitem

/-- Exactly the maps with distinct keys and loaded values are loaded. -/
theorem loaded_map_iff {bound : Nat} : (map members).Loaded (bound + 1) ↔
    (Keyed.keys members).Nodup ∧ ∀ member ∈ members, member.2.Loaded bound := by
  refine ⟨fun loaded => ?_, fun h => .map h.1 h.2⟩
  obtain ⟨-, hparts⟩ := throughout_map.1 loaded.keepsShape
  cases loaded.wellFormed with
  | map distinct wellFormed =>
    exact ⟨distinct, fun member hmember => ⟨wellFormed member hmember, hparts member hmember,
      depth_toJson_map_le_iff.1 loaded.depth_le member hmember⟩⟩

/-- A value with something inside goes at least one level deep. -/
theorem Loaded.exists_bound {bound : Nat} {value : Value} (loaded : value.Loaded bound)
    (hdepth : value.toJson.depth ≠ 0) : ∃ inside, bound = inside + 1 :=
  Nat.exists_eq_add_one.2 (Nat.lt_of_lt_of_le (Nat.pos_of_ne_zero hdepth) loaded.depth_le)

-- What looks like a reference is made one, except for objects in which a key is repeated.
mutual

/-- The value that a document tree stands for is loaded. -/
theorem loaded_ofJson : ∀ tree : Json, (ofJson tree).Loaded tree.depth
  | .null => .of_atom .null trivial (by rintro _ ⟨⟩; rfl) rfl
  | .bool _ => .of_atom .bool trivial (by rintro _ ⟨⟩; rfl) rfl
  | .number _ => .of_atom .number trivial (by rintro _ ⟨⟩; rfl) rfl
  | .string _ => .of_atom .string trivial (by rintro _ ⟨⟩; rfl) rfl
  | .list items => .ofItems (loaded_ofJsonItems items)
  | .object members => .ofMembers (loaded_ofJsonMembers members)

/-- The values that items stand for are loaded. -/
theorem loaded_ofJsonItems : ∀ items : List Json,
    ∀ item ∈ ofJsonItems items, item.Loaded (Json.itemDepth items)
  | [], _, h => absurd h List.not_mem_nil
  | item :: rest, _, h => by
    rcases List.mem_cons.1 h with rfl | h
    · exact (loaded_ofJson item).mono (le_max_left _ _)
    · exact (loaded_ofJsonItems rest _ h).mono (le_max_right _ _)

/-- The values that members stand for are loaded. -/
theorem loaded_ofJsonMembers : ∀ members : List (String × Json),
    ∀ member ∈ ofJsonMembers members, member.2.Loaded (Json.memberDepth members)
  | [], _, h => absurd h List.not_mem_nil
  | (_, value) :: rest, _, h => by
    rcases List.mem_cons.1 h with rfl | h
    · exact (loaded_ofJson value).mono (le_max_left _ _)
    · exact (loaded_ofJsonMembers rest _ h).mono (le_max_right _ _)

end

/-! ## Other targets -/

section Retarget

variable {items : List Value} {members : List (String × Value)}

/-- Only a text becomes a text where references get other targets. -/
theorem retarget_eq_string_iff {move : List PathSegment → ElementId → ElementId} {value : Value}
    {text : String} : value.retarget move = .string text ↔ value = .string text := by
  cases value <;> simp [retarget]

/-- As many items are there where references get other targets. -/
theorem length_retargetItems (move : List PathSegment → ElementId → ElementId) (position : Nat)
    (items : List Value) : (retargetItems move position items).length = items.length := by
  induction items generalizing position with
  | nil => rfl
  | cons item rest ih => rw [retargetItems, List.length_cons, ih, List.length_cons]

/-- The keys stay where references get other targets. -/
theorem keys_retargetMembers (move : List PathSegment → ElementId → ElementId)
    (members : List (String × Value)) :
    Keyed.keys (retargetMembers move members) = Keyed.keys members := by
  induction members with
  | nil => rfl
  | cons member rest ih =>
    simp only [Keyed.keys, retargetMembers, List.map_cons] at ih ⊢
    rw [ih]

/-- A text is found under a key exactly if it is where references get other targets. -/
theorem get?_retargetMembers_eq_string_iff (move : List PathSegment → ElementId → ElementId)
    (name text : String) : Keyed.get? (retargetMembers move members) name = some (.string text) ↔
      Keyed.get? members name = some (.string text) := by
  induction members with
  | nil => rfl
  | cons member rest ih =>
    rw [retargetMembers, Keyed.get?, Keyed.get?]
    split
    · rw [Option.some.injEq, Option.some.injEq, retarget_eq_string_iff]
    · exact ih

/-- Items look like a reference exactly if they do with other targets. -/
theorem areReferenceItems_retargetItems {move : List PathSegment → ElementId → ElementId}
    {position : Nat} :
    AreReferenceItems (retargetItems move position items) ↔ AreReferenceItems items := by
  cases items with
  | nil => rfl
  | cons first rest =>
    simp only [AreReferenceItems, retargetItems, List.cons.injEq, retarget_eq_string_iff]
    constructor
    · rintro ⟨text, _, id, ⟨hfirst, rfl⟩, hrest, hid⟩
      exact ⟨text, rest, id, ⟨hfirst, rfl⟩, by rwa [length_retargetItems] at hrest, hid⟩
    · rintro ⟨text, _, id, ⟨hfirst, rfl⟩, hrest, hid⟩
      exact ⟨text, _, id, ⟨hfirst, rfl⟩, by rwa [length_retargetItems], hid⟩

/-- Members look like a reference exactly if they do with other targets. -/
theorem areReferenceMembers_retargetMembers {move : List PathSegment → ElementId → ElementId} :
    AreReferenceMembers (retargetMembers move members) ↔ AreReferenceMembers members := by
  simp only [AreReferenceMembers, keys_retargetMembers, get?_retargetMembers_eq_string_iff]

/-- A reference holds the maps of its snapshot. -/
theorem holdsReferenceMap_reference {target : ElementId} {snapshot : Option Value} :
    (reference target snapshot).HoldsReferenceMap ↔ ∃ held ∈ snapshot, held.HoldsReferenceMap := by
  constructor
  · rintro ⟨members, hpart, hshape⟩
    cases hpart with
    | snapshot inner => exact ⟨_, rfl, members, inner, hshape⟩
  · rintro ⟨held, rfl, members, inner, hshape⟩
    exact ⟨members, .snapshot inner, hshape⟩

/-- A list holds the maps of its items. -/
theorem holdsReferenceMap_list :
    (list items).HoldsReferenceMap ↔ ∃ item ∈ items, item.HoldsReferenceMap := by
  constructor
  · rintro ⟨members, hpart, hshape⟩
    cases hpart with
    | item mem inner => exact ⟨_, mem, members, inner, hshape⟩
  · rintro ⟨item, hitem, members, inner, hshape⟩
    exact ⟨members, .item hitem inner, hshape⟩

/-- A map is one of the maps that it holds. -/
theorem holdsReferenceMap_map : (map members).HoldsReferenceMap ↔
    AreReferenceMembers members ∨ ∃ member ∈ members, member.2.HoldsReferenceMap := by
  constructor
  · rintro ⟨found, hpart, hshape⟩
    cases hpart with
    | self => exact .inl hshape
    | member mem inner => exact .inr ⟨_, mem, found, inner, hshape⟩
  · rintro (hshape | ⟨member, hmember, found, inner, hshape⟩)
    · exact ⟨members, .self, hshape⟩
    · exact ⟨found, .member hmember inner, hshape⟩

mutual

/-- A value holds a map that looks like a reference exactly if it does with other targets. -/
theorem holdsReferenceMap_retarget (move : List PathSegment → ElementId → ElementId) :
    ∀ value : Value, (value.retarget move).HoldsReferenceMap ↔ value.HoldsReferenceMap
  | .reference target snapshot => by
    rw [retarget, holdsReferenceMap_reference, holdsReferenceMap_reference]
  | .list items => by
    rw [retarget, holdsReferenceMap_list, holdsReferenceMap_list,
      exists_holdsReferenceMap_retargetItems]
  | .map members => by
    rw [retarget, holdsReferenceMap_map, holdsReferenceMap_map,
      exists_holdsReferenceMap_retargetMembers, areReferenceMembers_retargetMembers]
  | .null | .bool _ | .number _ | .string _ => by rw [retarget]

/-- An item holds such a map exactly if one does with other targets. -/
theorem exists_holdsReferenceMap_retargetItems (move : List PathSegment → ElementId → ElementId) :
    ∀ (position : Nat) (items : List Value),
      (∃ item ∈ retargetItems move position items, item.HoldsReferenceMap) ↔
        ∃ item ∈ items, item.HoldsReferenceMap
  | _, [] => Iff.rfl
  | position, item :: rest => by
    rw [retargetItems, List.exists_mem_cons_iff, List.exists_mem_cons_iff,
      holdsReferenceMap_retarget, exists_holdsReferenceMap_retargetItems]

/-- A value under a key holds such a map exactly if one does with other targets. -/
theorem exists_holdsReferenceMap_retargetMembers
    (move : List PathSegment → ElementId → ElementId) : ∀ members : List (String × Value),
      (∃ member ∈ retargetMembers move members, member.2.HoldsReferenceMap) ↔
        ∃ member ∈ members, member.2.HoldsReferenceMap
  | [] => Iff.rfl
  | (name, value) :: rest => by
    rw [retargetMembers, List.exists_mem_cons_iff, List.exists_mem_cons_iff,
      holdsReferenceMap_retarget, exists_holdsReferenceMap_retargetMembers]

end

/-- A move of targets to targets that read back, if those moved do. -/
def MovesReadable (move : List PathSegment → ElementId → ElementId) : Prop :=
  ∀ path target, ElementId.parse target.fullName = .ok target →
    ElementId.parse (move path target).fullName = .ok (move path target)

mutual

/-- A loaded value is loaded with other targets, if these read back. -/
theorem Loaded.retarget {bound : Nat} {move : List PathSegment → ElementId → ElementId}
    (hmove : MovesReadable move) :
    ∀ {value : Value}, value.Loaded bound → (value.retarget move).Loaded bound
  | .reference target snapshot, loaded => by
    obtain ⟨inside, rfl⟩ := loaded.exists_bound (by cases snapshot <;> exact Nat.succ_ne_zero _)
    obtain ⟨htarget, hsnapshot⟩ := loaded_reference_iff.1 loaded
    exact .reference (hmove [] target htarget) hsnapshot
  | .list items, loaded => by
    obtain ⟨inside, rfl⟩ := loaded.exists_bound (Nat.succ_ne_zero _)
    obtain ⟨hshape, held⟩ := loaded_list_iff.1 loaded
    exact .list (mt areReferenceItems_retargetItems.1 hshape) (loaded_retargetItems hmove held)
  | .map members, loaded => by
    obtain ⟨inside, rfl⟩ := loaded.exists_bound (Nat.succ_ne_zero _)
    obtain ⟨distinct, held⟩ := loaded_map_iff.1 loaded
    exact .map (by rwa [keys_retargetMembers]) (loaded_retargetMembers hmove held)
  | .null, loaded | .bool _, loaded | .number _, loaded | .string _, loaded => by
    rwa [Value.retarget]

/-- Loaded items are loaded with other targets, if these read back. -/
theorem loaded_retargetItems {bound : Nat} {move : List PathSegment → ElementId → ElementId}
    (hmove : MovesReadable move) : ∀ {position : Nat} {items : List Value},
      (∀ item ∈ items, item.Loaded bound) →
      ∀ item ∈ retargetItems move position items, item.Loaded bound
  | _, [], _, _, h => absurd h List.not_mem_nil
  | position, first :: rest, held, item, h => by
    obtain ⟨hfirst, hrest⟩ := List.forall_mem_cons.1 held
    rcases List.mem_cons.1 h with rfl | h
    · exact hfirst.retarget fun path => hmove (.index position :: path)
    · exact loaded_retargetItems hmove hrest item h

/-- Loaded members are loaded with other targets, if these read back. -/
theorem loaded_retargetMembers {bound : Nat} {move : List PathSegment → ElementId → ElementId}
    (hmove : MovesReadable move) : ∀ {members : List (String × Value)},
      (∀ member ∈ members, member.2.Loaded bound) →
      ∀ member ∈ retargetMembers move members, member.2.Loaded bound
  | [], _, _, h => absurd h List.not_mem_nil
  | (name, value) :: rest, held, member, h => by
    obtain ⟨hfirst, hrest⟩ := List.forall_mem_cons.1 held
    rcases List.mem_cons.1 h with rfl | h
    · exact Loaded.retarget (fun path => hmove (.key name :: path)) hfirst
    · exact loaded_retargetMembers hmove hrest member h

end

end Retarget

end Value

namespace ValueMap

/-- Values that are read under names are loaded. -/
theorem loaded_of_ofJson {tree : Json} {values : ValueMap} (h : ofJson tree = .ok values) :
    (Value.map values).Loaded tree.depth := by
  cases tree with
  | object members =>
    obtain rfl := Except.ok.inj h
    exact .map_ofMembers (Value.loaded_ofJsonMembers members)
  | null | bool value | number value | string value | list items => cases h

/-- No values are loaded. -/
theorem loaded_nil {bound : Nat} : (Value.map []).Loaded (bound + 1) :=
  .map List.nodup_nil fun _ h => absurd h List.not_mem_nil

/-- What values under names are after they have been written and read. -/
def reread (values : ValueMap) : ValueMap :=
  values.map fun member => (member.1, member.2.reread)

/-- Values under distinct names are read from what is written for them, each by itself. -/
theorem ofJson_toJson {values : ValueMap} (distinct : (Keyed.keys values).Nodup) :
    ofJson (toJson values) = .ok values.reread := by
  rw [toJson, ofJson, Value.ofJsonMembers_toJsonMembers, Keyed.ofMembers_of_nodup]
  · rfl
  · rwa [Value.keys_reread]

/-- Loaded values under names are read as they were exactly if no map in them looks like a
reference. -/
theorem reread_eq_iff {values : ValueMap} {bound : Nat}
    (loaded : (Value.map values).Loaded (bound + 1)) :
    values.reread = values ↔ ∀ member ∈ values, ¬ member.2.HoldsReferenceMap := by
  -- A loaded value can lose its shape only in a map, and comes back as it was if it does not.
  have hself (member : String × Value) (hmember : member ∈ values) :
      member.2.reread = member.2 ↔ ¬ member.2.HoldsReferenceMap := by
    rw [← ((Value.loaded_map_iff.1 loaded).2 member hmember).survives_iff]
    have wellFormed := ((Value.loaded_map_iff.1 loaded).2 member hmember).wellFormed
    refine ⟨fun h => ?_, Value.reread_of_survives wellFormed⟩
    exact Value.survives_of_same_reread wellFormed (by rw [h, Value.same_self wellFormed])
  constructor
  · intro h member hmember
    rw [← hself member hmember]
    have heach := List.map_eq_map_iff.1 (h.trans (List.map_id values).symm) member hmember
    exact congrArg Prod.snd heach
  · intro h
    refine (List.map_congr_left fun member hmember => ?_).trans (List.map_id values)
    exact congrArg (member.1, ·) ((hself member hmember).2 (h member hmember))

end ValueMap

end ElementCatalog
