import ElementCatalog.Element.Basic
import ElementCatalog.Proofs.Lookup

/-!
# Places in values

`Value.update?` replaces the part of a value at a place. `Value.Replaced` says what this means for
the value: all that lies beside the place stays as it is.

## Main definitions

* `Value.WellFormed`: no map in a value has a key twice, the way maps are built;
* `Value.Precedes`: one place comes before another in pre-order;
* `Value.Replaced`: a value with the part at a place replaced;
* `Value.Flanks`: the references in front of a place and those behind it.

## Main results

* `Value.update?_eq_some_iff`: a change succeeds exactly at places whose part it changes;
* `Value.Replaced.references`: the references below the place are exchanged, and those in front of
  it and behind it stay, in their order;
* `Value.exists_replaced`: every reference of a well-formed value has its place.
-/

namespace ElementCatalog

/-- References found below a path. -/
def PlacedReference.belowPath (path : List PathSegment) (found : List PlacedReference) :
    List PlacedReference :=
  found.map fun placed => (path ++ placed.1, placed.2)

namespace PlacedReference

/-- Nothing is added by the empty path. -/
@[simp]
theorem belowPath_nil (found : List PlacedReference) : belowPath [] found = found := by
  simp [belowPath]

/-- A step in front of a path is one step and then the path. -/
theorem below_belowPath (segment : PathSegment) (path : List PathSegment)
    (found : List PlacedReference) :
    below segment (belowPath path found) = belowPath (segment :: path) found := by
  simp [below, belowPath, Function.comp_def]

/-- One step distributes over lists of references. -/
theorem below_append (segment : PathSegment) (a b : List PlacedReference) :
    below segment (a ++ b) = below segment a ++ below segment b :=
  List.map_append

/-- What is found below a step has a path that begins with it. -/
theorem mem_below_iff {segment : PathSegment} {found : List PlacedReference}
    {path : List PathSegment} {reference : Reference} :
    (path, reference) ∈ below segment found ↔
      ∃ rest, path = segment :: rest ∧ (rest, reference) ∈ found := by
  constructor
  · intro h
    obtain ⟨⟨rest, held⟩, hmem, heq⟩ := List.mem_map.1 h
    obtain ⟨rfl, rfl⟩ := Prod.mk.inj heq
    exact ⟨rest, rfl, hmem⟩
  · rintro ⟨rest, rfl, hmem⟩
    exact List.mem_map.2 ⟨(rest, reference), hmem, rfl⟩

/-- A path below a step that begins with a step begins with the same one. -/
theorem prefix_of_mem_below {segment step : PathSegment} {found : List PlacedReference}
    {placed : PlacedReference} {path : List PathSegment} (h : placed ∈ below segment found)
    (hbegins : step :: path <+: placed.1) :
    step = segment ∧ ∃ inner ∈ found, path <+: inner.1 := by
  obtain ⟨rest, hpath, hmem⟩ := mem_below_iff.1 h
  rw [hpath, List.cons_prefix_cons] at hbegins
  exact ⟨hbegins.1, _, hmem, hbegins.2⟩

end PlacedReference

/-- The value that a reference is. -/
def Reference.toValue (self : Reference) : Value :=
  .reference self.target self.snapshot

namespace Value

/-- No map in the value has a key twice, snapshots included. Maps are built by putting values under
keys, so all values are of this kind. -/
inductive WellFormed : Value → Prop
  /-- A reference with a well-formed snapshot or none. -/
  | reference {target : ElementId} {snapshot : Option Value}
      (held : ∀ value ∈ snapshot, WellFormed value) : WellFormed (.reference target snapshot)
  /-- Nothing. -/
  | null : WellFormed .null
  /-- A truth value. -/
  | bool {value : Bool} : WellFormed (.bool value)
  /-- A number. -/
  | number {value : Number} : WellFormed (.number value)
  /-- A text. -/
  | string {value : String} : WellFormed (.string value)
  /-- A list of well-formed items. -/
  | list {items : List Value} (held : ∀ item ∈ items, WellFormed item) : WellFormed (.list items)
  /-- A map of well-formed values under distinct keys. -/
  | map {members : List (String × Value)} (distinct : (Keyed.keys members).Nodup)
      (held : ∀ member ∈ members, WellFormed member.2) : WellFormed (.map members)

/-- A reference without a snapshot is well-formed. -/
theorem wellFormed_ofTarget (target : ElementId) : (ofTarget target).WellFormed :=
  .reference fun value hvalue => by cases hvalue

/-- `value.Precedes a b`: in pre-order the place `a` of the value comes before the place `b`. -/
inductive Precedes : Value → List PathSegment → List PathSegment → Prop
  /-- A value comes before its parts. -/
  | whole {value : Value} {segment : PathSegment} {rest : List PathSegment} :
      Precedes value [] (segment :: rest)
  /-- What lies in an item comes before what lies in a later item. -/
  | items {items : List Value} {i j : Nat} {a b : List PathSegment} (before : i < j) :
      Precedes (.list items) (.index i :: a) (.index j :: b)
  /-- Two places lie in one item. -/
  | item {items : List Value} {i : Nat} {item : Value} {a b : List PathSegment}
      (found : items[i]? = some item) (inner : Precedes item a b) :
      Precedes (.list items) (.index i :: a) (.index i :: b)
  /-- What lies under a key comes before what lies under a later key. -/
  | members {members : List (String × Value)} {first second : String} {a b : List PathSegment}
      (before : [first, second].Sublist (Keyed.keys members)) :
      Precedes (.map members) (.key first :: a) (.key second :: b)
  /-- Two places lie under one key. -/
  | member {members : List (String × Value)} {name : String} {value : Value}
      {a b : List PathSegment} (found : (name, value) ∈ members) (inner : Precedes value a b) :
      Precedes (.map members) (.key name :: a) (.key name :: b)

/-! ## References of lists and maps -/

/-- The references of items are found one after another. -/
theorem itemReferences_append (position : Nat) (front back : List Value) :
    itemReferences position (front ++ back) =
      itemReferences position front ++ itemReferences (position + front.length) back := by
  induction front generalizing position with
  | nil => simp [itemReferences]
  | cons item rest ih =>
    simp only [List.cons_append, itemReferences, ih, List.append_assoc, List.length_cons,
      Nat.add_assoc, Nat.add_comm 1]

/-- The references of members are found one after another. -/
theorem memberReferences_append (front back : List (String × Value)) :
    memberReferences (front ++ back) = memberReferences front ++ memberReferences back := by
  induction front with
  | nil => simp [memberReferences]
  | cons member rest ih => simp only [List.cons_append, memberReferences, ih, List.append_assoc]

/-- A reference of items lies in the item at the position that its path begins with. -/
theorem mem_itemReferences {start : Nat} {items : List Value} {path : List PathSegment}
    {reference : Reference} (h : (path, reference) ∈ itemReferences start items) :
    ∃ front item back rest, items = front ++ item :: back ∧
      path = .index (start + front.length) :: rest ∧ (rest, reference) ∈ item.references := by
  induction items generalizing start with
  | nil => simp [itemReferences] at h
  | cons item items ih =>
    rw [itemReferences, List.mem_append, PlacedReference.mem_below_iff] at h
    rcases h with ⟨rest, hpath, hmem⟩ | h
    · exact ⟨[], item, items, rest, rfl, hpath, hmem⟩
    · obtain ⟨front, found, back, rest, rfl, hpath, hmem⟩ := ih h
      refine ⟨item :: front, found, back, rest, rfl, ?_, hmem⟩
      rw [hpath, List.length_cons, Nat.add_assoc, Nat.add_comm 1]

/-- A reference of members lies in the value under the key that its path begins with. -/
theorem mem_memberReferences {members : List (String × Value)} {path : List PathSegment}
    {reference : Reference} (h : (path, reference) ∈ memberReferences members) :
    ∃ name value rest, (name, value) ∈ members ∧
      path = .key name :: rest ∧ (rest, reference) ∈ value.references := by
  induction members with
  | nil => simp [memberReferences] at h
  | cons member members ih =>
    rw [memberReferences, List.mem_append, PlacedReference.mem_below_iff] at h
    rcases h with ⟨rest, hpath, hmem⟩ | h
    · exact ⟨member.1, member.2, rest, List.mem_cons_self, hpath, hmem⟩
    · obtain ⟨name, value, rest, hmember, hpath, hmem⟩ := ih h
      exact ⟨name, value, rest, List.mem_cons_of_mem _ hmember, hpath, hmem⟩

/-- A path to a reference of items that begins with a position begins with one of theirs. -/
theorem position_of_mem_itemReferences {start position : Nat} {items : List Value}
    {placed : PlacedReference} {path : List PathSegment} (h : placed ∈ itemReferences start items)
    (hbegins : .index position :: path <+: placed.1) :
    start ≤ position ∧ position < start + items.length := by
  obtain ⟨front, item, back, rest, rfl, hpath, -⟩ := mem_itemReferences h
  rw [hpath, List.cons_prefix_cons, PathSegment.index.injEq] at hbegins
  rw [hbegins.1, List.length_append, List.length_cons]
  omega

/-- A path to a reference of members that begins with a key begins with one of theirs. -/
theorem name_of_mem_memberReferences {name : String} {members : List (String × Value)}
    {placed : PlacedReference} {path : List PathSegment} (h : placed ∈ memberReferences members)
    (hbegins : .key name :: path <+: placed.1) : name ∈ Keyed.keys members := by
  obtain ⟨found, value, rest, hmember, hpath, -⟩ := mem_memberReferences h
  rw [hpath, List.cons_prefix_cons, PathSegment.key.injEq] at hbegins
  exact hbegins.1 ▸ List.mem_map_of_mem hmember

/-! ## Replacing the part at a place -/

/-- `Replaced value path part new after`: the part of `value` at the end of `path` is `part`, and
with `new` there instead the value is `after`. Paths take keys for maps and positions for lists. -/
inductive Replaced : Value → List PathSegment → Value → Value → Value → Prop
  /-- The whole value is replaced. -/
  | here {part new : Value} : Replaced part [] part new new
  /-- A part of the first value under a key is replaced. -/
  | key {front back : List (String × Value)} {name : String} {value part new after : Value}
      {rest : List PathSegment} (first : name ∉ Keyed.keys front)
      (inner : Replaced value rest part new after) :
      Replaced (.map (front ++ (name, value) :: back)) (.key name :: rest) part new
        (.map (front ++ (name, after) :: back))
  /-- A part of an item is replaced. -/
  | index (front back : List Value) {item part new after : Value} {rest : List PathSegment}
      (inner : Replaced item rest part new after) :
      Replaced (.list (front ++ item :: back)) (.index front.length :: rest) part new
        (.list (front ++ after :: back))

/-- A change succeeds exactly at the places whose part it changes. -/
theorem update?_eq_some_iff {change : Value → Option Value} {value after : Value}
    {path : List PathSegment} :
    value.update? change path = some after ↔
      ∃ part new, Replaced value path part new after ∧ change part = some new := by
  constructor
  · intro h
    induction path generalizing value after with
    | nil => exact ⟨value, after, .here, h⟩
    | cons segment rest ih =>
      cases segment with
      | key name =>
        cases value with
        | map members =>
          rw [update?] at h
          simp only [Option.bind_eq_bind, Option.bind_eq_some_iff] at h
          obtain ⟨value, hvalue, new, hnew, hafter⟩ := h
          obtain ⟨part, changed, inner, hchange⟩ := ih hnew
          obtain ⟨front, back, rfl, hfirst⟩ := Keyed.exists_append_of_get?_eq_some hvalue
          obtain rfl := Option.some.inj hafter
          exact ⟨part, changed, Keyed.put_append hfirst new ▸ .key hfirst inner, hchange⟩
        | _ => simp [update?] at h
      | index position =>
        cases value with
        | list items =>
          rw [update?] at h
          simp only [Option.bind_eq_bind, Option.bind_eq_some_iff] at h
          obtain ⟨item, hitem, new, hnew, hafter⟩ := h
          obtain ⟨part, changed, inner, hchange⟩ := ih hnew
          obtain ⟨front, back, rfl, rfl⟩ := exists_append_of_getElem?_eq_some hitem
          obtain rfl := Option.some.inj hafter
          refine ⟨part, changed, ?_, hchange⟩
          simpa using Replaced.index front back inner
        | _ => simp [update?] at h
  · rintro ⟨part, new, replaced, hchange⟩
    induction replaced with
    | here => exact hchange
    | key first inner ih =>
      simp [update?, Keyed.get?_append first, ih hchange, Keyed.put_append first]
    | index front back inner ih => simp [update?, ih hchange]

/-! ## The references around a place -/

/-- `value.Flanks path front back`: of the references that do not lie at the end of `path` or below,
`front` come before this place and `back` after it. -/
structure Flanks (value : Value) (path : List PathSegment) (front back : List PlacedReference) :
    Prop where
  /-- What lies in front comes before the place. -/
  before : ∀ placed ∈ front, value.Precedes placed.1 path
  /-- What lies behind comes after the place. -/
  behind : ∀ placed ∈ back, value.Precedes path placed.1
  /-- Neither has a path that begins with the place. -/
  beside : ∀ placed ∈ front ++ back, ¬ path <+: placed.1

/-- Below a step, too, no reference around a place has a path that begins with the place. -/
theorem Flanks.not_begins_below {value : Value} {segment : PathSegment} {path : List PathSegment}
    {front back found : List PlacedReference} {placed : PlacedReference}
    (flanks : value.Flanks path front back) (hfound : found ⊆ front ++ back)
    (hplaced : placed ∈ PlacedReference.below segment found) : ¬ segment :: path <+: placed.1 := by
  intro hbegins
  obtain ⟨-, inner, hinner, hbegins⟩ := PlacedReference.prefix_of_mem_below hplaced hbegins
  exact flanks.beside inner (hfound hinner) hbegins

/-- Around a place in a member lie the references in the members in front of it and behind it, and
those around the place in its value. -/
theorem Flanks.member {front back : List (String × Value)} {name : String} {value : Value}
    {rest : List PathSegment} {innerFront innerBack : List PlacedReference}
    (distinct : (Keyed.keys (front ++ (name, value) :: back)).Nodup)
    (inner : value.Flanks rest innerFront innerBack) :
    (map (front ++ (name, value) :: back)).Flanks (.key name :: rest)
      (memberReferences front ++ PlacedReference.below (.key name) innerFront)
      (PlacedReference.below (.key name) innerBack ++ memberReferences back) := by
  have hmember : (name, value) ∈ front ++ (name, value) :: back := by simp
  have hkeys : Keyed.keys (front ++ (name, value) :: back) =
      Keyed.keys front ++ name :: Keyed.keys back := by simp [Keyed.keys]
  rw [hkeys, List.nodup_middle, List.nodup_cons, List.mem_append, not_or] at distinct
  constructor
  case before =>
    intro placed hplaced
    rcases List.mem_append.1 hplaced with h | h
    · obtain ⟨other, _, _, hother, hpath, -⟩ := mem_memberReferences h
      rw [hpath]
      have hother : [other].Sublist (Keyed.keys front) :=
        List.singleton_sublist.2 (List.mem_map_of_mem hother)
      exact .members (hkeys ▸ hother.append (List.singleton_sublist.2 List.mem_cons_self))
    · obtain ⟨_, hpath, hmem⟩ := PlacedReference.mem_below_iff.1 h
      rw [hpath]
      exact .member hmember (inner.before _ hmem)
  case behind =>
    intro placed hplaced
    rcases List.mem_append.1 hplaced with h | h
    · obtain ⟨_, hpath, hmem⟩ := PlacedReference.mem_below_iff.1 h
      rw [hpath]
      exact .member hmember (inner.behind _ hmem)
    · obtain ⟨other, _, _, hother, hpath, -⟩ := mem_memberReferences h
      rw [hpath]
      have hother : [other].Sublist (Keyed.keys back) :=
        List.singleton_sublist.2 (List.mem_map_of_mem hother)
      exact .members (hkeys ▸ (hother.cons_cons name).trans (List.sublist_append_right _ _))
  case beside =>
    -- The path leads on below the key, and no other member has the key.
    intro placed hplaced hbegins
    simp only [List.mem_append] at hplaced
    rcases hplaced with (hmem | hmem) | hmem | hmem
    · exact distinct.1.1 (name_of_mem_memberReferences hmem hbegins)
    · exact inner.not_begins_below (List.subset_append_left _ _) hmem hbegins
    · exact inner.not_begins_below (List.subset_append_right _ _) hmem hbegins
    · exact distinct.1.2 (name_of_mem_memberReferences hmem hbegins)

/-- Around a place in an item lie the references in the items in front of it and behind it, and
those around the place in the item. -/
theorem Flanks.item (front back : List Value) {item : Value} {rest : List PathSegment}
    {innerFront innerBack : List PlacedReference} (inner : item.Flanks rest innerFront innerBack) :
    (list (front ++ item :: back)).Flanks (.index front.length :: rest)
      (itemReferences 0 front ++ PlacedReference.below (.index front.length) innerFront)
      (PlacedReference.below (.index front.length) innerBack ++
        itemReferences (front.length + 1) back) := by
  have hitem : (front ++ item :: back)[front.length]? = some item := by simp
  constructor
  case before =>
    intro placed hplaced
    rcases List.mem_append.1 hplaced with h | h
    · obtain ⟨between, _, _, _, rfl, hpath, -⟩ := mem_itemReferences h
      rw [hpath]
      apply Precedes.items
      rw [List.length_append, List.length_cons]
      omega
    · obtain ⟨_, hpath, hmem⟩ := PlacedReference.mem_below_iff.1 h
      rw [hpath]
      exact .item hitem (inner.before _ hmem)
  case behind =>
    intro placed hplaced
    rcases List.mem_append.1 hplaced with h | h
    · obtain ⟨_, hpath, hmem⟩ := PlacedReference.mem_below_iff.1 h
      rw [hpath]
      exact .item hitem (inner.behind _ hmem)
    · obtain ⟨_, _, _, _, -, hpath, -⟩ := mem_itemReferences h
      rw [hpath]
      apply Precedes.items
      omega
  case beside =>
    -- The path leads on below the position, and other items have other positions.
    intro placed hplaced hbegins
    simp only [List.mem_append] at hplaced
    rcases hplaced with (hmem | hmem) | hmem | hmem
    · have := position_of_mem_itemReferences hmem hbegins
      omega
    · exact inner.not_begins_below (List.subset_append_left _ _) hmem hbegins
    · exact inner.not_begins_below (List.subset_append_right _ _) hmem hbegins
    · have := position_of_mem_itemReferences hmem hbegins
      omega

/-- The references below the place are exchanged, and those around it stay. -/
theorem Replaced.references {value part new after : Value} {path : List PathSegment}
    (replaced : Replaced value path part new after) (wellFormed : value.WellFormed) :
    ∃ front back,
      value.references = front ++ PlacedReference.belowPath path part.references ++ back ∧
      after.references = front ++ PlacedReference.belowPath path new.references ++ back ∧
      value.Flanks path front back := by
  induction replaced with
  | here => exact ⟨[], [], by simp, by simp, by simp, by simp, by simp⟩
  | @key front back name value part new after rest first inner ih =>
    cases wellFormed with
    | map distinct held =>
      obtain ⟨innerFront, innerBack, hvalue, hafter, flanks⟩ := ih (held (name, value) (by simp))
      refine ⟨_, _, ?_, ?_, flanks.member distinct⟩
      · simp only [Value.references, memberReferences_append, memberReferences, hvalue,
          PlacedReference.below_append, PlacedReference.below_belowPath, List.append_assoc]
      · simp only [Value.references, memberReferences_append, memberReferences, hafter,
          PlacedReference.below_append, PlacedReference.below_belowPath, List.append_assoc]
  | @index front back item part new after rest inner ih =>
    cases wellFormed with
    | list held =>
      obtain ⟨innerFront, innerBack, hvalue, hafter, flanks⟩ := ih (held item (by simp))
      refine ⟨_, _, ?_, ?_, flanks.item front back⟩
      · simp only [Value.references, itemReferences_append, itemReferences, hvalue, Nat.zero_add,
          PlacedReference.below_append, PlacedReference.below_belowPath, List.append_assoc]
      · simp only [Value.references, itemReferences_append, itemReferences, hafter, Nat.zero_add,
          PlacedReference.below_append, PlacedReference.below_belowPath, List.append_assoc]

/-- A value stays well-formed if what is put at a place is. -/
theorem Replaced.wellFormed {value part new after : Value} {path : List PathSegment}
    (replaced : Replaced value path part new after) (hvalue : value.WellFormed)
    (hnew : part.WellFormed → new.WellFormed) : after.WellFormed := by
  induction replaced with
  | here => exact hnew hvalue
  | @key front back name value part new after rest first inner ih =>
    cases hvalue with
    | map distinct held =>
      refine .map (by simpa [Keyed.keys] using distinct) fun member hmember => ?_
      simp only [List.mem_append, List.mem_cons] at hmember held
      rcases hmember with hmem | rfl | hmem
      · exact held member (.inl hmem)
      · exact ih (held _ (.inr (.inl rfl))) hnew
      · exact held member (.inr (.inr hmem))
  | @index front back item part new after rest inner ih =>
    cases hvalue with
    | list held =>
      refine .list fun other hother => ?_
      simp only [List.mem_append, List.mem_cons] at hother held
      rcases hother with hmem | rfl | hmem
      · exact held other (.inl hmem)
      · exact ih (held _ (.inr (.inl rfl))) hnew
      · exact held other (.inr (.inr hmem))

/-- Every reference of a well-formed value has its place, where anything can be put. -/
theorem exists_replaced {value : Value} (wellFormed : value.WellFormed) {path : List PathSegment}
    {reference : Reference} (h : (path, reference) ∈ value.references) (new : Value) :
    ∃ after, Replaced value path reference.toValue new after := by
  induction path generalizing value with
  | nil =>
    cases wellFormed with
    | reference held =>
      obtain rfl : reference = ⟨_, _⟩ := by simpa [references] using h
      exact ⟨new, .here⟩
    | list held =>
      obtain ⟨_, _, _, _, _, hpath, _⟩ := mem_itemReferences h
      cases hpath
    | map distinct held =>
      obtain ⟨_, _, _, _, hpath, _⟩ := mem_memberReferences h
      cases hpath
    | _ => simp [references] at h
  | cons segment rest ih =>
    cases wellFormed with
    | list held =>
      obtain ⟨front, item, back, inner, rfl, hpath, hmem⟩ := mem_itemReferences h
      obtain ⟨rfl, rfl⟩ := List.cons.inj hpath
      obtain ⟨after, replaced⟩ := ih (held item (by simp)) hmem
      exact ⟨_, by simpa using Replaced.index front back replaced⟩
    | map distinct held =>
      obtain ⟨name, value, inner, hmember, hpath, hmem⟩ := mem_memberReferences h
      obtain ⟨rfl, rfl⟩ := List.cons.inj hpath
      obtain ⟨after, replaced⟩ := ih (held (name, value) hmember) hmem
      -- Keys are distinct, so the member is the first one with its key.
      obtain ⟨front, back, rfl, hfirst⟩ := Keyed.exists_append_of_get?_eq_some
        ((Keyed.get?_eq_some_iff distinct).2 hmember)
      exact ⟨_, .key hfirst replaced⟩
    | _ => simp [references] at h

end Value

end ElementCatalog
