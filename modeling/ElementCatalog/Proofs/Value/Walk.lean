import ElementCatalog.Proofs.Json.Number
import ElementCatalog.Proofs.Value.Place

/-!
# The walk through a value

`Value.references` walks through a value and lists the references in it with their paths. Here the
walk is described by what it is for and not by how it goes.

## Main definitions

* `Value.Holds`: a path leads to a reference, by keys of maps and positions of lists only.

## Main results

* `Value.mem_references_iff_holds`: the walk finds exactly the references that paths lead to;
* `Value.pairwise_references`: it finds them in pre-order, and in a well-formed value no two at one
  place (`Value.nodup_paths`);
* `Value.Holds.at?_eq` and `ValueMap.find?_join`: the path leads back to the reference, and so does
  the path written with dots.
-/

namespace ElementCatalog

namespace Value

/-! ## References and places -/

/-- `value.Holds path reference`: the path leads from the value to the reference. Every step goes to
an item of a list or to a member of a map, so no path leads into a snapshot. -/
inductive Holds : Value → List PathSegment → Reference → Prop
  /-- The value is the reference. -/
  | here {target : ElementId} {snapshot : Option Value} :
      Holds (.reference target snapshot) [] ⟨target, snapshot⟩
  /-- An item holds the reference. -/
  | item {items : List Value} {position : Nat} {item : Value} {rest : List PathSegment}
      {reference : Reference} (found : items[position]? = some item)
      (inner : Holds item rest reference) : Holds (.list items) (.index position :: rest) reference
  /-- A member holds the reference. -/
  | member {members : List (String × Value)} {name : String} {value : Value}
      {rest : List PathSegment} {reference : Reference} (found : (name, value) ∈ members)
      (inner : Holds value rest reference) : Holds (.map members) (.key name :: rest) reference

/-- Of two distinct keys one comes before the other, and not the other way round. -/
private theorem not_sublist_swapped {keys : List String} (distinct : keys.Nodup)
    {first second : String} (h : [first, second].Sublist keys) :
    ¬ [second, first].Sublist keys := by
  induction keys with
  | nil => cases h
  | cons key rest ih =>
    obtain ⟨hkey, hrest⟩ := List.nodup_cons.1 distinct
    intro hswapped
    cases h with
    | cons _ h =>
      cases hswapped with
      | cons _ hswapped => exact ih hrest h hswapped
      | cons_cons _ _ => exact hkey (h.subset (by simp))
    | cons_cons _ h =>
      cases hswapped with
      | cons _ hswapped => exact hkey (hswapped.subset (by simp))
      | cons_cons _ _ => exact hkey (h.subset (by simp))

/-- In a well-formed value pre-order goes one way only. -/
theorem Precedes.asymm {value : Value} {a b : List PathSegment} (h : value.Precedes a b)
    (wellFormed : value.WellFormed) : ¬ value.Precedes b a := by
  induction h with
  | whole =>
    intro hback
    cases hback
  | items before =>
    intro hback
    cases hback with
    | items after => exact Nat.lt_asymm before after
    | item _ _ => exact Nat.lt_irrefl _ before
  | item found inner ih =>
    intro hback
    cases hback with
    | items after => exact Nat.lt_irrefl _ after
    | item found' inner' =>
      cases wellFormed with
      | list held =>
        obtain rfl := Option.some.inj (found.symm.trans found')
        exact ih (held _ (List.mem_of_getElem? found)) inner'
  | members before =>
    cases wellFormed with
    | map distinct held =>
      intro hback
      cases hback with
      | members after => exact not_sublist_swapped distinct before after
      | member _ _ => exact not_sublist_swapped distinct before before
  | member found inner ih =>
    cases wellFormed with
    | map distinct held =>
      intro hback
      cases hback with
      | members after => exact not_sublist_swapped distinct after after
      | member found' inner' =>
        -- Under one key there is one value.
        have hvalue := ((Keyed.get?_eq_some_iff distinct).2 found).symm.trans
          ((Keyed.get?_eq_some_iff distinct).2 found')
        obtain rfl := Option.some.inj hvalue
        exact ih (held _ found) inner'

/-! ## What the walk finds -/

/-- The walk finds exactly the references that paths lead to. -/
theorem mem_references_iff_holds {value : Value} {path : List PathSegment}
    {reference : Reference} :
    (path, reference) ∈ value.references ↔ value.Holds path reference := by
  constructor
  · intro h
    induction path generalizing value with
    | nil =>
      cases value with
      | reference target snapshot =>
        obtain rfl : reference = ⟨target, snapshot⟩ := by simpa [references] using h
        exact .here
      | list items =>
        obtain ⟨_, _, _, _, _, hpath, _⟩ := mem_itemReferences h
        cases hpath
      | map members =>
        obtain ⟨_, _, _, _, hpath, _⟩ := mem_memberReferences h
        cases hpath
      | _ => exact absurd h List.not_mem_nil
    | cons segment rest ih =>
      cases value with
      | reference target snapshot => simp [references] at h
      | list items =>
        obtain ⟨front, item, back, inner, rfl, hpath, hmem⟩ := mem_itemReferences h
        obtain ⟨rfl, rfl⟩ := List.cons.inj hpath
        exact .item (by simp) (ih hmem)
      | map members =>
        obtain ⟨name, value, inner, hmember, hpath, hmem⟩ := mem_memberReferences h
        obtain ⟨rfl, rfl⟩ := List.cons.inj hpath
        exact .member hmember (ih hmem)
      | _ => exact absurd h List.not_mem_nil
  · intro holds
    induction holds with
    | here => exact List.mem_singleton_self _
    | item found inner ih =>
      obtain ⟨front, back, rfl, rfl⟩ := exists_append_of_getElem?_eq_some found
      rw [references, itemReferences_append, itemReferences, Nat.zero_add]
      apply List.mem_append_right
      apply List.mem_append_left
      exact PlacedReference.mem_below_iff.2 ⟨_, rfl, ih⟩
    | member found inner ih =>
      obtain ⟨front, back, rfl⟩ := List.append_of_mem found
      rw [references, memberReferences_append, memberReferences]
      apply List.mem_append_right
      apply List.mem_append_left
      exact PlacedReference.mem_below_iff.2 ⟨_, rfl, ih⟩

/-! ## In which order -/

mutual

/-- The walk goes in pre-order. -/
theorem pairwise_references : ∀ value : Value,
    value.references.Pairwise fun a b => value.Precedes a.1 b.1
  | .reference _ _ => List.pairwise_singleton _ _
  | .list items => pairwise_itemReferences items []
  | .map members => pairwise_memberReferences members []
  | .null | .bool _ | .number _ | .string _ => .nil

/-- The walk through the last items of a list goes in pre-order. -/
theorem pairwise_itemReferences : ∀ items front : List Value,
    (itemReferences front.length items).Pairwise fun a b =>
      (Value.list (front ++ items)).Precedes a.1 b.1
  | [], _ => .nil
  | item :: rest, front => by
    have hinner := pairwise_references item
    have hrest := pairwise_itemReferences rest (front ++ [item])
    rw [List.length_append, List.append_assoc] at hrest
    rw [itemReferences]
    refine List.pairwise_append.2 ⟨?_, hrest, ?_⟩
    · exact List.pairwise_map.2 (hinner.imp fun h => .item (by simp) h)
    · -- A reference in another item has a path with a later position.
      intro a ha b hb
      obtain ⟨inner, hpath, -⟩ := PlacedReference.mem_below_iff.1 ha
      obtain ⟨between, other, back, inner', -, hpath', -⟩ := mem_itemReferences hb
      rw [hpath, hpath']
      apply Precedes.items
      omega

/-- The walk through the last members of a map goes in pre-order. -/
theorem pairwise_memberReferences : ∀ members front : List (String × Value),
    (memberReferences members).Pairwise fun a b =>
      (Value.map (front ++ members)).Precedes a.1 b.1
  | [], _ => .nil
  | (name, value) :: rest, front => by
    have hinner := pairwise_references value
    have hrest := pairwise_memberReferences rest (front ++ [(name, value)])
    rw [List.append_assoc] at hrest
    rw [memberReferences]
    refine List.pairwise_append.2 ⟨?_, hrest, ?_⟩
    · exact List.pairwise_map.2 (hinner.imp fun h => .member (by simp) h)
    · -- A reference in another member has a path with a later key.
      intro a ha b hb
      obtain ⟨inner, hpath, -⟩ := PlacedReference.mem_below_iff.1 ha
      obtain ⟨other, value', inner', hmember, hpath', -⟩ := mem_memberReferences hb
      rw [hpath, hpath']
      apply Precedes.members
      rw [Keyed.keys, List.map_append]
      have hother : [other].Sublist (rest.map Prod.fst) :=
        List.singleton_sublist.2 (List.mem_map_of_mem hmember)
      exact (hother.cons_cons name).trans (List.sublist_append_right _ _)

end

/-- In a well-formed value the walk finds no two references at one place. -/
theorem nodup_paths {value : Value} (wellFormed : value.WellFormed) :
    (value.references.map Prod.fst).Nodup := by
  refine List.pairwise_map.2 ((pairwise_references value).imp fun {a b} hbefore heq => ?_)
  rw [heq] at hbefore
  exact hbefore.asymm wellFormed hbefore

/-! ## The way back -/

/-- In a well-formed value the path to a reference leads to it when it is looked up. -/
theorem Holds.at?_eq {value : Value} {path : List PathSegment} {reference : Reference}
    (holds : value.Holds path reference) (wellFormed : value.WellFormed) :
    value.at? path = some reference.toValue := by
  induction holds with
  | here => rfl
  | item found inner ih =>
    cases wellFormed with
    | list held =>
      rw [at?, child?, found]
      exact ih (held _ (List.mem_of_getElem? found))
  | member found inner ih =>
    cases wellFormed with
    | map distinct held =>
      rw [at?, child?, (Keyed.get?_eq_some_iff distinct).2 found]
      exact ih (held _ found)

/-- The part that is replaced at a place is the part that is found there. -/
theorem Replaced.at?_eq {value part new after : Value} {path : List PathSegment}
    (replaced : Replaced value path part new after) : value.at? path = some part := by
  induction replaced with
  | here => rfl
  | key first inner ih =>
    rw [at?, child?, Keyed.get?_append first]
    exact ih
  | index front back inner ih =>
    rw [at?, child?, List.getElem?_append_right (Nat.le_refl _), Nat.sub_self]
    exact ih

end Value

/-! ## Paths as text -/

namespace PathSegment

/-- A position that fits 64 bits is read from its text. -/
theorem listPosition?_text {position : Nat} (fits : position < Number.intBound) :
    listPosition? (index position).text = some position := by
  have isDigit {c : Char} (hc : c ∈ Number.digitsOf position) : c.isDigit = true :=
    Nat.isDigit_of_mem_toDigits (by decide) (by decide) hc
  unfold listPosition?
  rw [text, String.toList_ofList]
  dsimp only
  split
  case h_1 rest heq =>
    -- A plus sign is no digit.
    have hplus : '+' ∈ Number.digitsOf position := heq ▸ List.mem_cons_self
    exact absurd (isDigit hplus) (by decide)
  case h_2 =>
    rw [Number.ofDigits_digitsOf]
    apply if_pos
    exact ⟨Number.digitsOf_ne_nil position, List.all_eq_true.2 fun c => isDigit, fits⟩

/-- The text of a step has no dot, unless the step is a key that has one. -/
theorem dotFree_text {segment : PathSegment}
    (keys : ∀ name, segment = .key name → Dotted.DotFree name) : Dotted.DotFree segment.text := by
  cases segment with
  | key name => exact keys name rfl
  | index position =>
    intro hdot
    rw [text, String.toList_ofList] at hdot
    have hdigit : Dotted.separator.isDigit = true :=
      Nat.isDigit_of_mem_toDigits (by decide) (by decide) hdot
    exact absurd hdigit (by decide)

end PathSegment

namespace Value

/-- A step leads to the same part when it is given as text. -/
theorem child?_key_text {value part : Value} {segment : PathSegment}
    (fits : ∀ position : Nat, segment = .index position → position < Number.intBound)
    (h : value.child? segment = some part) : value.child? (.key segment.text) = some part := by
  cases segment with
  | key name => exact h
  | index position =>
    cases value with
    | list items =>
      rw [child?, PathSegment.listPosition?_text (fits position rfl)]
      exact h
    | _ => cases h

/-- A path leads to the same part when its steps are given as text. -/
theorem at?_map_key_text {value part : Value} {path : List PathSegment}
    (fits : ∀ position : Nat, .index position ∈ path → position < Number.intBound)
    (h : value.at? path = some part) :
    value.at? (path.map fun segment => .key segment.text) = some part := by
  induction path generalizing value with
  | nil => exact h
  | cons segment rest ih =>
    rw [at?] at h
    obtain ⟨child, hchild, hrest⟩ := Option.bind_eq_some_iff.1 h
    rw [List.map_cons, at?,
      child?_key_text (fun position heq => fits position (by simp [heq])) hchild]
    exact ih (fun position hposition => fits position (List.mem_cons_of_mem _ hposition)) hrest

end Value

/-- A path into a map whose keys have no dots leads to the same part when it is written with
dots. -/
theorem ValueMap.find?_join {values : ValueMap} {path : List PathSegment} {part : Value}
    (nonempty : path ≠ [])
    (keys : ∀ name, .key name ∈ path → Dotted.DotFree name)
    (fits : ∀ position : Nat, .index position ∈ path → position < Number.intBound)
    (h : (Value.map values).at? path = some part) :
    ValueMap.find? values (Dotted.join (path.map PathSegment.text)) = some part := by
  have hsplit : Dotted.split (Dotted.join (path.map PathSegment.text)) =
      path.map PathSegment.text := by
    refine Dotted.split_join (by simpa using nonempty) fun text htext => ?_
    obtain ⟨segment, hsegment, rfl⟩ := List.mem_map.1 htext
    exact PathSegment.dotFree_text fun name heq => keys name (heq ▸ hsegment)
  have htexts := Value.at?_map_key_text fits h
  rw [find?, hsplit]
  cases path with
  | nil => exact absurd rfl nonempty
  | cons segment rest =>
    simp only [List.map_cons, List.map_map]
    exact htexts

end ElementCatalog
