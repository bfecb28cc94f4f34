import ElementCatalog.Proofs.Element.Walk
import ElementCatalog.Proofs.Reading.Draft
import ElementCatalog.Value.Document

/-!
# Reading and writing at paths

A value is looked up at a path (`Instance.valueAt?`) and written at a path (`Instance.updateAt?`) by
two functions that take steps of their own. Both go by keys into maps and by positions into lists.
Only the one that looks up also takes a key into a list, as a position that is written in digits.

So what is written is what is read, at the place that is read from, and nothing else is found for
writing; but what is read by way of a key into a list cannot be written (`Instance.agreesAt_iff`).

## Main definitions

* `Value.TakesKeyIntoList`: a path leads to a list and goes on with a key;
* `Instance.AgreesAt`: a place is found for writing exactly if a value is found for reading, and
  what is written is read there.

## Main results

* `Value.exists_replaced_iff`: a part has a place at the end of a path exactly if it is found there
  without a key into a list;
* `Value.Replaced.symm`: what replaced a part can be replaced by it.
-/

namespace ElementCatalog

namespace Value

variable {value part new after : Value} {path : List PathSegment}

/-- The path leads from the value to a list and goes on with a key. -/
def TakesKeyIntoList (value : Value) (path : List PathSegment) : Prop :=
  ∃ front name rest items, path = front ++ .key name :: rest ∧ value.at? front = some (.list items)

/-- There is no key on the empty path. -/
theorem not_takesKeyIntoList_nil (value : Value) : ¬ value.TakesKeyIntoList [] := by
  rintro ⟨front, name, rest, items, hpath, -⟩
  simp at hpath

/-- A key is taken into a list with the first step or behind it. -/
theorem takesKeyIntoList_cons_iff {segment : PathSegment} {rest : List PathSegment} :
    value.TakesKeyIntoList (segment :: rest) ↔
      (∃ name items, segment = .key name ∧ value = .list items) ∨
        ∃ inner, value.child? segment = some inner ∧ inner.TakesKeyIntoList rest := by
  constructor
  · rintro ⟨front, name, back, items, hpath, hlist⟩
    cases front with
    | nil => exact .inl ⟨name, items, (List.cons.inj hpath).1, Option.some.inj hlist⟩
    | cons first front =>
      obtain ⟨rfl, rfl⟩ := List.cons.inj hpath
      obtain ⟨inner, hinner, hlist⟩ := Option.bind_eq_some_iff.1 hlist
      exact .inr ⟨inner, hinner, front, name, back, items, rfl, hlist⟩
  · rintro (⟨name, items, rfl, rfl⟩ | ⟨inner, hinner, front, name, back, items, rfl, hlist⟩)
    · exact ⟨[], name, rest, items, rfl, rfl⟩
    · exact ⟨segment :: front, name, back, items, rfl,
        Option.bind_eq_some_iff.2 ⟨inner, hinner, hlist⟩⟩

/-- What replaced a part at a place can be replaced by that part. -/
theorem Replaced.symm (replaced : Replaced value path part new after) :
    Replaced after path new part value := by
  induction replaced with
  | here => exact .here
  | key first inner ih => exact .key first ih
  | index front back inner ih => exact .index front back ih

/-- No key is taken into a list on the way to a place. -/
theorem Replaced.not_takesKeyIntoList (replaced : Replaced value path part new after) :
    ¬ value.TakesKeyIntoList path := by
  induction replaced with
  | here => exact not_takesKeyIntoList_nil _
  | key first inner ih =>
    rw [takesKeyIntoList_cons_iff]
    rintro (⟨_, _, -, ⟨⟩⟩ | ⟨found, hfound, htakes⟩)
    rw [child?, Keyed.get?_append first] at hfound
    exact ih (Option.some.inj hfound ▸ htakes)
  | index front back inner ih =>
    rw [takesKeyIntoList_cons_iff]
    rintro (⟨_, _, ⟨⟩, -⟩ | ⟨found, hfound, htakes⟩)
    rw [child?, List.getElem?_append_right (Nat.le_refl _), Nat.sub_self] at hfound
    exact ih (Option.some.inj hfound ▸ htakes)

/-- A part has a place at the end of a path exactly if it is found there without a key into a list.
-/
theorem exists_replaced_iff :
    (∃ after, Replaced value path part new after) ↔
      value.at? path = some part ∧ ¬ value.TakesKeyIntoList path := by
  constructor
  · rintro ⟨after, replaced⟩
    exact ⟨replaced.at?_eq, replaced.not_takesKeyIntoList⟩
  · rintro ⟨hpart, hkeys⟩
    induction path generalizing value with
    | nil =>
      obtain rfl := Option.some.inj hpart
      exact ⟨new, .here⟩
    | cons segment rest ih =>
      obtain ⟨inner, hinner, hpart⟩ := Option.bind_eq_some_iff.1 hpart
      rw [takesKeyIntoList_cons_iff, not_or] at hkeys
      obtain ⟨after, replaced⟩ := ih hpart fun htakes => hkeys.2 ⟨inner, hinner, htakes⟩
      -- Of the steps that lead on, only those into a list by a key have no place.
      cases segment with
      | key name =>
        cases value with
        | map members =>
          obtain ⟨front, back, rfl, hfirst⟩ := Keyed.exists_append_of_get?_eq_some hinner
          exact ⟨_, .key hfirst replaced⟩
        | list items => exact absurd ⟨name, items, rfl, rfl⟩ hkeys.1
        | _ => cases hinner
      | index position =>
        cases value with
        | list items =>
          obtain ⟨front, back, rfl, rfl⟩ := exists_append_of_getElem?_eq_some hinner
          exact ⟨_, .index front back replaced⟩
        | _ => cases hinner

end Value

namespace Instance

variable {self after : Instance} {path : ValuePath} {part new : Value}

/-- The path leads to a list in the instance and goes on with a key. -/
def TakesKeyIntoList (self : Instance) (path : ValuePath) : Prop :=
  (Value.map (self.valuesOf path.start)).TakesKeyIntoList path.segments

/-- What replaced a value at a place can be replaced by that value. -/
theorem Replaced.symm (replaced : self.Replaced path part new after) :
    after.Replaced path new part self := by
  obtain ⟨hpath, values, replaced, rfl⟩ := replaced
  refine ⟨hpath, self.valuesOf path.start, ?_, ?_⟩
  · rw [valuesOf_withValues_self]
    exact replaced.symm
  · cases path.start <;> rfl

/-- A value has a place at a path exactly if it is found there without a key into a list. -/
theorem exists_replaced_iff :
    (∃ after, self.Replaced path part new after) ↔
      self.valueAt? path = some part ∧ ¬ self.TakesKeyIntoList path := by
  constructor
  · rintro ⟨after, replaced⟩
    refine ⟨replaced.valueAt?_eq, ?_⟩
    obtain ⟨-, values, replaced, -⟩ := replaced
    exact replaced.not_takesKeyIntoList
  · rintro ⟨hpart, hkeys⟩
    have hpath : path.segments ≠ [] := by
      intro hnil
      simp [valueAt?, hnil] at hpart
    rw [valueAt?_eq_at? hpath] at hpart
    obtain ⟨value, replaced⟩ := Value.exists_replaced_iff.2 ⟨hpart, hkeys⟩
    obtain ⟨values, rfl⟩ := exists_map_of_replaced hpath replaced
    exact ⟨_, hpath, values, replaced, rfl⟩

/-- What is written at a path is read there, in place of what was read there before. -/
theorem exists_of_updateAt? {change : Value → Option Value}
    (h : self.updateAt? change path = some after) :
    ∃ part new, self.valueAt? path = some part ∧ change part = some new ∧
      self.Replaced path part new after ∧ after.valueAt? path = some new := by
  obtain ⟨part, new, replaced, hchange⟩ := updateAt?_eq_some_iff.1 h
  exact ⟨part, new, replaced.valueAt?_eq, hchange, replaced, replaced.symm.valueAt?_eq⟩

/-- A place is found for writing exactly if a value is found without a key into a list. -/
theorem exists_updateAt?_iff :
    (∃ after, self.updateAt? (fun _ => some new) path = some after) ↔
      (∃ part, self.valueAt? path = some part) ∧ ¬ self.TakesKeyIntoList path := by
  constructor
  · rintro ⟨after, hafter⟩
    obtain ⟨part, _, replaced, -⟩ := updateAt?_eq_some_iff.1 hafter
    have hfound := exists_replaced_iff.1 ⟨after, replaced⟩
    exact ⟨⟨part, hfound.1⟩, hfound.2⟩
  · rintro ⟨⟨part, hpart⟩, hkeys⟩
    obtain ⟨after, replaced⟩ := exists_replaced_iff.2 ⟨hpart, hkeys⟩
    exact ⟨after, updateAt?_eq_some_iff.2 ⟨part, new, replaced, rfl⟩⟩

/-- Reading and writing agree at a path. -/
structure AgreesAt (holder : Instance) (path : ValuePath) : Prop where
  /-- A place is found for writing exactly if a value is found for reading. -/
  finds_iff : ∀ new, (∃ after, holder.updateAt? (fun _ => some new) path = some after) ↔
    ∃ part, holder.valueAt? path = some part
  /-- What is read is what a change at the place is a change of. What is written instead is read
  afterwards, and all else stays as it is. -/
  same_place : ∀ change after, holder.updateAt? change path = some after →
    ∃ part new, holder.valueAt? path = some part ∧ change part = some new ∧
      holder.Replaced path part new after ∧ after.valueAt? path = some new

/-- What is written at a path is read there, in place of what was read there before. Reading and
writing agree at the path exactly if nothing is read there by way of a key into a list; what is read
in this way cannot be written. -/
theorem agreesAt_iff :
    (self.AgreesAt path ↔
        ¬ ((∃ part, self.valueAt? path = some part) ∧ self.TakesKeyIntoList path)) ∧
      ∀ change after, self.updateAt? change path = some after →
        ∃ part new, self.valueAt? path = some part ∧ change part = some new ∧
          self.Replaced path part new after ∧ after.valueAt? path = some new := by
  refine ⟨⟨?_, ?_⟩, fun change after => exists_of_updateAt?⟩
  · rintro agrees ⟨hfound, htakes⟩
    exact (exists_updateAt?_iff.1 ((agrees.finds_iff .null).2 hfound)).2 htakes
  · intro h
    refine ⟨fun new => ?_, fun change after => exists_of_updateAt?⟩
    rw [exists_updateAt?_iff, and_iff_left_iff_imp]
    exact fun hfound htakes => h ⟨hfound, htakes⟩

/-- An instance with an item in a list. -/
def listing : Instance :=
  .declare "a" "t" "x" [("l", .list [.null])]

/-- By the key of the list and the position, the item is read and written. -/
theorem agreesAt_iff_index :
    let path : ValuePath := ⟨.value, [.key "l", .index 0]⟩
    listing.AgreesAt path ∧ listing.valueAt? path = some .null ∧
      ∃ after, listing.updateAt? (fun _ => some (.bool true)) path = some after ∧
        after.valueAt? path = some (.bool true) := by
  intro path
  obtain ⟨hagrees, hwrites⟩ := @agreesAt_iff listing path
  have hupdate : listing.updateAt? (fun _ => some (.bool true)) path =
      some (.declare "a" "t" "x" [("l", .list [.bool true])]) :=
    rfl
  have hkeys : ¬ listing.TakesKeyIntoList path := (exists_updateAt?_iff.1 ⟨_, hupdate⟩).2
  obtain ⟨part, new, hpart, hnew, -, hafter⟩ := hwrites _ _ hupdate
  obtain rfl := Option.some.inj hnew
  exact ⟨hagrees.2 fun h => hkeys h.2, rfl, _, hupdate, hafter⟩

/-- With the position as a key, as a path in a document can have it, the item is read but cannot be
written. -/
theorem not_agreesAt_position_as_key :
    let path : ValuePath := ⟨.value, [.key "l", .key "0"]⟩
    Json.Document.read ValuePath.ofDraft path.toJson.compact = .ok path ∧
      listing.valueAt? path = some .null ∧
      (∀ change, listing.updateAt? change path = none) ∧
      ¬ listing.AgreesAt path := by
  intro path
  have hfound : listing.valueAt? path = some .null := by
    have hposition : listPosition? "0" = some 0 := by decide +kernel
    simp [valueAt?, listing, declare, valuesOf, path, Keyed.get?, Value.at?, Value.child?, hposition]
  refine ⟨?_, hfound, fun change => rfl, fun agrees => ?_⟩
  · exact (Json.Document.read_render _ Json.Layout.isBlank_compact path.toJson).trans rfl
  · obtain ⟨after, hafter⟩ := (agrees.finds_iff .null).2 ⟨_, hfound⟩
    cases hafter

end Instance

end ElementCatalog
