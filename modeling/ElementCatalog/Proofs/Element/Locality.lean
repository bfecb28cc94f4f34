import ElementCatalog.Proofs.Element.Access

/-!
# What a write at a path leaves alone

A value that is written at a path (`Instance.updateAt?`) is written at one place of an instance. The
walk through the instance meets the references of the new value where it met those of the old one,
between the same others in the same order; and outside the place no map gets or loses a key, no list
an item, and no value is another one (`Instance.exists_changesOnlyAt`).

What lies outside is said about all paths that can be looked up. Such a path can take keys into
lists, so its steps need not be those of the path that the write took.

## Main definitions

* `Value.placeOf` and `Instance.placeOf`: the steps by keys of maps and positions of lists that lead
  where a path leads;
* `Value.outline`: the keys of a map, the number of items in a list, and any other value as it is;
* `Instance.ChangesOnlyAt`: an instance is another one with a new value at a place.

## Main results

* `Value.Replaced.child?_cases`: the first step of a path that is looked up goes towards the place
  or to a part that stays;
* `Value.Replaced.at?_inside` and `Value.Replaced.at?_outside`: what is found at the place and below
  is the new value and its parts, and what is found elsewhere is what was found there before.
-/

namespace ElementCatalog

namespace Value

variable {value part new after : Value} {segment : PathSegment} {path rest : List PathSegment}

/-! ## Where a path leads -/

/-- The step by a key of a map or a position of a list that leads where a step leads. -/
def stepOf (value : Value) (segment : PathSegment) : PathSegment :=
  match value, segment with
  | list _, .key name => ((listPosition? name).map .index).getD segment
  | _, _ => segment

/-- The steps by keys of maps and positions of lists that lead where a path leads. -/
def placeOf (value : Value) : List PathSegment → List PathSegment
  | [] => []
  | segment :: rest =>
    value.stepOf segment :: ((value.child? segment).map (·.placeOf rest)).getD rest

/-- The place of a path lies in the part to which the first step leads. -/
theorem placeOf_cons {inner : Value} (h : value.child? segment = some inner) :
    value.placeOf (segment :: rest) = value.stepOf segment :: inner.placeOf rest := by
  rw [placeOf, h, Option.map_some, Option.getD_some]

/-- A path that takes no key into a list is the place where it leads. -/
theorem placeOf_eq_self (h : ¬ value.TakesKeyIntoList path) : value.placeOf path = path := by
  induction path generalizing value with
  | nil => rfl
  | cons segment rest ih =>
    rw [takesKeyIntoList_cons_iff, not_or] at h
    have hstep : value.stepOf segment = segment := by
      cases value with
      | list items =>
        cases segment with
        | index position => rfl
        | key name => exact absurd ⟨name, items, rfl, rfl⟩ h.1
      | _ => rfl
    cases hchild : value.child? segment with
    | none =>
      rw [placeOf, hstep, hchild]
      rfl
    | some inner =>
      rw [placeOf_cons hchild, hstep, ih fun htakes => h.2 ⟨inner, hchild, htakes⟩]

/-! ## What is found after a write -/

/-- What a value is, one level deep. -/
inductive Outline where
  /-- A map with its keys in order. -/
  | map (names : List String)
  /-- A list with the number of its items. -/
  | list (length : Nat)
  /-- A value without parts. A snapshot is no part of a reference. -/
  | whole (value : Value)

/-- The keys of a map, the number of items in a list, and any other value as it is. -/
def outline : Value → Outline
  | map members => .map (Keyed.keys members)
  | list items => .list items.length
  | value => .whole value

/-- A value keeps its outline when a part of it is replaced. -/
theorem Replaced.outline_eq (replaced : Replaced value path part new after) (hpath : path ≠ []) :
    after.outline = value.outline := by
  cases replaced with
  | here => exact absurd rfl hpath
  | key first inner => simp [outline, Keyed.keys]
  | index front back inner => simp [outline]

/-- A step goes towards the place where a part is replaced, or to a part that stays. -/
theorem Replaced.child?_cases (replaced : Replaced value (segment :: rest) part new after)
    (step : PathSegment) :
    (value.stepOf step = segment ∧ ∃ inner innerAfter, value.child? step = some inner ∧
        after.child? step = some innerAfter ∧ Replaced inner rest part new innerAfter) ∨
      (value.stepOf step ≠ segment ∧ after.child? step = value.child? step) := by
  cases replaced with
  | @key front back name value _ _ after _ first inner =>
    cases step with
    | index position => exact .inr ⟨by simp [stepOf], rfl⟩
    | key other =>
      by_cases h : other = name
      · subst h
        exact .inl ⟨rfl, _, _, Keyed.get?_append first, Keyed.get?_append first, inner⟩
      · refine .inr ⟨by simpa [stepOf] using h, ?_⟩
        rw [child?, child?, ← Keyed.put_append first after, Keyed.get?_put_of_ne h]
  | @index front back item _ _ after _ inner =>
    have at_position (position : Nat) :
        (PathSegment.index position = .index front.length ∧ ∃ inner innerAfter,
            (front ++ item :: back)[position]? = some inner ∧
            (front ++ after :: back)[position]? = some innerAfter ∧
            Replaced inner rest part new innerAfter) ∨
          (PathSegment.index position ≠ .index front.length ∧
            (front ++ after :: back)[position]? = (front ++ item :: back)[position]?) := by
      by_cases h : position = front.length
      · subst h
        exact .inl ⟨rfl, item, after, by simp, by simp, inner⟩
      · exact .inr ⟨by simpa using h, getElem?_beside item after h⟩
    cases step with
    | index position => exact at_position position
    | key name =>
      -- A key that reads as a position goes where the position goes, and any other key nowhere.
      cases hposition : listPosition? name with
      | none => exact .inr ⟨by simp [stepOf, hposition], by simp [child?, hposition]⟩
      | some position => simpa [stepOf, child?, hposition] using at_position position

/-- At the place and below, the new value and its parts are found, by every path that leads to the
place. -/
theorem Replaced.at?_inside (replaced : Replaced value path part new after)
    {other : List PathSegment} (leads : value.placeOf other = path) (rest : List PathSegment) :
    after.at? (other ++ rest) = new.at? rest := by
  induction other generalizing value path after with
  | nil =>
    subst leads
    cases replaced with
    | here => rfl
  | cons step others ih =>
    subst leads
    rcases replaced.child?_cases step with ⟨-, inner, innerAfter, hinner, hafter, replaced⟩ | ⟨h, -⟩
    · rw [List.cons_append, at?, hafter]
      exact ih replaced (List.cons.inj (placeOf_cons hinner)).2.symm
    · exact absurd rfl h

/-- Outside the place every value that is found has the outline that it had, and the same value is
found where the place does not lie in it. -/
theorem Replaced.at?_outside (replaced : Replaced value path part new after)
    {other : List PathSegment} (outside : ¬ path <+: value.placeOf other) :
    (after.at? other).map outline = (value.at? other).map outline ∧
      (¬ value.placeOf other <+: path → after.at? other = value.at? other) := by
  induction other generalizing value path after with
  | nil =>
    have hpath : path ≠ [] := fun h => outside (h ▸ List.nil_prefix)
    refine ⟨?_, fun aside => absurd List.nil_prefix aside⟩
    rw [at?, at?, Option.map_some, Option.map_some, replaced.outline_eq hpath]
  | cons step others ih =>
    cases path with
    | nil => exact absurd List.nil_prefix outside
    | cons segment rest =>
      rcases replaced.child?_cases step with
        ⟨hstep, inner, innerAfter, hinner, hafter, replaced⟩ | ⟨-, hchild⟩
      · -- The step is the first one to the place, so what counts is where the path goes from there.
        have hplace : value.placeOf (step :: others) = segment :: inner.placeOf others :=
          hstep ▸ placeOf_cons hinner
        rw [hplace, List.cons_prefix_cons, not_and] at outside
        rw [hplace, List.cons_prefix_cons, at?, at?, hinner, hafter]
        obtain ⟨houtline, hsame⟩ := ih replaced (outside rfl)
        exact ⟨houtline, fun aside => hsame fun h => aside ⟨rfl, h⟩⟩
      · rw [at?, at?, hchild]
        exact ⟨rfl, fun _ => rfl⟩

end Value

namespace Instance

variable {self after : Instance} {path other : ValuePath} {part new : Value}

/-- The path by keys of maps and positions of lists that leads where a path leads. -/
def placeOf (self : Instance) (path : ValuePath) : ValuePath :=
  ⟨path.start, (Value.map (self.valuesOf path.start)).placeOf path.segments⟩

/-- A path at which a value is replaced is the place where it leads. -/
theorem Replaced.placeOf_eq_self (replaced : self.Replaced path part new after) :
    self.placeOf path = path := by
  obtain ⟨-, values, replaced, -⟩ := replaced
  rw [placeOf, Value.placeOf_eq_self replaced.not_takesKeyIntoList]

/-- A value is looked up in the values that its path starts from, and in no others. -/
theorem valueAt?_congr (h : after.valuesOf path.start = self.valuesOf path.start) :
    after.valueAt? path = self.valueAt? path := by
  unfold valueAt?
  rw [h]

/-- At the place and below, the new value and its parts are found. -/
theorem Replaced.valueAt?_inside (replaced : self.Replaced path part new after)
    (leads : self.placeOf other = path) (rest : List PathSegment) :
    after.valueAt? ⟨other.start, other.segments ++ rest⟩ = new.at? rest := by
  obtain ⟨hpath, values, replaced, rfl⟩ := replaced
  obtain rfl := leads
  have hother : other.segments ++ rest ≠ [] := by
    intro hnil
    apply hpath
    rw [placeOf, (List.append_eq_nil_iff.1 hnil).1]
    rfl
  rw [valueAt?_eq_at? hother, placeOf, valuesOf_withValues_self]
  exact replaced.at?_inside rfl rest

/-- Outside the place values have the outlines that they had, and those that the place does not lie
in are the same. -/
theorem Replaced.valueAt?_outside (replaced : self.Replaced path part new after)
    (outside : ¬ (self.placeOf other).LiesIn path) :
    (after.valueAt? other).map Value.outline = (self.valueAt? other).map Value.outline ∧
      (¬ path.LiesIn (self.placeOf other) → after.valueAt? other = self.valueAt? other) := by
  obtain ⟨-, values, replaced, rfl⟩ := replaced
  by_cases hstart : other.start = path.start
  · by_cases hsegments : other.segments = []
    · simp [valueAt?, hsegments]
    · rw [valueAt?_eq_at? hsegments, valueAt?_eq_at? hsegments, hstart, valuesOf_withValues_self]
      have hplace : (self.placeOf other).segments =
          (Value.map (self.valuesOf path.start)).placeOf other.segments := by
        rw [placeOf, hstart]
      obtain ⟨houtline, hsame⟩ := replaced.at?_outside fun h => outside ⟨hstart, hplace ▸ h⟩
      exact ⟨houtline, fun aside => hsame fun h => aside ⟨hstart.symm, hplace ▸ h⟩⟩
  · rw [valueAt?_congr (valuesOf_withValues_of_ne self values hstart)]
    exact ⟨rfl, fun _ => rfl⟩

/-- Each section keeps its keys in their order. -/
theorem Replaced.keys_valuesOf (replaced : self.Replaced path part new after) (start : Section) :
    Keyed.keys (after.valuesOf start) = Keyed.keys (self.valuesOf start) := by
  obtain ⟨hpath, values, replaced, rfl⟩ := replaced
  by_cases h : start = path.start
  · subst h
    rw [valuesOf_withValues_self]
    exact Value.Outline.map.inj (replaced.outline_eq hpath)
  · rw [valuesOf_withValues_of_ne _ _ h]

/-- `holder.ChangesOnlyAt path new after`: what is at `path` in `holder` is `new` in `after`, and
all else stays as it is. -/
structure ChangesOnlyAt (holder : Instance) (path : ValuePath) (new : Value) (after : Instance) :
    Prop where
  /-- The references that lie in the value at the place are visited one after another. The
  references of the new value are visited in their stead, between the same others in front, which
  come before the place, and behind, which come after it. -/
  references : ∃ front block back,
    holder.references = front ++ block ++ back ∧
    after.references = front ++ belowPlace path new.references ++ back ∧
    (∀ placed ∈ block, placed.1.LiesIn path) ∧ holder.Flanks path front back
  /-- The path takes no key into a list, so it is the place where it leads. -/
  place : holder.placeOf path = path
  /-- By every path that leads to the place the new value is found, and its parts below. -/
  inside : ∀ other rest, holder.placeOf other = path →
    after.valueAt? ⟨other.start, other.segments ++ rest⟩ = new.at? rest
  /-- Outside the place, every map has the keys that it had, in their order, every list has as many
  items as it had, and every value without parts is the same. -/
  outline : ∀ other, ¬ (holder.placeOf other).LiesIn path →
    (after.valueAt? other).map Value.outline = (holder.valueAt? other).map Value.outline
  /-- Outside the place, every value that the place does not lie in is the same. -/
  aside : ∀ other, ¬ (holder.placeOf other).LiesIn path → ¬ path.LiesIn (holder.placeOf other) →
    after.valueAt? other = holder.valueAt? other
  /-- The field values and the annotations have the keys that they had, in their order. -/
  keys : ∀ start, Keyed.keys (after.valuesOf start) = Keyed.keys (holder.valuesOf start)
  /-- The other section is the same. -/
  other_section : ∀ start, start ≠ path.start → after.valuesOf start = holder.valuesOf start
  /-- The identifier is the same. -/
  id_eq : after.id = holder.id

/-- Where a value is replaced in a well-formed instance, nothing else changes. -/
theorem Replaced.changesOnlyAt (replaced : self.Replaced path part new after)
    (wellFormed : self.WellFormed) : self.ChangesOnlyAt path new after := by
  constructor
  case references =>
    obtain ⟨front, back, hself, hafter, flanks⟩ := replaced.references wellFormed
    refine ⟨front, _, back, hself, hafter, ?_, flanks⟩
    intro placed hplaced
    obtain ⟨inner, hinner, rfl⟩ := List.mem_map.1 hplaced
    obtain ⟨found, -, rfl⟩ := List.mem_map.1 hinner
    exact ⟨rfl, List.prefix_append _ _⟩
  case place => exact replaced.placeOf_eq_self
  case inside => exact fun other rest leads => replaced.valueAt?_inside leads rest
  case outline => exact fun other outside => (replaced.valueAt?_outside outside).1
  case aside => exact fun other outside => (replaced.valueAt?_outside outside).2
  case keys => exact replaced.keys_valuesOf
  case other_section =>
    intro start hstart
    obtain ⟨-, values, -, rfl⟩ := replaced
    exact valuesOf_withValues_of_ne _ _ hstart
  case id_eq => exact replaced.id_eq

/-- Where a place is found for writing in a well-formed instance, every value can be written, and
what is written changes nothing but the value at the place. -/
theorem exists_changesOnlyAt (wellFormed : self.WellFormed)
    (found : ∃ change after, self.updateAt? change path = some after) (new : Value) :
    ∃ after, self.updateAt? (fun _ => some new) path = some after ∧
      self.ChangesOnlyAt path new after := by
  obtain ⟨change, changed, hchanged⟩ := found
  obtain ⟨part, _, written, -⟩ := updateAt?_eq_some_iff.1 hchanged
  -- Whether there is a place does not depend on what is put there.
  obtain ⟨after, replaced⟩ := exists_replaced_iff.2 (exists_replaced_iff.1 ⟨changed, written⟩)
  refine ⟨after, updateAt?_eq_some_iff.2 ⟨part, new, replaced, rfl⟩, ?_⟩
  exact replaced.changesOnlyAt wellFormed

/-- An instance with references in front of the second item of a list, in it and behind it, in the
list and beside it. -/
def assembly : Instance where
  id := .ofInstance "a" "t" "x"
  value := [("b", .ofTarget (.ofInstance "a" "u" "p")),
    ("l", .list [.ofTarget (.ofInstance "a" "u" "q"),
      .map [("m", .ofTarget (.ofInstance "a" "u" "r")), ("n", .null)],
      .ofTarget (.ofInstance "a" "u" "s")]),
    ("c", .ofTarget (.ofInstance "a" "u" "p"))]
  annotations := [(parentKey, .ofTarget (.ofInstance "a" "s" "p"))]

/-- No map of the instance has a key twice. -/
theorem wellFormed_assembly : assembly.WellFormed := by
  have target := Value.wellFormed_ofTarget
  have hinner : (Value.map [("m", .ofTarget (.ofInstance "a" "u" "r")), ("n", .null)]).WellFormed :=
    .map (by decide) (by simpa using ⟨target _, Value.WellFormed.null⟩)
  intro start
  cases start with
  | value =>
    refine .map (by decide) ?_
    simpa [assembly, valuesOf] using
      ⟨target _, Value.WellFormed.list (by simpa using ⟨target _, hinner, target _⟩), target _⟩
  | annotations => exact .map (by decide) (by simpa [assembly, valuesOf] using target _)

/-- A list is written over a map with one reference. Its two references are visited in the place of
that one, and the last item is found there by a path that takes a key into the list around it. -/
theorem exists_changesOnlyAt_assembly :
    let path : ValuePath := ⟨.value, [.key "l", .index 1]⟩
    let new : Value :=
      .list [.ofTarget (.ofInstance "a" "v" "y"), .null, .ofTarget (.ofType "a" "v")]
    assembly.WellFormed ∧ (∃ change after, assembly.updateAt? change path = some after) ∧
      assembly.references.map (fun placed => placed.1.text) =
        ["value.b", "value.l.0", "value.l.1.m", "value.l.2", "value.c", "annotation._parent"] ∧
      ∃ after, assembly.updateAt? (fun _ => some new) path = some after ∧
        assembly.ChangesOnlyAt path new after ∧
        after.references.map (fun placed => placed.1.text) =
          ["value.b", "value.l.0", "value.l.1.0", "value.l.1.2", "value.l.2", "value.c",
            "annotation._parent"] ∧
        after.valueAt? ⟨.value, [.key "l", .key "1", .index 2]⟩ =
          some (.ofTarget (.ofType "a" "v")) := by
  intro path new
  have hfound : ∃ change after, assembly.updateAt? change path = some after := ⟨some, _, rfl⟩
  obtain ⟨after, hafter, changes⟩ := exists_changesOnlyAt wellFormed_assembly hfound new
  refine ⟨wellFormed_assembly, hfound, by decide +kernel, after, hafter, changes, ?_, ?_⟩
  · obtain rfl := Option.some.inj (hafter.symm.trans rfl)
    decide +kernel
  · have hposition : listPosition? "1" = some 1 := by decide +kernel
    have leads : assembly.placeOf ⟨.value, [.key "l", .key "1"]⟩ = path := by
      simp [placeOf, assembly, valuesOf, Value.placeOf, Value.stepOf, Value.child?, Keyed.get?,
        hposition, path]
    exact changes.inside ⟨.value, [.key "l", .key "1"]⟩ [.index 2] leads

end Instance

end ElementCatalog
