import ElementCatalog.Proofs.Value.Place

/-!
# Places in instances

`Instance.updateAt?` replaces a value at a place in the field values or the annotations of an
instance, and leaves all else as it is.

## Main definitions

* `Instance.WellFormed`: no map in the field values or the annotations has a key twice;
* `Instance.Replaced`: an instance with the value at a place replaced;
* `Instance.Precedes`: one place comes before another one;
* `Instance.Flanks`: the references in front of a place and those behind it.

## Main results

* `Instance.updateAt?_eq_some_iff`: a change succeeds exactly at places whose value it changes;
* `Instance.Replaced.references`: the references below the place are exchanged, and those in front
  of it and behind it stay, in their order;
* `Instance.Replaced.references_reference`: where one reference is put for another, just the
  reference at the place changes.
-/

namespace ElementCatalog

/-- The path leads to a place or to a part of what is there. -/
def ValuePath.LiesIn (path place : ValuePath) : Prop :=
  path.start = place.start ∧ place.segments <+: path.segments

/-- A place lies in itself. -/
theorem ValuePath.liesIn_refl (path : ValuePath) : path.LiesIn path :=
  ⟨rfl, List.prefix_refl _⟩

namespace Instance

/-- No map in the field values or the annotations has a key twice. -/
def WellFormed (self : Instance) : Prop :=
  ∀ start, (Value.map (self.valuesOf start)).WellFormed

/-- `self.Replaced path part new after`: the value of `self` at `path` is `part`, and with `new`
there instead the instance is `after`. -/
def Replaced (self : Instance) (path : ValuePath) (part new : Value) (after : Instance) : Prop :=
  path.segments ≠ [] ∧ ∃ values,
    Value.Replaced (.map (self.valuesOf path.start)) path.segments part new (.map values) ∧
      after = self.withValues values path.start

/-- One place of the instance comes before another one. -/
inductive Precedes (self : Instance) : ValuePath → ValuePath → Prop
  /-- Field values come before annotations. -/
  | sections {a b : List PathSegment} : Precedes self ⟨.value, a⟩ ⟨.annotations, b⟩
  /-- Within a section places come in pre-order. -/
  | within {start : Section} {a b : List PathSegment}
      (inner : (Value.map (self.valuesOf start)).Precedes a b) :
      Precedes self ⟨start, a⟩ ⟨start, b⟩

/-- Other values where a path starts are the values there. -/
@[simp]
theorem valuesOf_withValues_self (self : Instance) (values : ValueMap) (start : Section) :
    (self.withValues values start).valuesOf start = values := by
  cases start <;> rfl

/-- Other values where a path starts leave the values elsewhere as they are. -/
theorem valuesOf_withValues_of_ne (self : Instance) (values : ValueMap) {start other : Section}
    (h : other ≠ start) : (self.withValues values start).valuesOf other = self.valuesOf other := by
  cases start <;> cases other <;> first | rfl | exact absurd rfl h

/-- Other values leave the identifier as it is. -/
@[simp]
theorem id_withValues (self : Instance) (values : ValueMap) (start : Section) :
    (self.withValues values start).id = self.id := by
  cases start <;> rfl

/-- A change of an instance is a change of the map that the path starts from. -/
theorem updateAt?_eq_some_iff_update? {change : Value → Option Value} {self after : Instance}
    {path : ValuePath} :
    self.updateAt? change path = some after ↔ path.segments ≠ [] ∧ ∃ values,
      (Value.map (self.valuesOf path.start)).update? change path.segments = some (.map values) ∧
        after = self.withValues values path.start := by
  unfold updateAt?
  match path.segments with
  | [] => simp
  | .index position :: rest => simp [Value.update?]
  | .key name :: rest =>
    simp only [Value.update?, Option.bind_eq_bind, Option.bind_eq_some_iff, Option.pure_def,
      Option.some.injEq, Value.map.injEq, ne_eq, reduceCtorEq, not_false_eq_true, true_and]
    constructor
    · rintro ⟨value, hvalue, part, hpart, rfl⟩
      exact ⟨_, ⟨value, hvalue, part, hpart, rfl⟩, rfl⟩
    · rintro ⟨values, ⟨value, hvalue, part, hpart, rfl⟩, rfl⟩
      exact ⟨value, hvalue, part, hpart, rfl⟩

/-- A part of a map that is replaced leaves a map. -/
theorem exists_map_of_replaced {members : List (String × Value)} {path : List PathSegment}
    {part new after : Value} (hpath : path ≠ [])
    (replaced : Value.Replaced (.map members) path part new after) :
    ∃ values, after = .map values := by
  cases replaced with
  | here => exact absurd rfl hpath
  | key first inner => exact ⟨_, rfl⟩

/-- A change succeeds exactly at the places whose value it changes. -/
theorem updateAt?_eq_some_iff {change : Value → Option Value} {self after : Instance}
    {path : ValuePath} :
    self.updateAt? change path = some after ↔
      ∃ part new, self.Replaced path part new after ∧ change part = some new := by
  rw [updateAt?_eq_some_iff_update?]
  constructor
  · rintro ⟨hpath, values, hupdate, rfl⟩
    obtain ⟨part, new, replaced, hchange⟩ := Value.update?_eq_some_iff.1 hupdate
    exact ⟨part, new, ⟨hpath, values, replaced, rfl⟩, hchange⟩
  · rintro ⟨part, new, ⟨hpath, values, replaced, rfl⟩, hchange⟩
    exact ⟨hpath, values, Value.update?_eq_some_iff.2 ⟨part, new, replaced, hchange⟩, rfl⟩

variable {self after : Instance} {path : ValuePath} {part new : Value}

/-- Replacing a value leaves the identifier as it is. -/
theorem Replaced.id_eq (replaced : self.Replaced path part new after) : after.id = self.id := by
  obtain ⟨-, values, -, rfl⟩ := replaced
  exact id_withValues _ _ _

/-- An instance stays well-formed if what is put at a place is. -/
theorem Replaced.wellFormed (replaced : self.Replaced path part new after)
    (hself : self.WellFormed) (hnew : part.WellFormed → new.WellFormed) : after.WellFormed := by
  obtain ⟨-, values, replaced, rfl⟩ := replaced
  intro start
  by_cases h : start = path.start
  · subst h
    simpa using replaced.wellFormed (hself _) hnew
  · rw [valuesOf_withValues_of_ne _ _ h]
    exact hself start

/-- References found in the map that a section is. -/
def inSection (start : Section) (found : List PlacedReference) : List (ValuePath × Reference) :=
  found.map fun placed => (⟨start, placed.1⟩, placed.2)

/-- The references that an instance holds in one section. -/
def referencesIn (self : Instance) (start : Section) : List (ValuePath × Reference) :=
  inSection start (Value.map (self.valuesOf start)).references

/-- The references of an instance are those of the field values and then of the annotations. -/
theorem references_eq (self : Instance) :
    self.references = self.referencesIn .value ++ self.referencesIn .annotations := by
  simp [references, referencesIn, inSection, Value.references]

/-- The references of an instance have the paths of those in the section that the path starts
from. -/
theorem mem_references_iff {reference : Reference} :
    (path, reference) ∈ self.references ↔
      (path.segments, reference) ∈ (Value.map (self.valuesOf path.start)).references := by
  obtain ⟨start, segments⟩ := path
  simp only [references_eq, referencesIn, inSection, List.mem_append, List.mem_map,
    Prod.mk.injEq, ValuePath.mk.injEq, Prod.exists]
  cases start <;> simp

/-- Other values where a path starts leave the references elsewhere as they are. -/
theorem referencesIn_withValues_of_ne (self : Instance) (values : ValueMap) {start other : Section}
    (h : other ≠ start) :
    (self.withValues values start).referencesIn other = self.referencesIn other := by
  rw [referencesIn, valuesOf_withValues_of_ne _ _ h, referencesIn]

/-- The path to a reference of a section starts there. -/
theorem start_eq_of_mem_inSection {start : Section} {found : List PlacedReference}
    {placed : ValuePath × Reference} (h : placed ∈ inSection start found) :
    placed.1.start = start := by
  obtain ⟨inner, -, rfl⟩ := List.mem_map.1 h
  rfl

/-- References found below a place of an instance. -/
def belowPlace (path : ValuePath) (found : List PlacedReference) : List (ValuePath × Reference) :=
  inSection path.start (PlacedReference.belowPath path.segments found)

/-- `holder.Flanks path front back`: of the references that do not lie in the value at `path`,
`front` come before this place and `back` after it. -/
structure Flanks (holder : Instance) (path : ValuePath)
    (front back : List (ValuePath × Reference)) : Prop where
  /-- What lies in front comes before the place. -/
  before : ∀ placed ∈ front, holder.Precedes placed.1 path
  /-- What lies behind comes after the place. -/
  behind : ∀ placed ∈ back, holder.Precedes path placed.1
  /-- Neither lies in the value at the place. -/
  beside : ∀ placed ∈ front ++ back, ¬ placed.1.LiesIn path

section Flanks

variable {segments : List PathSegment} {front back : List (ValuePath × Reference)}

/-- In its section, a place has around it what it has around it in the map that the section is. -/
theorem Flanks.ofValues {start : Section} {front back : List PlacedReference}
    (flanks : (Value.map (self.valuesOf start)).Flanks segments front back) :
    self.Flanks ⟨start, segments⟩ (inSection start front) (inSection start back) := by
  constructor
  case before =>
    intro placed hplaced
    obtain ⟨inner, hinner, rfl⟩ := List.mem_map.1 hplaced
    exact .within (flanks.before inner hinner)
  case behind =>
    intro placed hplaced
    obtain ⟨inner, hinner, rfl⟩ := List.mem_map.1 hplaced
    exact .within (flanks.behind inner hinner)
  case beside =>
    intro placed hplaced
    rw [inSection, inSection, ← List.map_append] at hplaced
    obtain ⟨inner, hinner, rfl⟩ := List.mem_map.1 hplaced
    exact fun hlies => flanks.beside inner hinner hlies.2

/-- The references of the annotations lie behind every place in the field values. -/
theorem Flanks.append_annotations (flanks : self.Flanks ⟨.value, segments⟩ front back) :
    self.Flanks ⟨.value, segments⟩ front (back ++ self.referencesIn .annotations) := by
  constructor
  case before => exact flanks.before
  case behind =>
    intro placed hplaced
    rcases List.mem_append.1 hplaced with h | h
    · exact flanks.behind placed h
    · obtain ⟨inner, -, rfl⟩ := List.mem_map.1 h
      exact .sections
  case beside =>
    intro placed hplaced hlies
    rw [← List.append_assoc] at hplaced
    rcases List.mem_append.1 hplaced with h | h
    · exact flanks.beside placed h hlies
    · cases hlies.1.symm.trans (start_eq_of_mem_inSection h)

/-- The references of the field values lie in front of every place in the annotations. -/
theorem Flanks.append_value (flanks : self.Flanks ⟨.annotations, segments⟩ front back) :
    self.Flanks ⟨.annotations, segments⟩ (self.referencesIn .value ++ front) back := by
  constructor
  case before =>
    intro placed hplaced
    rcases List.mem_append.1 hplaced with h | h
    · obtain ⟨inner, -, rfl⟩ := List.mem_map.1 h
      exact .sections
    · exact flanks.before placed h
  case behind => exact flanks.behind
  case beside =>
    intro placed hplaced hlies
    rw [List.append_assoc] at hplaced
    rcases List.mem_append.1 hplaced with h | h
    · cases hlies.1.symm.trans (start_eq_of_mem_inSection h)
    · exact flanks.beside placed h hlies

end Flanks

/-- The references below the place are exchanged, and those around it stay. -/
theorem Replaced.references (replaced : self.Replaced path part new after)
    (wellFormed : self.WellFormed) :
    ∃ front back,
      self.references = front ++ belowPlace path part.references ++ back ∧
      after.references = front ++ belowPlace path new.references ++ back ∧
      self.Flanks path front back := by
  obtain ⟨-, values, replaced, rfl⟩ := replaced
  obtain ⟨front, back, hself, hafter, flanks⟩ := replaced.references (wellFormed _)
  obtain ⟨start, segments⟩ := path
  have hselfIn : self.referencesIn start = inSection start front ++
      belowPlace ⟨start, segments⟩ part.references ++ inSection start back := by
    simp [referencesIn, inSection, belowPlace, hself]
  have hafterIn : (self.withValues values start).referencesIn start = inSection start front ++
      belowPlace ⟨start, segments⟩ new.references ++ inSection start back := by
    simp [referencesIn, inSection, belowPlace, hafter]
  -- The other section lies behind the field values or in front of the annotations.
  cases start with
  | value =>
    have hne : Section.annotations ≠ .value := by decide
    have hother := self.referencesIn_withValues_of_ne values hne
    refine ⟨_, _, ?_, ?_, (Flanks.ofValues flanks).append_annotations⟩
    · simp only [references_eq, hselfIn, List.append_assoc]
    · simp only [references_eq, hafterIn, hother, List.append_assoc]
  | annotations =>
    have hne : Section.value ≠ .annotations := by decide
    have hother := self.referencesIn_withValues_of_ne values hne
    refine ⟨_, _, ?_, ?_, (Flanks.ofValues flanks).append_value⟩
    · simp only [references_eq, hselfIn, List.append_assoc]
    · simp only [references_eq, hafterIn, hother, List.append_assoc]

/-- Where a reference is put for another, just the reference at the place changes. -/
theorem Replaced.references_reference {reference moved : Reference} (wellFormed : self.WellFormed)
    (replaced : self.Replaced path reference.toValue moved.toValue after) :
    ∃ front back,
      self.references = front ++ (path, reference) :: back ∧
      after.references = front ++ (path, moved) :: back ∧
      ∀ placed ∈ front ++ back, placed.1 ≠ path := by
  obtain ⟨front, back, hself, hafter, flanks⟩ := replaced.references wellFormed
  refine ⟨front, back, ?_, ?_, ?_⟩
  · simpa [belowPlace, PlacedReference.belowPath, inSection, Reference.toValue,
      Value.references] using hself
  · simpa [belowPlace, PlacedReference.belowPath, inSection, Reference.toValue,
      Value.references] using hafter
  · rintro placed hplaced rfl
    exact flanks.beside placed hplaced (ValuePath.liesIn_refl _)

/-- Every reference of a well-formed instance has its place, where anything can be put. -/
theorem exists_replaced (wellFormed : self.WellFormed) {reference : Reference}
    (h : (path, reference) ∈ self.references) (new : Value) :
    ∃ after, self.Replaced path reference.toValue new after := by
  have hmem := mem_references_iff.1 h
  have hpath : path.segments ≠ [] := by
    intro hnil
    rw [hnil] at hmem
    rw [Value.references] at hmem
    obtain ⟨_, _, _, _, heq, _⟩ := Value.mem_memberReferences hmem
    cases heq
  obtain ⟨value, replaced⟩ := Value.exists_replaced (wellFormed _) hmem new
  obtain ⟨values, rfl⟩ := exists_map_of_replaced hpath replaced
  exact ⟨_, hpath, values, replaced, rfl⟩

/-- In a well-formed instance a reference is the only one with its path. -/
theorem exists_append_of_mem_references (wellFormed : self.WellFormed) {reference : Reference}
    (h : (path, reference) ∈ self.references) :
    ∃ front back, self.references = front ++ (path, reference) :: back ∧
      ∀ placed ∈ front ++ back, placed.1 ≠ path := by
  obtain ⟨after, replaced⟩ := exists_replaced wellFormed h reference.toValue
  obtain ⟨front, back, hself, -, hbeside⟩ := replaced.references_reference wellFormed
  exact ⟨front, back, hself, hbeside⟩

/-- References with one path in a well-formed instance are the same. -/
theorem eq_of_mem_references (wellFormed : self.WellFormed) {reference other : Reference}
    (h : (path, reference) ∈ self.references) (hother : (path, other) ∈ self.references) :
    other = reference := by
  obtain ⟨front, back, hself, hbeside⟩ := exists_append_of_mem_references wellFormed h
  rw [hself, List.mem_append, List.mem_cons] at hother
  rcases hother with hfront | heq | hback
  · exact absurd rfl (hbeside _ (List.mem_append_left _ hfront))
  · exact (Prod.mk.inj heq).2
  · exact absurd rfl (hbeside _ (List.mem_append_right _ hback))

end Instance

end ElementCatalog
