import ElementCatalog.Naming.Composition
import ElementCatalog.Proofs.Element.MapReferences
import Mathlib.Data.List.Forall2

/-!
# What a composed name is, and what it depends on

A name is what the fields and the first parent contribute, joined and made usable
(`Composition.name_eq_usableText`). It depends on other names only through the references that
`Composition.references` lists (`Composition.name_congr`). Instances that are alike up to what their
references lead to have equal composed texts if these references have equal names
(`Composition.Alike.compose_eq`).
-/

namespace ElementCatalog.Composition

variable {f g : Reference → String} {rules : NamingRules} {self : Instance}

/-! ## Alike instances -/

/-- Two fields are alike: both have no value, or related references, or other values with one
text. -/
inductive AlikeFields (related : Reference → Reference → Prop) :
    Option Value → Option Value → Prop
  /-- No values. -/
  | missing : AlikeFields related none none
  /-- References. -/
  | references {reference other : Reference} (h : related reference other) :
      AlikeFields related (some (.reference reference.target reference.snapshot))
        (some (.reference other.target other.snapshot))
  /-- Values that are no references. -/
  | texts {value other : Value} (hvalue : value.asReference? = none)
      (hother : other.asReference? = none) (h : value.nameFragment = other.nameFragment) :
      AlikeFields related (some value) (some other)

/-- Two instances are alike in all that the rules compose their names of. -/
structure Alike (related : Reference → Reference → Prop) (rules : NamingRules)
    (a b : Instance) : Prop where
  /-- The id fields are alike. -/
  fields : List.Forall₂ (AlikeFields related) (fieldValues rules a) (fieldValues rules b)
  /-- Both have a first parent that counts, and these are related, or none. -/
  parents : Option.Rel related (parent? rules a) (parent? rules b)

variable {related : Reference → Reference → Prop} {other : Instance}

/-- Fields are alike in both directions. -/
theorem AlikeFields.flip {value value' : Option Value} (alike : AlikeFields related value value') :
    AlikeFields (fun a b => related b a) value' value := by
  cases alike with
  | missing => exact .missing
  | references h => exact .references h
  | texts hvalue hother h => exact .texts hother hvalue h.symm

/-- Instances are alike in both directions. -/
theorem Alike.flip (alike : Alike related rules self other) :
    Alike (fun a b => related b a) rules other self where
  fields := alike.fields.flip.imp fun _ _ h => h.flip
  parents := by
    have hparents := alike.parents
    generalize parent? rules self = parent at hparents ⊢
    generalize parent? rules other = parent' at hparents ⊢
    cases hparents with
    | some h => exact .some h
    | none => exact .none

/-- Instances are alike in a wider relation, too. -/
theorem Alike.imp {related' : Reference → Reference → Prop} (alike : Alike related rules self other)
    (h : ∀ a b, related a b → related' a b) : Alike related' rules self other where
  fields := by
    refine alike.fields.imp fun value value' halike => ?_
    cases halike with
    | missing => exact .missing
    | references hrelated => exact .references (h _ _ hrelated)
    | texts hvalue hother htext => exact .texts hvalue hother htext
  parents := by
    have hparents := alike.parents
    generalize parent? rules self = parent at hparents ⊢
    generalize parent? rules other = parent' at hparents ⊢
    cases hparents with
    | some hrelated => exact .some (h _ _ hrelated)
    | none => exact .none

/-- An instance is alike to itself. -/
theorem alike_refl (h : ∀ reference ∈ references rules self, related reference reference) :
    Alike related rules self self where
  fields := by
    refine List.forall₂_same.2 fun value hvalue => ?_
    match value with
    | none => exact .missing
    | some (.reference target snapshot) =>
      exact .references (h ⟨target, snapshot⟩
        (List.mem_append_left _ (List.mem_filterMap.2 ⟨_, hvalue, rfl⟩)))
    | some .null | some (.bool _) | some (.number _) | some (.string _) | some (.list _)
    | some (.map _) => exact .texts rfl rfl rfl
  parents := by
    cases hparent : parent? rules self with
    | none => exact .none
    | some parent => exact .some (h parent (List.mem_append_right _ (by simp [hparent])))

/-- The parent of an instance with its references changed is the changed one. -/
theorem parent?_mapReferences (change : Reference → Reference) (rules : NamingRules)
    (self : Instance) :
    parent? rules (self.mapReferences change) = (parent? rules self).map change := by
  rw [parent?, parent?, Instance.parents_mapReferences]
  split
  · rw [List.head?_map]
  · rfl

/-- Fields that are equal up to their references are alike, if the references are related and the
texts of other values are equal. -/
theorem alikeFields_of_map_eq {change change' : Reference → Reference} {value value' : Option Value}
    (h : value.map (Value.mapReferences change) = value'.map (Value.mapReferences change'))
    (hreference : ∀ reference ∈ value.bind Value.asReference?, ∀ reference',
      change reference = change' reference' → related reference reference')
    (htext : ∀ held ∈ value, ∀ held' ∈ value', held.asReference? = none →
      held.nameFragment = held'.nameFragment) : AlikeFields related value value' := by
  cases value with
  | none =>
    obtain rfl : value' = none := Option.map_eq_none_iff.1 h.symm
    exact .missing
  | some held =>
    obtain ⟨held', rfl, heq⟩ := Option.map_eq_some_iff.1 h.symm
    -- One of them is a reference exactly if the other one is.
    have hsame : held.asReference?.map change = held'.asReference?.map change' := by
      rw [← Value.asReference?_mapReferences, ← heq, Value.asReference?_mapReferences]
    cases hheld : held.asReference? with
    | none =>
      rw [hheld] at hsame
      have hheld' : held'.asReference? = none := Option.map_eq_none_iff.1 hsame.symm
      exact .texts hheld hheld' (htext held rfl held' rfl hheld)
    | some reference =>
      rw [hheld] at hsame
      obtain ⟨reference', hheld', hchange⟩ := Option.map_eq_some_iff.1 hsame.symm
      obtain rfl := Value.eq_toValue_of_asReference?_eq_some hheld
      obtain rfl := Value.eq_toValue_of_asReference?_eq_some hheld'
      exact .references (hreference reference rfl reference' hchange.symm)

/-- Instances that are equal up to their references are alike, if the references that count are
related and the texts of other id fields are equal. -/
theorem alike_of_mapReferences_eq {change change' : Reference → Reference}
    (h : self.mapReferences change = other.mapReferences change')
    (hreference : ∀ reference ∈ references rules self, ∀ reference',
      change reference = change' reference' → related reference reference')
    (htext : ∀ field ∈ rules.idFields, ∀ value ∈ ValueMap.find? self.value field.path,
      ∀ value' ∈ ValueMap.find? other.value field.path, value.asReference? = none →
      value.nameFragment = value'.nameFragment) : Alike related rules self other where
  fields := by
    rw [fieldValues, fieldValues, List.forall₂_map_left_iff, List.forall₂_map_right_iff,
      List.forall₂_same]
    intro field hfield
    have hvalue : (ValueMap.find? self.value field.path).map (Value.mapReferences change) =
        (ValueMap.find? other.value field.path).map (Value.mapReferences change') := by
      rw [← Value.find?_mapMemberReferences, ← Value.find?_mapMemberReferences]
      exact congrArg (ValueMap.find? · field.path) (congrArg Instance.value h)
    refine alikeFields_of_map_eq hvalue (fun reference hmem => ?_) (htext field hfield)
    refine hreference reference (List.mem_append_left _ (List.mem_filterMap.2 ⟨_, ?_, hmem⟩))
    exact List.mem_map_of_mem hfield
  parents := by
    have hparents : (parent? rules self).map change = (parent? rules other).map change' := by
      rw [← parent?_mapReferences, h, parent?_mapReferences]
    cases hself : parent? rules self with
    | none =>
      rw [hself] at hparents
      rw [Option.map_eq_none_iff.1 hparents.symm]
      exact .none
    | some parent =>
      rw [hself] at hparents
      obtain ⟨parent', hother, hchange⟩ := Option.map_eq_some_iff.1 hparents.symm
      rw [hother]
      exact .some
        (hreference parent (List.mem_append_right _ (by simp [hself])) parent' hchange.symm)

/-- Each reference that counts has a related one in an alike instance. -/
theorem Alike.exists_related (alike : Alike related rules self other) {reference : Reference}
    (h : reference ∈ references rules self) :
    ∃ reference' ∈ references rules other, related reference reference' := by
  rcases List.mem_append.1 h with h | h
  · obtain ⟨value, hvalue, hreference⟩ := List.mem_filterMap.1 h
    obtain ⟨value', hvalue', halike⟩ := exists_mem_of_forall₂ alike.fields hvalue
    cases halike with
    | missing => cases hreference
    | references hrelated =>
      cases hreference
      exact ⟨_, List.mem_append_left _ (List.mem_filterMap.2 ⟨_, hvalue', rfl⟩), hrelated⟩
    | texts hnone =>
      rw [Option.bind_some, hnone] at hreference
      cases hreference
  · have hparents := alike.parents
    rw [Option.mem_toList.1 h] at hparents
    cases hother : parent? rules other with
    | none =>
      rw [hother] at hparents
      cases hparents
    | some parent =>
      rw [hother] at hparents
      cases hparents with
      | some hrelated => exact ⟨parent, List.mem_append_right _ (by simp [hother]), hrelated⟩

/-- Alike fields contribute the same if related references have the same name. -/
theorem AlikeFields.contribution_eq {value value' : Option Value}
    (alike : AlikeFields related value value')
    (h : ∀ reference ∈ value.bind Value.asReference?, ∀ reference', related reference reference' →
      f reference = g reference') : contribution f value = contribution g value' := by
  cases alike with
  | missing => rfl
  | @references reference reference' hrelated => exact h reference rfl reference' hrelated
  | @texts value value' hvalue hvalue' htext =>
    have hliteral {nameOf : Reference → String} {value : Value} (hnone : value.asReference? = none) :
        contribution nameOf (some value) = value.nameFragment := by
      match value, hnone with
      | .null, _ | .bool _, _ | .number _, _ | .string _, _ | .list _, _ | .map _, _ => rfl
    rw [hliteral hvalue, hliteral hvalue', htext]

/-- Alike instances have one composed text if related references have the same name. -/
theorem Alike.compose_eq (alike : Alike related rules self other)
    (h : ∀ reference ∈ references rules self, ∀ reference', related reference reference' →
      f reference = g reference') : compose f rules self = compose g rules other := by
  have hfields : ∀ {values values' : List (Option Value)},
      List.Forall₂ (AlikeFields related) values values' → values ⊆ fieldValues rules self →
      values.map (fun value => (contribution f value).toList) =
        values'.map fun value => (contribution g value).toList := by
    intro values values' halike hsubset
    induction halike with
    | nil => rfl
    | cons hhead _ ih =>
      obtain ⟨hmem, hrest⟩ := List.cons_subset.1 hsubset
      rw [List.map_cons, List.map_cons, ih hrest, hhead.contribution_eq fun reference hreference =>
        h reference (List.mem_append_left _ (List.mem_filterMap.2 ⟨_, hmem, hreference⟩))]
  unfold compose
  rw [hfields alike.fields (List.Subset.refl _)]
  have hname : ∀ parent ∈ parent? rules self, ∀ parent', related parent parent' →
      f parent = g parent' := fun parent hparent =>
    h parent (List.mem_append_right _ (Option.mem_toList.2 hparent))
  have hparents := alike.parents
  generalize parent? rules self = parent at hname hparents ⊢
  generalize parent? rules other = parent' at hparents ⊢
  cases hparents with
  | none => rfl
  | some hrelated => simp only [hname _ rfl _ hrelated]

/-- A composed text depends only on the names of the references in question. -/
theorem compose_congr (h : ∀ reference ∈ references rules self, f reference = g reference) :
    compose f rules self = compose g rules self := by
  have alike : Alike Eq rules self self := alike_refl fun _ _ => rfl
  exact alike.compose_eq fun reference hreference _ heq => heq ▸ h reference hreference

/-- A name depends only on the names of the references in question. -/
theorem name_congr (h : ∀ reference ∈ references rules self, f reference = g reference) :
    name f rules self = name g rules self := by
  rw [name, compose_congr h, name]

/-! ## The composed text -/

/-- What a field of an instance contributes: nothing where there is no value, the name of what it
refers to where it holds a reference, and the text of any other value. -/
def fieldText (nameOf : Reference → String) (self : Instance) (field : IdField) : String :=
  match ValueMap.find? self.value field.path with
  | none => ""
  | some (.reference target snapshot) => nameOf ⟨target, snapshot⟩
  | some value => value.nameFragment

/-- What the fields contribute, joined by `_`, behind the name of the first parent and `__` if the
rules extend the parent and there is one. -/
def joinedText (nameOf : Reference → String) (rules : NamingRules) (self : Instance) : String :=
  let own := "_".intercalate (rules.idFields.map (fieldText nameOf self))
  match rules.extendsParent, self.parents with
  | true, parent :: _ => nameOf parent ++ "__" ++ own
  | _, _ => own

/-- A text with its dots turned into `_`, or another text if it consists of `_` only. -/
def usableText (joined otherwise : String) : String :=
  if joined.toList.all (· = '_') then otherwise
  else joined.map fun c => if c = '.' then '_' else c

/-- A field contributes the text of its value. -/
theorem contribution_find? (nameOf : Reference → String) (self : Instance) (field : IdField) :
    contribution nameOf (ValueMap.find? self.value field.path) = fieldText nameOf self field := by
  rw [fieldText]
  match ValueMap.find? self.value field.path with
  | none => rfl
  | some (.reference target snapshot) => rfl
  | some .null | some (.bool _) | some (.number _) | some (.string _) | some (.list _)
  | some (.map _) => rfl

/-- What is composed are the joined contributions. -/
theorem compose_eq_joinedText (nameOf : Reference → String) (rules : NamingRules)
    (self : Instance) : compose nameOf rules self = joinedText nameOf rules self := by
  -- Joining lists of characters is joining the texts.
  have hown : String.ofList ([joiner].intercalate ((fieldValues rules self).map fun value =>
        (contribution nameOf value).toList)) =
      "_".intercalate (rules.idFields.map (fieldText nameOf self)) := by
    rw [← String.ofList_toList (s := "_".intercalate _), String.toList_intercalate]
    simp only [fieldValues, List.map_map, Function.comp_def, contribution_find?]
    rfl
  rw [compose, joinedText, hown, parent?]
  cases rules.extendsParent with
  | false => rfl
  | true =>
    cases self.parents with
    | nil => rfl
    | cons parent rest => rfl

/-- A name is the composed text made usable, or else the last part of the identifier. -/
theorem name_eq_usableText (nameOf : Reference → String) (rules : NamingRules) (self : Instance) :
    name nameOf rules self = usableText (joinedText nameOf rules self) self.id.name := by
  rw [name, compose_eq_joinedText, usable?, usableText, String.map_eq_internal]
  by_cases h : (joinedText nameOf rules self).toList.all (· = joiner)
  · rw [if_pos h]
    exact (if_pos h).symm
  · rw [if_neg h]
    exact (if_neg h).symm

end ElementCatalog.Composition
