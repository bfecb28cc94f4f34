import ElementCatalog.Proofs.Naming.Rounds

/-!
# Texts that cannot be names

A composed text cannot be used as a name if it is blank, that is, if it consists of `_` only. A text
with dots can be used, and its dots turn into `_`; so a text of dots and `_` makes a blank name.
If no text that names are composed of is of this kind (`Plain`), a name is blank only where an
instance falls back on the last part of its identifier, and an instance that falls back on it in one
round does so in the last one (`Batch.blank_compose_plan`).
-/

namespace ElementCatalog

/-- A text that consists of `_` only. -/
def Blank (text : String) : Prop :=
  ∀ c ∈ text.toList, c = Composition.joiner

/-- A text that does not turn into a blank one when dots turn into `_`, unless it is blank. -/
def Plain (text : String) : Prop :=
  (∀ c ∈ text.toList, c = Dotted.separator ∨ c = Composition.joiner) → Blank text

namespace Composition

variable {f g : Reference → String} {rules : NamingRules} {self : Instance} {text : String}

/-- Exactly the blank texts cannot be used. -/
theorem usable?_eq_none_iff : usable? text = none ↔ Blank text := by
  rw [usable?, Blank]
  by_cases h : text.toList.all (· = joiner) = true
  · rw [if_pos h]
    simpa using h
  · rw [if_neg h]
    simpa using h

/-- A text that can be used is used without its dots. -/
theorem separator_not_mem_of_usable?_eq_some {name : String} (h : usable? text = some name) :
    Dotted.separator ∉ name.toList := by
  rw [usable?] at h
  split at h
  · cases h
  · obtain rfl := Option.some.inj h
    rw [String.toList_ofList, List.mem_map]
    rintro ⟨c, -, hc⟩
    split at hc
    · exact absurd hc (by decide)
    · next hne => exact hne hc

/-- A text without dots is plain. -/
theorem plain_of_not_mem (h : Dotted.separator ∉ text.toList) : Plain text := fun hall c hc =>
  (hall c hc).resolve_left fun heq => h (heq ▸ hc)

/-- A blank name that was made of a text was made of dots and `_`. -/
theorem blank_of_usable?_eq_some {name : String} (h : usable? text = some name)
    (hblank : Blank name) : ∀ c ∈ text.toList, c = Dotted.separator ∨ c = joiner := by
  rw [usable?] at h
  split at h
  · cases h
  · obtain rfl := Option.some.inj h
    intro c hc
    by_cases hdot : c = Dotted.separator
    · exact .inl hdot
    · have := hblank (if c = Dotted.separator then joiner else c)
        (by rw [String.toList_ofList]; exact List.mem_map.2 ⟨c, hc, rfl⟩)
      rw [if_neg hdot] at this
      exact .inr this

/-- A character that joins nothing is in a joined list exactly if it is in a part of it. -/
private theorem mem_intercalate_iff {c : Char} (hc : c ≠ joiner) (parts : List (List Char)) :
    c ∈ [joiner].intercalate parts ↔ ∃ part ∈ parts, c ∈ part := by
  induction parts with
  | nil => simp
  | cons part rest ih =>
    cases rest with
    | nil => simp
    | cons next rest =>
      rw [List.intercalate_cons_of_ne_nil (by simp), List.mem_append, List.mem_append, ih]
      simp [hc]

/-- A character that joins nothing is in a composed text exactly if a field or the parent
contributes it. -/
theorem mem_compose_iff {c : Char} (hc : c ≠ joiner) :
    c ∈ (compose f rules self).toList ↔
      (∃ value ∈ fieldValues rules self, c ∈ (contribution f value).toList) ∨
        ∃ parent ∈ parent? rules self, c ∈ (f parent).toList := by
  have hown : c ∈ (String.ofList ([joiner].intercalate ((fieldValues rules self).map fun value =>
        (contribution f value).toList))).toList ↔
      ∃ value ∈ fieldValues rules self, c ∈ (contribution f value).toList := by
    rw [String.toList_ofList, mem_intercalate_iff hc]
    simp
  have hjoiner : c ∉ parentJoiner.toList := by
    have : parentJoiner.toList = [joiner, joiner] := rfl
    rw [this]
    simp [hc]
  unfold compose
  cases parent? rules self with
  | none =>
    dsimp only
    rw [hown]
    exact ⟨.inl, fun h => h.resolve_right fun ⟨_, hnone, _⟩ => nomatch hnone⟩
  | some parent =>
    dsimp only
    rw [String.toList_append, String.toList_append, List.mem_append, List.mem_append, hown]
    constructor
    · rintro ((h | h) | h)
      · exact .inr ⟨parent, rfl, h⟩
      · exact absurd h hjoiner
      · exact .inl h
    · rintro (h | ⟨found, hfound, h⟩)
      · exact .inr h
      · obtain rfl := Option.mem_some_iff.1 hfound
        exact .inl (.inl h)

/-- A composed text is blank exactly if everything that is contributed is. -/
theorem blank_compose_iff : Blank (compose f rules self) ↔
    (∀ value ∈ fieldValues rules self, Blank (contribution f value)) ∧
      ∀ parent ∈ parent? rules self, Blank (f parent) := by
  constructor
  · intro h
    refine ⟨fun value hvalue c hc => ?_, fun parent hparent c hc => ?_⟩
    · by_contra hne
      exact hne (h c ((mem_compose_iff hne).2 (.inl ⟨value, hvalue, hc⟩)))
    · by_contra hne
      exact hne (h c ((mem_compose_iff hne).2 (.inr ⟨parent, hparent, hc⟩)))
  · rintro ⟨hfields, hparent⟩ c hc
    by_contra hne
    rcases (mem_compose_iff hne).1 hc with ⟨value, hvalue, hmem⟩ | ⟨parent, hmem, hc⟩
    · exact hne (hfields value hvalue c hmem)
    · exact hne (hparent parent hmem c hc)

/-- A composed text stays blank if the names of references do. -/
theorem blank_compose_mono (h : ∀ reference ∈ references rules self,
    Blank (f reference) → Blank (g reference)) (hblank : Blank (compose f rules self)) :
    Blank (compose g rules self) := by
  obtain ⟨hfields, hparent⟩ := blank_compose_iff.1 hblank
  refine blank_compose_iff.2 ⟨fun value hvalue => ?_, fun parent hmem => ?_⟩
  · have hcontributed := hfields value hvalue
    match value with
    | none => exact hcontributed
    | some (.reference target snapshot) =>
      exact h ⟨target, snapshot⟩ (List.mem_append_left _ (List.mem_filterMap.2 ⟨_, hvalue, rfl⟩))
        hcontributed
    | some .null | some (.bool _) | some (.number _) | some (.string _) | some (.list _)
    | some (.map _) => exact hcontributed
  · exact h parent (List.mem_append_right _ (Option.mem_toList.2 hmem)) (hparent parent hmem)

/-- A composed text is plain if everything that is contributed is. -/
theorem plain_compose
    (hliteral : ∀ value, some value ∈ fieldValues rules self → value.asReference? = none →
      Plain value.nameFragment)
    (hreference : ∀ reference ∈ references rules self, Plain (f reference)) :
    Plain (compose f rules self) := by
  intro hall
  -- What is contributed consists of dots and `_`, too, and so of `_` only.
  have hpart {part : String} (hplain : Plain part)
      (hmem : ∀ c ∈ part.toList, c ≠ joiner → c ∈ (compose f rules self).toList) : Blank part := by
    refine hplain fun c hc => ?_
    by_cases heq : c = joiner
    · exact .inr heq
    · exact hall c (hmem c hc heq)
  refine blank_compose_iff.2 ⟨fun value hvalue => ?_, fun parent hmem => ?_⟩
  · refine hpart ?_ fun c hc hne => (mem_compose_iff hne).2 (.inl ⟨value, hvalue, hc⟩)
    match value with
    | none => exact fun _ c hc => absurd hc List.not_mem_nil
    | some (.reference target snapshot) =>
      exact hreference ⟨target, snapshot⟩
        (List.mem_append_left _ (List.mem_filterMap.2 ⟨_, hvalue, rfl⟩))
    | some .null | some (.bool _) | some (.number _) | some (.string _) | some (.list _)
    | some (.map _) => exact hliteral _ hvalue rfl
  · exact hpart (hreference parent (List.mem_append_right _ (Option.mem_toList.2 hmem)))
      fun c hc hne => (mem_compose_iff hne).2 (.inr ⟨parent, hmem, hc⟩)

end Composition

namespace Batch

variable {batch : Batch} {self : Instance} {held : List ElementId}

/-- The texts that names are composed of. -/
inductive ComposedOf (batch : Batch) : String → Prop
  /-- The text of a value that is no reference, in an id field of a candidate. -/
  | literal {self : Instance} {value : Value} (candidate : self ∈ batch.candidates)
      (field : some value ∈ Composition.fieldValues (batch.rulesOf self) self)
      (noReference : value.asReference? = none) : ComposedOf batch value.nameFragment
  /-- The last part of a target that no instance is there for. -/
  | missing {self : Instance} {reference : Reference} (candidate : self ∈ batch.candidates)
      (naming : reference ∈ batch.namingReferences self)
      (hasNot : batch.has reference.topTarget = false) : ComposedOf batch reference.target.name
  /-- The last part of the identifier of an instance. -/
  | kept {self : Instance} (instance_mem : self ∈ batch.instances) : ComposedOf batch self.id.name

/-- In a round, every instance in order that is not held has the name that is composed for it. -/
theorem nameOf_namesOf (horder : self ∈ batch.plan.order) (hheld : self.id ∉ held) :
    (batch.namesOf batch.plan.order held).nameOf self.id =
      (Composition.usable? (Composition.compose
        (batch.referenceName (batch.namesOf batch.plan.order held)) (batch.rulesOf self)
        self)).getD self.id.name := by
  rw [NameTable.nameOf, getElem?_namesOf_plan_order horder hheld]
  rfl

/-- In a round, every other instance has the last part of its identifier as its name. -/
theorem nameOf_namesOf_of_unnamed (hself : self ∈ batch.instances)
    (h : self ∈ batch.plan.order → self.id ∈ held) :
    (batch.namesOf batch.plan.order held).nameOf self.id = self.id.name := by
  rw [NameTable.nameOf,
    getElem?_namesOf_eq_none fun hid => h (mem_plan_order_of_id_mem hself hid)]
  rfl

/-- The names that instances have in a round are plain. -/
theorem plain_nameOf (plain : ∀ text, batch.ComposedOf text → Plain text)
    (hself : self ∈ batch.instances) :
    Plain ((batch.namesOf batch.plan.order held).nameOf self.id) := by
  by_cases hnamed : self ∈ batch.plan.order ∧ self.id ∉ held
  · rw [nameOf_namesOf hnamed.1 hnamed.2]
    cases husable : Composition.usable? (Composition.compose
        (batch.referenceName (batch.namesOf batch.plan.order held)) (batch.rulesOf self) self) with
    | none => exact plain _ (.kept hself)
    | some name =>
      exact Composition.plain_of_not_mem
        (Composition.separator_not_mem_of_usable?_eq_some husable)
  · rw [nameOf_namesOf_of_unnamed hself fun horder =>
      by_contra fun hheld => hnamed ⟨horder, hheld⟩]
    exact plain _ (.kept hself)

/-- What a round composes the name of an instance of is plain. -/
theorem plain_compose_namesOf (plain : ∀ text, batch.ComposedOf text → Plain text)
    (hself : self ∈ batch.candidates) :
    Plain (Composition.compose (batch.referenceName (batch.namesOf batch.plan.order held))
      (batch.rulesOf self) self) := by
  refine Composition.plain_compose
    (fun value hvalue hnone => plain _ (.literal hself hvalue hnone)) fun reference hreference => ?_
  rw [referenceName]
  split
  · next hhas =>
    obtain ⟨found, hfound, hid⟩ := has_iff.1 hhas
    exact hid ▸ plain_nameOf plain hfound
  · next hhas =>
    exact plain _ (.missing hself hreference (Bool.not_eq_true _ ▸ hhas))

/-- In a round, the name of an instance is blank only if what it is composed of is, and if the last
part of its identifier is, too. -/
theorem blank_of_blank_nameOf (plain : ∀ text, batch.ComposedOf text → Plain text)
    (horder : self ∈ batch.plan.order) (hheld : self.id ∉ held)
    (hblank : Blank ((batch.namesOf batch.plan.order held).nameOf self.id)) :
    Blank (Composition.compose (batch.referenceName (batch.namesOf batch.plan.order held))
        (batch.rulesOf self) self) ∧ Blank self.id.name := by
  rw [nameOf_namesOf horder hheld] at hblank
  cases husable : Composition.usable? (Composition.compose
      (batch.referenceName (batch.namesOf batch.plan.order held)) (batch.rulesOf self) self) with
  | none =>
    rw [husable] at hblank
    exact ⟨Composition.usable?_eq_none_iff.1 husable, hblank⟩
  | some name =>
    rw [husable] at hblank
    have hall := plain_compose_namesOf plain (plan_order_subset horder)
      (Composition.blank_of_usable?_eq_some husable hblank)
    rw [Composition.usable?_eq_none_iff.2 hall] at husable
    cases husable

/-- What is composed for an instance in the last round is blank if it is in some round before, in
which no more instances are held. -/
theorem blank_compose_plan (plain : ∀ text, batch.ComposedOf text → Plain text)
    (hsubset : held ⊆ batch.plan.held) :
    ∀ self ∈ batch.plan.order,
      Blank (Composition.compose (batch.referenceName (batch.namesOf batch.plan.order held))
        (batch.rulesOf self) self) →
      Blank (Composition.compose
        (batch.referenceName (batch.namesOf batch.plan.order batch.plan.held))
        (batch.rulesOf self) self) := by
  refine plan_order_induction fun self horder ih => ?_
  refine Composition.blank_compose_mono fun reference hreference hblank => ?_
  rw [referenceName] at hblank ⊢
  split at hblank
  · next hhas =>
    rw [if_pos hhas]
    obtain ⟨found, hfound, hid⟩ := has_iff.1 hhas
    rw [← hid] at hblank ⊢
    by_cases hnamed : found ∈ batch.plan.order ∧ found.id ∉ held
    · -- The target falls back on its identifier in this round, and so it does in the last one.
      obtain ⟨hcompose, hname⟩ := blank_of_blank_nameOf plain hnamed.1 hnamed.2 hblank
      have hlast := ih found hnamed.1 ⟨reference, hreference, hid.symm⟩ hcompose
      by_cases hheld : found.id ∈ batch.plan.held
      · rwa [nameOf_namesOf_of_unnamed hfound fun _ => hheld]
      · rwa [nameOf_namesOf hnamed.1 hheld, Composition.usable?_eq_none_iff.2 hlast]
    · have hunnamed : found ∈ batch.plan.order → found.id ∈ held := fun horder =>
        by_contra fun hheld => hnamed ⟨horder, hheld⟩
      rw [nameOf_namesOf_of_unnamed hfound hunnamed] at hblank
      rwa [nameOf_namesOf_of_unnamed hfound fun horder => hsubset (hunnamed horder)]
  · next hhas => rwa [if_neg hhas]

end Batch

end ElementCatalog
