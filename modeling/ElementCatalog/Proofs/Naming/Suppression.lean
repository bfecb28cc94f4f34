import ElementCatalog.Proofs.Naming.Usable

/-!
# Why instances are suppressed

An instance is held in the round in which its new identifier is that of another instance, and it
stays held from then on. Names of later rounds can be others, since the names of held instances are
composed into them. So an instance can be suppressed although no other instance has, or was meant
to have, the identifier that its name composes to in the end.

This happens only where names depend on each other: the conflict that an instance is held for is
there in the end, unless its name, or that of the instance it collides with, depends on an instance
that is held in the same round or later.

## Main definitions

* `Batch.HeldIn`: an instance is held in a round;
* `Batch.CollidesIn`: an instance has the identifier of another one in a round;
* `NamingConfig.ConflictsAtEnd`: an instance is meant to get the identifier that another one ends
  with, or that another suppressed one is meant to get;
* `NamingConfig.DependsOnLate`: the name of an instance depends on one that is held from some round
  on.

## Main results

* `NamingConfig.nameFor_namesIn_eq`: in which rounds an instance is named as in the end;
* `NamingConfig.resolve_suppresses`: the conflicts that suppressed instances have.
-/

namespace ElementCatalog

namespace Batch

variable {batch : Batch} {round : Nat} {self other : Instance} {id : ElementId}

/-! ## Rounds one by one -/

/-- What is held when a round starts: nothing in the first one, and what the one before has held and
holds in each other. -/
def heldBefore (batch : Batch) : Nat → List ElementId
  | 0 => []
  | round + 1 => heldBefore batch round ++
      batch.collisions (batch.namesOf batch.plan.order (heldBefore batch round)) batch.plan.order

/-- The names that instances have in a round. -/
def namesIn (batch : Batch) (round : Nat) : NameTable :=
  batch.namesOf batch.plan.order (batch.heldBefore round)

/-- An instance is held in a round. -/
def HeldIn (batch : Batch) (round : Nat) (self : Instance) : Prop :=
  self.id ∉ batch.heldBefore round ∧ self.id ∈ batch.heldBefore (round + 1)

/-- In a round, an instance has the identifier that another one has in it. -/
def CollidesIn (batch : Batch) (round : Nat) (self other : Instance) : Prop :=
  other ∈ batch.instances ∧ other.id ≠ self.id ∧
    (batch.namesIn round).finalId other = (batch.namesIn round).finalId self

/-- What is held stays held. -/
theorem heldBefore_subset {first last : Nat} (h : first ≤ last) :
    batch.heldBefore first ⊆ batch.heldBefore last := by
  induction h with
  | refl => exact List.Subset.refl _
  | step _ ih => exact List.Subset.trans ih (List.subset_append_left _ _)

/-- The rounds that are made from some round on end before a later one. -/
theorem exists_settle_eq (rounds first : Nat) : ∃ last,
    (batch.settle batch.plan.order rounds (batch.heldBefore first)).1 = batch.heldBefore last := by
  induction rounds generalizing first with
  | zero => exact ⟨first, rfl⟩
  | succ rounds ih =>
    rw [settle]
    split
    · exact ⟨first, rfl⟩
    · exact ih (first + 1)

/-- The plan holds what is held before some round. -/
theorem exists_plan_held_eq (batch : Batch) : ∃ last, batch.plan.held = batch.heldBefore last :=
  exists_settle_eq batch.plan.order.length 0

/-- What the plan holds was held in some round. -/
theorem exists_heldIn (h : id ∈ batch.plan.held) :
    ∃ round, id ∉ batch.heldBefore round ∧ id ∈ batch.heldBefore (round + 1) ∧
      batch.heldBefore (round + 1) ⊆ batch.plan.held := by
  obtain ⟨last, hlast⟩ := exists_plan_held_eq batch
  -- The round is the last one that starts without the instance.
  rw [hlast] at h ⊢
  clear hlast
  induction last with
  | zero => cases h
  | succ last ih =>
    by_cases hbefore : id ∈ batch.heldBefore last
    · obtain ⟨round, hnot, hheld, hsubset⟩ := ih hbefore
      exact ⟨round, hnot, hheld, List.Subset.trans hsubset (heldBefore_subset (Nat.le_succ last))⟩
    · exact ⟨last, hbefore, h, List.Subset.refl _⟩

/-- Exactly the instances that a round names, and that collide with another one in it, are held in
it. -/
theorem heldIn_iff (hself : self ∈ batch.instances) : batch.HeldIn round self ↔
    self ∈ batch.plan.order ∧ self.id ∉ batch.heldBefore round ∧
      ∃ other, batch.CollidesIn round self other := by
  have hcollides : batch.collides (batch.namesIn round) self = true ↔
      ∃ other, batch.CollidesIn round self other := by
    simp [collides, CollidesIn]
  rw [← hcollides]
  constructor
  · rintro ⟨hnot, hheld⟩
    obtain ⟨found, hfound, hid⟩ := List.mem_map.1 ((List.mem_append.1 hheld).resolve_left hnot)
    obtain ⟨hfound, hfoundCollides⟩ := List.mem_filter.1 hfound
    have horder := (List.mem_filter.1 hfound).1
    -- No other instance has the identifier of one that is named.
    obtain rfl : self = found := eq_of_mem_candidates (plan_order_subset horder) hself hid.symm
    exact ⟨horder, hnot, hfoundCollides⟩
  · rintro ⟨horder, hnot, hselfCollides⟩
    have hnamed : (batch.namesIn round)[self.id]?.isSome :=
      (isSome_getElem?_namesOf_iff nodup_plan_order_ids).2 ⟨List.mem_map_of_mem horder, hnot⟩
    refine ⟨hnot, List.mem_append_right _ (List.mem_map_of_mem (List.mem_filter.2 ⟨?_, ?_⟩))⟩
    · exact List.mem_filter.2 ⟨horder, hnamed⟩
    · exact hselfCollides

end Batch

namespace NamingConfig

open ElementCatalog.Composition (usableText joinedText)

variable {config : NamingConfig} {elements after : List Element} {self other : Instance}
  {round : Nat}

/-- The identifier that the name of an instance composes to, given the names of what it refers to. -/
def composedId (config : NamingConfig) (nameOf : Reference → String) (self : Instance) : ElementId :=
  .ofInstance self.id.adapter self.id.typeName
    (usableText (joinedText nameOf (config.rulesFor self.typeName) self) self.id.name)

/-- An instance composes to the identifier that another one ends with, or to that which another
suppressed one composes to. -/
def ConflictsAtEnd (config : NamingConfig) (elements after : List Element) (report : NamingReport)
    (nameOf : Reference → String) (self other : Instance) : Prop :=
  other ∈ instancesOf elements ∧ other.id ≠ self.id ∧
    ((∃ (k : Nat) (ended : Instance), elements[k]? = some (.ofInstance other) ∧
      after[k]? = some (.ofInstance ended) ∧ ended.id = config.composedId nameOf self) ∨
    other.id ∈ report.suppressed ∧ config.composedId nameOf other = config.composedId nameOf self)

/-- The name of an instance depends on one that is suppressed, but was not held yet when a round
started. -/
def DependsOnLate (config : NamingConfig) (elements : List Element) (report : NamingReport)
    (round : Nat) (self : Instance) : Prop :=
  ∃ late, Relation.TransGen (config.NeedsName elements) self late ∧
    late.id ∈ report.suppressed ∧ late.id ∉ (config.batchOf elements).heldBefore round

/-! ## Names that stay -/

/-- In a round an instance is named as in the end, unless its name depends on an instance that is
held from then on. -/
theorem nameFor_namesIn_eq
    (hsubset : (config.batchOf elements).heldBefore round ⊆ (config.batchOf elements).plan.held) :
    ∀ self ∈ (config.batchOf elements).plan.order,
      (∀ late, Relation.TransGen (config.NeedsName elements) self late →
        late.id ∈ (config.batchOf elements).plan.held →
        late.id ∈ (config.batchOf elements).heldBefore round) →
      (config.batchOf elements).nameFor ((config.batchOf elements).namesIn round) self =
        (config.batchOf elements).nameFor (config.batchOf elements).plan.names self := by
  -- The induction goes along the naming order, in which what a name depends on comes before it.
  refine Batch.plan_order_induction fun self horder ih hlate => ?_
  refine Composition.name_congr fun reference hreference => ?_
  simp only [Batch.referenceName]
  split
  · rw [Batch.namesIn, Batch.plan_names_eq]
    by_cases hid : reference.topTarget ∈ (config.batchOf elements).plan.order.map Instance.id
    · obtain ⟨found, hfound, hid⟩ := List.mem_map.1 hid
      have hneeds : config.NeedsName elements self found :=
        ⟨mem_candidates_iff.1 (Batch.plan_order_subset horder),
          mem_candidates_iff.1 (Batch.plan_order_subset hfound),
          exists_mem_namingReferences_iff.1 ⟨reference, hreference, hid.symm⟩⟩
      rw [← hid]
      by_cases hheld : found.id ∈ (config.batchOf elements).heldBefore round
      · -- What is held already has the name that it was fetched with, now and in the end.
        have hfound := (Batch.mem_candidates_iff.1 (Batch.plan_order_subset hfound)).1
        rw [Batch.nameOf_namesOf_of_unnamed hfound fun _ => hheld,
          Batch.nameOf_namesOf_of_unnamed hfound fun _ => hsubset hheld]
      · -- It is not held later either, and named as in the end by what it needs itself.
        have hheldLast := mt (hlate found (.single hneeds)) hheld
        have heq := ih found hfound ⟨reference, hreference, hid.symm⟩ fun late h =>
          hlate late (.head hneeds h)
        rw [Batch.namesIn, Batch.plan_names_eq] at heq
        rw [NameTable.nameOf, NameTable.nameOf, Batch.getElem?_namesOf_plan_order hfound hheld,
          Batch.getElem?_namesOf_plan_order hfound hheldLast, heq]
    · -- No round names what is not in order.
      rw [NameTable.nameOf, NameTable.nameOf,
        Batch.getElem?_namesOf_eq_none fun h => absurd h hid,
        Batch.getElem?_namesOf_eq_none fun h => absurd h hid]
  · rfl

/-- The identifier that a name composes to in the end is made of the name by the names of the plan. -/
theorem composedId_referenceName (config : NamingConfig) (elements : List Element)
    (self : Instance) :
    config.composedId
        ((config.batchOf elements).referenceName (config.batchOf elements).plan.names) self =
      Composition.idWith self
        ((config.batchOf elements).nameFor (config.batchOf elements).plan.names self) := by
  rw [Batch.nameFor, Composition.name_eq_usableText]
  rfl

/-! ## Conflicts that stay -/

/-- An instance that the plan holds is suppressed. -/
theorem mem_suppressed_of_mem_plan_held (hself : self ∈ instancesOf elements)
    (h : self.id ∈ (config.batchOf elements).plan.held) :
    self.id ∈ (config.rename elements).2.suppressed :=
  List.mem_filter.2 ⟨List.mem_map_of_mem hself, decide_eq_true h⟩

/-- In a round that holds an instance, this has the identifier that its name composes to in the end,
unless its name depends on an instance that is held from then on. -/
theorem finalId_namesIn_eq_composedId
    (hsubset : (config.batchOf elements).heldBefore round ⊆ (config.batchOf elements).plan.held)
    (hself : self ∈ instancesOf elements) (held : (config.batchOf elements).HeldIn round self)
    (hlate : ¬ config.DependsOnLate elements (config.rename elements).2 round self) :
    ((config.batchOf elements).namesIn round).finalId self =
      config.composedId
        ((config.batchOf elements).referenceName (config.batchOf elements).plan.names) self := by
  obtain ⟨horder, hnot, -⟩ := (Batch.heldIn_iff hself).1 held
  have hname : ((config.batchOf elements).namesIn round)[self.id]? =
      some ((config.batchOf elements).nameFor ((config.batchOf elements).namesIn round) self) :=
    Batch.getElem?_namesOf_plan_order horder hnot
  rw [NameTable.finalId_eq_idWith hname, composedId_referenceName,
    nameFor_namesIn_eq hsubset self horder]
  intro late hneeds hheld
  by_contra hlater
  -- What is needed is named itself, so it is suppressed if it is held.
  obtain ⟨before, -, hlast⟩ := Relation.TransGen.tail'_iff.1 hneeds
  exact hlate ⟨late, hneeds, mem_suppressed_of_mem_plan_held hlast.2.1.1 hheld, hlater⟩

/-- A conflict that an instance is held for is there in the end, if the names of both instances are
composed as in the end. -/
theorem conflictsAtEnd_of_collidesIn
    (hsubset : (config.batchOf elements).heldBefore (round + 1) ⊆
      (config.batchOf elements).plan.held)
    (hself : self ∈ instancesOf elements) (held : (config.batchOf elements).HeldIn round self)
    (collides : (config.batchOf elements).CollidesIn round self other)
    (hlate : ¬ config.DependsOnLate elements (config.rename elements).2 round self)
    (hother : (config.batchOf elements).HeldIn round other →
      ¬ config.DependsOnLate elements (config.rename elements).2 round other) :
    config.ConflictsAtEnd elements (config.rename elements).1 (config.rename elements).2
      ((config.batchOf elements).referenceName (config.batchOf elements).plan.names) self other := by
  obtain ⟨hmem, hne, heq⟩ := id collides
  have hbefore := List.Subset.trans (Batch.heldBefore_subset (Nat.le_succ round)) hsubset
  rw [finalId_namesIn_eq_composedId hbefore hself held hlate] at heq
  refine ⟨hmem, hne, ?_⟩
  by_cases hheld : (config.batchOf elements).HeldIn round other
  · -- The other one is held in the same round, and composes to the identifier still.
    rw [finalId_namesIn_eq_composedId hbefore hmem hheld (hother hheld)] at heq
    exact .inr ⟨mem_suppressed_of_mem_plan_held hmem (hsubset hheld.2), heq⟩
  · -- Otherwise the other one has no new name in this round, and none in the end.
    have hunnamed (hid : other.id ∈ (config.batchOf elements).plan.order.map Instance.id) :
        other.id ∈ (config.batchOf elements).heldBefore round := by
      by_contra hnot
      exact hheld ((Batch.heldIn_iff hmem).2
        ⟨Batch.mem_plan_order_of_id_mem hmem hid, hnot, self, hself, hne.symm, collides.2.2.symm⟩)
    have hround : ((config.batchOf elements).namesIn round).finalId other = other.id :=
      NameTable.finalId_eq_self (Batch.getElem?_namesOf_eq_none hunnamed)
    have hend : (config.batchOf elements).plan.names.finalId other = other.id := by
      rw [Batch.plan_names_eq]
      exact NameTable.finalId_eq_self
        (Batch.getElem?_namesOf_eq_none fun hid => hbefore (hunnamed hid))
    obtain ⟨k, hk⟩ := exists_getElem?_of_mem_instancesOf hmem
    obtain ⟨ended, hended, hid⟩ := getElem?_rename_ofInstance config hk
    exact .inl ⟨k, ended, hk, hended, by rw [hid, hend, ← hround, heq]⟩

/-- Under valid rules naming succeeds, and each suppressed instance was held in a round in which it
had the identifier of another instance. Any conflict of this round is there in the end, unless the
name of the instance, or that of the other one where this is held in the same round, depends on an
instance that is held in this round or later. -/
theorem resolve_suppresses (valid : config.check = .ok ()) (elements : List Element) :
    ∃ (after : List Element) (report : NamingReport),
      config.resolve elements = .ok (after, report) ∧
      ∃ nameOf : Reference → String, EndNames elements after nameOf ∧
        ∀ id ∈ report.suppressed, ∃ self, self.id = id ∧ config.IsNamed elements self ∧
          ∃ round, (config.batchOf elements).HeldIn round self ∧
            (∃ other, (config.batchOf elements).CollidesIn round self other) ∧
            ∀ other, (config.batchOf elements).CollidesIn round self other →
              config.ConflictsAtEnd elements after report nameOf self other ∨
                config.DependsOnLate elements report round self ∨
                (config.batchOf elements).HeldIn round other ∧
                  config.DependsOnLate elements report round other := by
  refine ⟨_, _, resolve_eq_ok valid elements, _, endNames_referenceName, fun id hid => ?_⟩
  obtain ⟨self, rfl, named, -⟩ := exists_isNamed_of_mem_suppressed hid
  obtain ⟨round, hnot, hheld, hsubset⟩ :=
    Batch.exists_heldIn (mem_plan_held_of_mem_suppressed hid)
  have held : (config.batchOf elements).HeldIn round self := ⟨hnot, hheld⟩
  obtain ⟨-, -, hcollides⟩ := (Batch.heldIn_iff named.1).1 held
  refine ⟨self, rfl, named, round, held, hcollides, fun other collides => ?_⟩
  by_cases hlate : config.DependsOnLate elements (config.rename elements).2 round self
  · exact .inr (.inl hlate)
  by_cases hother : (config.batchOf elements).HeldIn round other ∧
      config.DependsOnLate elements (config.rename elements).2 round other
  · exact .inr (.inr hother)
  · exact .inl (conflictsAtEnd_of_collidesIn hsubset named.1 held collides hlate
      fun h h' => hother ⟨h, h'⟩)

/-- Two instances that are to get one name. -/
def twins : List Element :=
  [.ofInstance (.declare "a" "t" "C" [("n", .string "K")]),
    .ofInstance (.declare "a" "t" "D" [("n", .string "K")])]

/-- Both are suppressed, and each of them has a conflict in the end. -/
theorem resolve_suppresses_twins :
    fieldRules.check = .ok () ∧
      ∃ (after : List Element) (report : NamingReport),
        fieldRules.resolve twins = .ok (after, report) ∧
        report.suppressed = [.ofInstance "a" "t" "C", .ofInstance "a" "t" "D"] ∧
        ∃ nameOf : Reference → String, EndNames twins after nameOf ∧
          ∀ id ∈ report.suppressed, ∃ self other, self.id = id ∧
            fieldRules.ConflictsAtEnd twins after report nameOf self other := by
  have valid : fieldRules.check = .ok () := by decide
  obtain ⟨after, report, hresolve, nameOf, names, hconflicts⟩ := resolve_suppresses valid twins
  have hreport : (fieldRules.rename twins).2 = report :=
    congrArg Prod.snd (Except.ok.inj ((resolve_eq_ok valid _).symm.trans hresolve))
  -- No name depends on another one, since the only id field holds a text.
  have hlate (round : Nat) (self : Instance) :
      ¬ fieldRules.DependsOnLate twins report round self := by
    rintro ⟨late, hneeds, -⟩
    obtain ⟨needed, ⟨hself, -, hrefers⟩, -⟩ := Relation.TransGen.head'_iff.1 hneeds
    obtain ⟨reference, hreference, -⟩ : ∃ reference ∈ (fieldRules.batchOf twins).namingReferences
        self, reference.topTarget = needed.id := exists_mem_namingReferences_iff.2 hrefers
    have hnone : (fieldRules.batchOf twins).namingReferences self = [] := by
      rcases List.mem_pair.1 hself.1 with rfl | rfl <;> rfl
    rw [hnone] at hreference
    exact List.not_mem_nil hreference
  refine ⟨valid, after, report, hresolve, ?_, nameOf, names, fun id hid => ?_⟩
  · rw [← hreport]
    decide +kernel
  · obtain ⟨self, hself, -, round, -, ⟨other, collides⟩, hreal⟩ := hconflicts id hid
    refine ⟨self, other, hself, (hreal other collides).resolve_right ?_⟩
    rintro (h | ⟨-, h⟩)
    · exact hlate round self h
    · exact hlate round other h

/-- Rules by which instances of the type `u` are named after two fields, and those of the type `t`
after one. -/
def pairRules : NamingConfig :=
  fieldRules.withType "u" ⟨[⟨true, "n"⟩, ⟨false, "m"⟩], false⟩

/-- An instance that is named after two texts. -/
def namedByText : Instance :=
  .declare "a" "u" "A" [("n", .string "K"), ("m", .string "1")]

/-- An instance that is named after one of the twins and a text. -/
def namedByTwin : Instance :=
  .declare "a" "u" "B" [("n", .reference (.ofInstance "a" "t" "C") none), ("m", .string "1")]

/-- The twins and these two. -/
def entangled : List Element :=
  twins ++ [.ofInstance namedByText, .ofInstance namedByTwin]

/-- All four are held in one round, in which both names are `K_1`, since the twin is to be `K` itself.
With the name that the twin ends with, the other name is `C_1`, and `K_1` would be free. -/
theorem not_conflictsAtEnd_entangled :
    pairRules.check = .ok () ∧
      ∃ (after : List Element) (report : NamingReport),
        pairRules.resolve entangled = .ok (after, report) ∧
        namedByText.id ∈ report.suppressed ∧
        ∀ nameOf : Reference → String, EndNames entangled after nameOf →
          ∀ other, ¬ pairRules.ConflictsAtEnd entangled after report nameOf namedByText other := by
  have valid : pairRules.check = .ok () := by decide
  let ids : List ElementId := [.ofInstance "a" "t" "C", .ofInstance "a" "t" "D",
    .ofInstance "a" "u" "A", .ofInstance "a" "u" "B"]
  have hids : (pairRules.rename entangled).1.map Element.id = ids := by decide +kernel
  have hheld : namedByText.id ∈ (pairRules.rename entangled).2.suppressed := by decide +kernel
  have hresolve := resolve_eq_ok valid entangled
  -- From here on only the identifiers and the suppressed instances count.
  generalize pairRules.rename entangled = renamed at hids hheld hresolve
  obtain ⟨after, report⟩ := renamed
  refine ⟨valid, after, report, hresolve, hheld, fun nameOf names other => ?_⟩
  have hend {k : Nat} {ended : Instance} (h : after[k]? = some (.ofInstance ended)) :
      ids[k]? = some ended.id := by
    rw [← hids, List.getElem?_map, h]
    rfl
  -- The twin ends with the name that it had.
  have htwin : nameOf ⟨.ofInstance "a" "t" "C", none⟩ = "C" := by
    obtain ⟨ended, hended, hname⟩ := names.of_instance ⟨.ofInstance "a" "t" "C", none⟩ 0
      (.declare "a" "t" "C" [("n", .string "K")]) rfl (by decide +kernel)
    rw [hname, ← Option.some.inj (hend hended)]
    rfl
  have hfirst : pairRules.composedId nameOf namedByText = .ofInstance "a" "u" "K_1" := by
    have htext : Composition.joinedText nameOf (pairRules.rulesFor namedByText.typeName) namedByText =
        "_".intercalate ["K", "1"] := rfl
    rw [composedId, htext]
    decide +kernel
  have hsecond : pairRules.composedId nameOf namedByTwin = .ofInstance "a" "u" "C_1" := by
    have htext : Composition.joinedText nameOf (pairRules.rulesFor namedByTwin.typeName)
        namedByTwin = "_".intercalate [nameOf ⟨.ofInstance "a" "t" "C", none⟩, "1"] := rfl
    rw [composedId, htext, htwin]
    decide +kernel
  rintro ⟨hother, hne, ⟨k, ended, -, hended, hid⟩ | ⟨-, hid⟩⟩
  · have hmem := List.mem_of_getElem? (hend hended)
    rw [hid, hfirst] at hmem
    exact absurd hmem (by decide)
  · -- The twins compose to identifiers of another type.
    rw [hfirst] at hid
    simp only [entangled, twins, instancesOf, List.cons_append, List.nil_append,
      List.filterMap_cons, Element.asInstance?, List.filterMap_nil, List.mem_cons, List.not_mem_nil,
      or_false] at hother
    rcases hother with rfl | rfl | rfl | rfl
    · exact absurd (show "t" = "u" from congrArg ElementId.typeName hid) (by decide)
    · exact absurd (show "t" = "u" from congrArg ElementId.typeName hid) (by decide)
    · exact hne rfl
    · rw [hsecond] at hid
      exact absurd hid (by decide)

end NamingConfig

end ElementCatalog
