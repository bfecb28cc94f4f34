import ElementCatalog.Proofs.Naming.Rounds

/-!
# Batches that correspond

Two batches correspond if the instances of the one become those of the other, in any order, with
identifiers that stay apart and references that lead to the same (`Batch.Corresponds`). Then the same
instances need one another, are named in each round by the same names, and collide. So the plans for
the two batches correspond, too, and each instance has one final identifier in both
(`Batch.Corresponds.finalId_eq`).

The instances that the plan renames may have other identifiers in the other batch, and so may
references to them. All others have the same one.
-/

namespace ElementCatalog.Batch

/-- A reference of one batch and a reference of another one that lead to the same: to an instance
and to what this instance becomes, or to nothing, with one name. -/
inductive LeadsAlike (batch other : Batch) (moved : ElementId → ElementId)
    (reference reference' : Reference) : Prop
  /-- The references lead to instances. -/
  | present (has : batch.has reference.topTarget = true)
      (top_eq : reference'.topTarget = moved reference.topTarget)
  /-- The references lead to no instances. -/
  | missing (has : batch.has reference.topTarget = false)
      (has' : other.has reference'.topTarget = false)
      (top_eq : reference'.topTarget = reference.topTarget)
      (name_eq : reference'.target.name = reference.target.name)

/-- The instances of a batch become those of another one by `turn`, and their identifiers by
`moved`. -/
structure Corresponds (batch other : Batch) (turn : Instance → Instance)
    (moved : ElementId → ElementId) : Prop where
  /-- The rules are the same. -/
  config_eq : other.config = batch.config
  /-- The instances are the same, up to order. -/
  instances_perm : other.instances.Perm (batch.instances.map turn)
  /-- What an instance becomes has the moved identifier. -/
  id_turn : ∀ self ∈ batch.instances, (turn self).id = moved self.id
  /-- Different identifiers stay different. -/
  eq_of_moved_eq : ∀ a ∈ batch.instances, ∀ b ∈ batch.instances, moved a.id = moved b.id → a.id = b.id
  /-- The adapter stays. -/
  adapter_eq : ∀ self ∈ batch.instances, (moved self.id).adapter = self.id.adapter
  /-- The type stays. -/
  typeName_eq : ∀ self ∈ batch.instances, (moved self.id).typeName = self.id.typeName
  /-- What names are composed of stays alike. -/
  alike : ∀ self ∈ batch.candidates,
    Composition.Alike (LeadsAlike batch other moved) (batch.rulesOf self) self (turn self)
  /-- Only instances that the plan names have other identifiers. -/
  moved_eq : ∀ self ∈ batch.instances,
    self.id ∈ batch.plan.held ∨ self ∉ batch.plan.order → moved self.id = self.id
  /-- The last part of the identifier stays where a name has to fall back on it. -/
  name_eq : ∀ self ∈ batch.plan.order, ∀ held ⊆ batch.plan.held, self.id ∉ held →
    Composition.usable? (Composition.compose
      (batch.referenceName (batch.namesOf batch.plan.order held)) (batch.rulesOf self) self) = none →
    (moved self.id).name = self.id.name

namespace Corresponds

variable {batch other : Batch} {turn : Instance → Instance} {moved : ElementId → ElementId}
  {self : Instance}

/-! ## Instances and candidates -/

/-- The instances of the other batch are those that instances become. -/
theorem mem_instances_iff (corresponds : batch.Corresponds other turn moved) :
    self ∈ other.instances ↔ ∃ before ∈ batch.instances, turn before = self := by
  rw [corresponds.instances_perm.mem_iff, List.mem_map]

/-- Moved identifiers of instances are equal exactly if the identifiers are. -/
theorem moved_eq_iff (corresponds : batch.Corresponds other turn moved) {a b : Instance}
    (ha : a ∈ batch.instances) (hb : b ∈ batch.instances) :
    moved a.id = moved b.id ↔ a.id = b.id :=
  ⟨corresponds.eq_of_moved_eq a ha b hb, congrArg moved⟩

/-- The moved identifier of an instance is that of an instance. -/
theorem has_moved (corresponds : batch.Corresponds other turn moved) {id : ElementId}
    (h : batch.has id = true) : other.has (moved id) = true := by
  obtain ⟨self, hself, rfl⟩ := has_iff.1 h
  exact has_iff.2 ⟨turn self, corresponds.mem_instances_iff.2 ⟨self, hself, rfl⟩,
    corresponds.id_turn self hself⟩

/-- Instances share an identifier exactly if they do afterwards. -/
theorem isShared_moved (corresponds : batch.Corresponds other turn moved)
    (hself : self ∈ batch.instances) : other.isShared (moved self.id) = batch.isShared self.id := by
  have hcount : other.instances.countP (·.id == moved self.id) =
      batch.instances.countP (·.id == self.id) := by
    rw [corresponds.instances_perm.countP_eq, List.countP_map]
    refine List.countP_congr fun before hbefore => ?_
    simp only [Function.comp_apply, corresponds.id_turn before hbefore, beq_iff_eq]
    exact corresponds.moved_eq_iff hbefore hself
  rw [isShared, isShared, hcount]

/-- The rules for an instance stay. -/
theorem rulesOf_turn (corresponds : batch.Corresponds other turn moved)
    (hself : self ∈ batch.instances) : other.rulesOf (turn self) = batch.rulesOf self := by
  rw [rulesOf, rulesOf, corresponds.config_eq, Instance.typeName, corresponds.id_turn self hself,
    corresponds.typeName_eq self hself, Instance.typeName]

/-- An instance is a candidate exactly if it is afterwards. -/
theorem turn_mem_candidates_iff (corresponds : batch.Corresponds other turn moved)
    (hself : self ∈ batch.instances) : turn self ∈ other.candidates ↔ self ∈ batch.candidates := by
  rw [mem_candidates_iff, mem_candidates_iff, corresponds.id_turn self hself,
    corresponds.isShared_moved hself, corresponds.config_eq, Instance.typeName,
    corresponds.id_turn self hself, corresponds.typeName_eq self hself, Instance.typeName]
  exact and_congr_left fun _ =>
    ⟨fun _ => hself, fun _ => corresponds.mem_instances_iff.2 ⟨self, hself, rfl⟩⟩

/-- The candidates of the other batch are those that candidates become. -/
theorem mem_candidates_iff_exists (corresponds : batch.Corresponds other turn moved) :
    self ∈ other.candidates ↔ ∃ before ∈ batch.candidates, turn before = self := by
  constructor
  · intro h
    obtain ⟨before, hbefore, rfl⟩ := corresponds.mem_instances_iff.1 (mem_candidates_iff.1 h).1
    exact ⟨before, (corresponds.turn_mem_candidates_iff hbefore).1 h, rfl⟩
  · rintro ⟨before, hbefore, rfl⟩
    exact (corresponds.turn_mem_candidates_iff (mem_candidates_iff.1 hbefore).1).2 hbefore

/-- A candidate's identifier is moved to that of a candidate, and to no other. -/
theorem moved_mem_candidate_ids_iff (corresponds : batch.Corresponds other turn moved)
    {id : ElementId} (h : batch.has id = true) :
    moved id ∈ other.candidates.map Instance.id ↔ id ∈ batch.candidates.map Instance.id := by
  obtain ⟨self, hself, rfl⟩ := has_iff.1 h
  simp only [List.mem_map, corresponds.mem_candidates_iff_exists]
  constructor
  · rintro ⟨_, ⟨before, hbefore, rfl⟩, heq⟩
    have hmem := (mem_candidates_iff.1 hbefore).1
    rw [corresponds.id_turn before hmem] at heq
    exact ⟨before, hbefore, corresponds.eq_of_moved_eq before hmem self hself heq⟩
  · rintro ⟨before, hbefore, heq⟩
    exact ⟨turn before, ⟨before, hbefore, rfl⟩, by
      rw [corresponds.id_turn before (mem_candidates_iff.1 hbefore).1, heq]⟩

/-! ## Dependencies -/

/-- An identifier of a candidate is one of an instance. -/
theorem has_of_mem_candidate_ids {id : ElementId} (h : id ∈ batch.candidates.map Instance.id) :
    batch.has id = true := by
  obtain ⟨self, hself, rfl⟩ := List.mem_map.1 h
  exact has_iff.2 ⟨self, (mem_candidates_iff.1 hself).1, rfl⟩

/-- The naming references of a candidate and of what it becomes lead to the same. -/
theorem exists_leadsAlike (corresponds : batch.Corresponds other turn moved)
    (hself : self ∈ batch.candidates) {reference : Reference}
    (h : reference ∈ batch.namingReferences self) :
    ∃ reference' ∈ other.namingReferences (turn self),
      LeadsAlike batch other moved reference reference' := by
  rw [namingReferences, corresponds.rulesOf_turn (mem_candidates_iff.1 hself).1]
  exact (corresponds.alike self hself).exists_related h

/-- Each naming reference of what a candidate becomes leads where one of the candidate does. -/
theorem exists_leadsAlike_of_turn (corresponds : batch.Corresponds other turn moved)
    (hself : self ∈ batch.candidates) {reference' : Reference}
    (h : reference' ∈ other.namingReferences (turn self)) :
    ∃ reference ∈ batch.namingReferences self,
      LeadsAlike batch other moved reference reference' := by
  rw [namingReferences, corresponds.rulesOf_turn (mem_candidates_iff.1 hself).1] at h
  exact (corresponds.alike self hself).flip.exists_related h

/-- What a candidate needs it needs afterwards. -/
theorem moved_mem_needs (corresponds : batch.Corresponds other turn moved)
    (hself : self ∈ batch.candidates) {id : ElementId} (h : id ∈ batch.needs self.id) :
    moved id ∈ other.needs (moved self.id) := by
  obtain ⟨hid, reference, hreference, rfl⟩ := (mem_needs_iff hself).1 h
  obtain ⟨reference', hreference', hleads⟩ := corresponds.exists_leadsAlike hself hreference
  have hhas := has_of_mem_candidate_ids hid
  rw [← corresponds.id_turn self (mem_candidates_iff.1 hself).1]
  refine (mem_needs_iff (corresponds.mem_candidates_iff_exists.2 ⟨self, hself, rfl⟩)).2
    ⟨(corresponds.moved_mem_candidate_ids_iff hhas).2 hid, reference', hreference', ?_⟩
  cases hleads with
  | present _ top_eq => exact top_eq
  | missing hmissing => exact absurd (hhas.symm.trans hmissing) (by decide)

/-- What a candidate needs afterwards it needs before. -/
theorem exists_of_mem_needs_moved (corresponds : batch.Corresponds other turn moved)
    (hself : self ∈ batch.candidates) {id : ElementId} (h : id ∈ other.needs (moved self.id)) :
    ∃ before ∈ batch.needs self.id, moved before = id := by
  rw [← corresponds.id_turn self (mem_candidates_iff.1 hself).1] at h
  obtain ⟨hid, reference', hreference', rfl⟩ :=
    (mem_needs_iff (corresponds.mem_candidates_iff_exists.2 ⟨self, hself, rfl⟩)).1 h
  obtain ⟨reference, hreference, hleads⟩ := corresponds.exists_leadsAlike_of_turn hself hreference'
  cases hleads with
  | present hhas top_eq =>
    rw [top_eq] at hid ⊢
    exact ⟨reference.topTarget, (mem_needs_iff hself).2
      ⟨(corresponds.moved_mem_candidate_ids_iff hhas).1 hid, reference, hreference, rfl⟩, rfl⟩
  | missing _ hmissing =>
    exact absurd ((has_of_mem_candidate_ids hid).symm.trans hmissing) (by decide)

/-- A candidate needs in the end what it needs in the end afterwards. -/
theorem needsInTheEnd_moved_iff (corresponds : batch.Corresponds other turn moved)
    {id id' : ElementId} (hid : id ∈ batch.candidates.map Instance.id)
    (hid' : id' ∈ batch.candidates.map Instance.id) :
    DependencyOrder.NeedsInTheEnd other.needs (moved id) (moved id') ↔
      DependencyOrder.NeedsInTheEnd batch.needs id id' := by
  constructor
  · intro h
    -- Each step leads from a moved candidate to a moved candidate.
    have hpath : ∀ {a b : ElementId}, DependencyOrder.NeedsInTheEnd other.needs a b →
        ∀ id ∈ batch.candidates.map Instance.id, moved id = a →
          ∃ before ∈ batch.candidates.map Instance.id, moved before = b ∧
            DependencyOrder.NeedsInTheEnd batch.needs id before := by
      intro a b hab
      induction hab using Relation.TransGen.head_induction_on with
      | single hstep =>
        rintro id hid rfl
        obtain ⟨self, hself, rfl⟩ := List.mem_map.1 hid
        obtain ⟨before, hbefore, rfl⟩ := corresponds.exists_of_mem_needs_moved hself hstep
        exact ⟨before, isClosed_needs _ hid _ hbefore, rfl, .single hbefore⟩
      | head hstep _ ih =>
        rintro id hid rfl
        obtain ⟨self, hself, rfl⟩ := List.mem_map.1 hid
        obtain ⟨next, hnext, rfl⟩ := corresponds.exists_of_mem_needs_moved hself hstep
        obtain ⟨before, hbefore, rfl, hneeds⟩ := ih next (isClosed_needs _ hid _ hnext) rfl
        exact ⟨before, hbefore, rfl, .head hnext hneeds⟩
    obtain ⟨before, hbefore, heq, hneeds⟩ := hpath h id hid rfl
    obtain ⟨a, ha, rfl⟩ := List.mem_map.1 hbefore
    obtain ⟨b, hb, rfl⟩ := List.mem_map.1 hid'
    rwa [corresponds.eq_of_moved_eq a (mem_candidates_iff.1 ha).1 b (mem_candidates_iff.1 hb).1
      heq] at hneeds
  · intro h
    induction h using Relation.TransGen.head_induction_on with
    | single hstep =>
      obtain ⟨self, hself, rfl⟩ := List.mem_map.1 hid
      exact .single (corresponds.moved_mem_needs hself hstep)
    | head hstep _ ih =>
      obtain ⟨self, hself, rfl⟩ := List.mem_map.1 hid
      exact .head (corresponds.moved_mem_needs hself hstep) (ih (isClosed_needs _ hid _ hstep))

/-- An instance lies on a cycle exactly if it does afterwards. -/
theorem moved_mem_cyclic_iff (corresponds : batch.Corresponds other turn moved)
    (hself : self ∈ batch.instances) :
    moved self.id ∈ other.plan.cyclic ↔ self.id ∈ batch.plan.cyclic := by
  have hhas : batch.has self.id = true := has_iff.2 ⟨self, hself, rfl⟩
  rw [mem_plan_cyclic_iff, mem_plan_cyclic_iff, corresponds.moved_mem_candidate_ids_iff hhas]
  exact and_congr_right fun hid => corresponds.needsInTheEnd_moved_iff hid hid

/-- A name is computed for an instance exactly if one is afterwards. -/
theorem turn_mem_order_iff (corresponds : batch.Corresponds other turn moved)
    (hself : self ∈ batch.instances) :
    turn self ∈ other.plan.order ↔ self ∈ batch.plan.order := by
  rw [mem_plan_order_iff, mem_plan_order_iff, corresponds.turn_mem_candidates_iff hself,
    corresponds.id_turn self hself, corresponds.moved_mem_cyclic_iff hself]

/-- The identifiers that names are computed for are moved. -/
theorem order_ids_perm (corresponds : batch.Corresponds other turn moved) :
    (other.plan.order.map Instance.id).Perm ((batch.plan.order.map Instance.id).map moved) := by
  have hmem {self : Instance} (h : self ∈ batch.plan.order) : self ∈ batch.instances :=
    (mem_candidates_iff.1 (plan_order_subset h)).1
  refine (List.perm_ext_iff_of_nodup nodup_plan_order_ids ?_).2 fun id => ?_
  · refine (List.nodup_map_iff_inj_on nodup_plan_order_ids).2 fun id hid id' hid' heq => ?_
    obtain ⟨a, ha, rfl⟩ := List.mem_map.1 hid
    obtain ⟨b, hb, rfl⟩ := List.mem_map.1 hid'
    exact corresponds.eq_of_moved_eq a (hmem ha) b (hmem hb) heq
  · simp only [List.mem_map]
    constructor
    · rintro ⟨self, hself, rfl⟩
      obtain ⟨before, hbefore, rfl⟩ := corresponds.mem_instances_iff.1
        (mem_candidates_iff.1 (plan_order_subset hself)).1
      exact ⟨before.id, ⟨before, (corresponds.turn_mem_order_iff hbefore).1 hself, rfl⟩,
        (corresponds.id_turn before hbefore).symm⟩
    · rintro ⟨_, ⟨before, hbefore, rfl⟩, rfl⟩
      exact ⟨turn before, (corresponds.turn_mem_order_iff (hmem hbefore)).2 hbefore,
        corresponds.id_turn before (hmem hbefore)⟩

/-- A name is computed for a moved identifier exactly if one is for the identifier. -/
theorem moved_mem_order_ids_iff (corresponds : batch.Corresponds other turn moved)
    (hself : self ∈ batch.instances) :
    moved self.id ∈ other.plan.order.map Instance.id ↔
      self.id ∈ batch.plan.order.map Instance.id := by
  rw [corresponds.order_ids_perm.mem_iff, List.map_map]
  constructor
  · intro h
    obtain ⟨found, hfound, heq⟩ := List.mem_map.1 h
    have hmem := (mem_candidates_iff.1 (plan_order_subset hfound)).1
    exact List.mem_map.2 ⟨found, hfound, corresponds.eq_of_moved_eq found hmem self hself heq⟩
  · intro h
    exact List.mem_map.2 ⟨self, mem_plan_order_of_id_mem hself h, rfl⟩

/-! ## Rounds -/

section Rounds

variable {held held' : List ElementId}

/-- An instance that a round gives no name keeps its identifier. -/
theorem moved_eq_of_unnamed (corresponds : batch.Corresponds other turn moved)
    (hsubset : held ⊆ batch.plan.held) (hself : self ∈ batch.instances)
    (h : (batch.namesOf batch.plan.order held)[self.id]? = none) : moved self.id = self.id := by
  refine corresponds.moved_eq self hself ?_
  by_contra hnot
  rw [not_or, not_not] at hnot
  rw [getElem?_namesOf_plan_order hnot.2 fun hheld => hnot.1 (hsubset hheld)] at h
  cases h

/-- In a round the names of instances are equal if they are given or not given alike. -/
theorem nameOf_eq (corresponds : batch.Corresponds other turn moved)
    (hsubset : held ⊆ batch.plan.held) (hself : self ∈ batch.instances)
    (h : (other.namesOf other.plan.order held')[moved self.id]? =
      (batch.namesOf batch.plan.order held)[self.id]?) :
    (other.namesOf other.plan.order held').nameOf (moved self.id) =
      (batch.namesOf batch.plan.order held).nameOf self.id := by
  rw [NameTable.nameOf, NameTable.nameOf, h]
  cases hname : (batch.namesOf batch.plan.order held)[self.id]? with
  | some name => rfl
  | none => rw [corresponds.moved_eq_of_unnamed hsubset hself hname]

/-- In a round in which the same instances are held, an instance is named as it is afterwards. -/
theorem getElem?_namesOf (corresponds : batch.Corresponds other turn moved)
    (hsubset : held ⊆ batch.plan.held)
    (hheld : ∀ self ∈ batch.instances, moved self.id ∈ held' ↔ self.id ∈ held)
    (hself : self ∈ batch.instances) :
    (other.namesOf other.plan.order held')[moved self.id]? =
      (batch.namesOf batch.plan.order held)[self.id]? := by
  have hnone {self : Instance} (hself : self ∈ batch.instances)
      (h : self ∈ batch.plan.order → self.id ∈ held) :
      (other.namesOf other.plan.order held')[moved self.id]? =
        (batch.namesOf batch.plan.order held)[self.id]? := by
    rw [getElem?_namesOf_eq_none fun hid => h (mem_plan_order_of_id_mem hself hid),
      getElem?_namesOf_eq_none fun hid => (hheld self hself).2 (h (mem_plan_order_of_id_mem hself
        ((corresponds.moved_mem_order_ids_iff hself).1 hid)))]
  suffices hall : ∀ self ∈ batch.plan.order,
      (other.namesOf other.plan.order held')[moved self.id]? =
        (batch.namesOf batch.plan.order held)[self.id]? by
    by_cases horder : self ∈ batch.plan.order
    · exact hall self horder
    · exact hnone hself fun h => absurd h horder
  refine plan_order_induction fun self horder ih => ?_
  have hcandidate := plan_order_subset horder
  have hmem := (mem_candidates_iff.1 hcandidate).1
  by_cases hin : self.id ∈ held
  · exact hnone hmem fun _ => hin
  -- The names of the instances referred to are equal, so the composed texts are.
  have hcompose : Composition.compose
        (other.referenceName (other.namesOf other.plan.order held')) (batch.rulesOf self)
        (turn self) =
      Composition.compose (batch.referenceName (batch.namesOf batch.plan.order held))
        (batch.rulesOf self) self := by
    refine ((corresponds.alike self hcandidate).compose_eq ?_).symm
    rintro reference hreference reference' (⟨hhas, htop⟩ | ⟨hmissing, hmissing', -, hname⟩)
    · rw [referenceName, referenceName, if_pos hhas, htop, if_pos (corresponds.has_moved hhas)]
      obtain ⟨found, hfound, hid⟩ := has_iff.1 hhas
      rw [← hid, corresponds.nameOf_eq hsubset hfound]
      by_cases hnamed : found ∈ batch.plan.order
      · exact ih found hnamed ⟨reference, hreference, hid.symm⟩
      · exact hnone hfound fun h => absurd h hnamed
    · rw [referenceName, referenceName, if_neg (by simp [hmissing]), if_neg (by simp [hmissing']),
        hname]
  have hin' : (turn self).id ∉ held' := by
    rwa [corresponds.id_turn self hmem, hheld self hmem]
  rw [getElem?_namesOf_plan_order horder hin, ← corresponds.id_turn self hmem,
    getElem?_namesOf_plan_order ((corresponds.turn_mem_order_iff hmem).2 horder) hin', nameFor,
    nameFor, corresponds.rulesOf_turn hmem, Composition.name, Composition.name, hcompose,
    corresponds.id_turn self hmem]
  cases husable : Composition.usable? (Composition.compose
      (batch.referenceName (batch.namesOf batch.plan.order held)) (batch.rulesOf self) self) with
  | some name => rfl
  | none =>
    rw [Option.getD_none, Option.getD_none,
      corresponds.name_eq self horder held hsubset hin husable]

/-- In a round an instance has the identifier that it has afterwards. -/
theorem finalId_namesOf (corresponds : batch.Corresponds other turn moved)
    (hsubset : held ⊆ batch.plan.held)
    (hheld : ∀ self ∈ batch.instances, moved self.id ∈ held' ↔ self.id ∈ held)
    (hself : self ∈ batch.instances) :
    (other.namesOf other.plan.order held').finalId (turn self) =
      (batch.namesOf batch.plan.order held).finalId self := by
  rw [NameTable.finalId, NameTable.finalId, corresponds.id_turn self hself,
    corresponds.getElem?_namesOf hsubset hheld hself]
  cases hname : (batch.namesOf batch.plan.order held)[self.id]? with
  | some name =>
    simp only [Composition.idWith, corresponds.id_turn self hself,
      corresponds.adapter_eq self hself, corresponds.typeName_eq self hself]
  | none =>
    exact corresponds.moved_eq_of_unnamed hsubset hself hname

/-- In a round an instance collides exactly if it does afterwards. -/
theorem collides_turn (corresponds : batch.Corresponds other turn moved)
    (hsubset : held ⊆ batch.plan.held)
    (hheld : ∀ self ∈ batch.instances, moved self.id ∈ held' ↔ self.id ∈ held)
    (hself : self ∈ batch.instances) :
    other.collides (other.namesOf other.plan.order held') (turn self) =
      batch.collides (batch.namesOf batch.plan.order held) self := by
  rw [Bool.eq_iff_iff, collides, collides, corresponds.instances_perm.any_eq, List.any_map,
    List.any_eq_true, List.any_eq_true]
  refine exists_congr fun before => and_congr_right fun hbefore => ?_
  simp only [Function.comp_apply, Bool.and_eq_true, bne_iff_ne, beq_iff_eq, ne_eq,
    corresponds.id_turn before hbefore, corresponds.id_turn self hself,
    corresponds.moved_eq_iff hbefore hself, corresponds.finalId_namesOf hsubset hheld hbefore,
    corresponds.finalId_namesOf hsubset hheld hself]

/-- A round holds an instance exactly if it does afterwards. -/
theorem moved_mem_collisions_iff (corresponds : batch.Corresponds other turn moved)
    (hsubset : held ⊆ batch.plan.held)
    (hheld : ∀ self ∈ batch.instances, moved self.id ∈ held' ↔ self.id ∈ held)
    (hself : self ∈ batch.instances) :
    moved self.id ∈ other.collisions (other.namesOf other.plan.order held') other.plan.order ↔
      self.id ∈ batch.collisions (batch.namesOf batch.plan.order held) batch.plan.order := by
  have hof {batch : Batch} {names : NameTable} {id : ElementId} :
      id ∈ batch.collisions names batch.plan.order ↔ ∃ self ∈ batch.plan.order,
        names[self.id]?.isSome ∧ batch.collides names self = true ∧ self.id = id := by
    simp only [collisions, List.mem_map, List.mem_filter, and_assoc]
  have hmem {self : Instance} (h : self ∈ batch.plan.order) : self ∈ batch.instances :=
    (mem_candidates_iff.1 (plan_order_subset h)).1
  rw [hof, hof]
  constructor
  · rintro ⟨_, horder, hnamed, hcollides, heq⟩
    obtain ⟨before, hbefore, rfl⟩ := corresponds.mem_instances_iff.1
      (mem_candidates_iff.1 (plan_order_subset horder)).1
    rw [corresponds.id_turn before hbefore] at heq hnamed
    rw [corresponds.getElem?_namesOf hsubset hheld hbefore] at hnamed
    rw [corresponds.collides_turn hsubset hheld hbefore] at hcollides
    exact ⟨before, (corresponds.turn_mem_order_iff hbefore).1 horder, hnamed, hcollides,
      corresponds.eq_of_moved_eq before hbefore self hself heq⟩
  · rintro ⟨before, horder, hnamed, hcollides, heq⟩
    have hbefore := hmem horder
    refine ⟨turn before, (corresponds.turn_mem_order_iff hbefore).2 horder, ?_, ?_, ?_⟩
    · rwa [corresponds.id_turn before hbefore, corresponds.getElem?_namesOf hsubset hheld hbefore]
    · rwa [corresponds.collides_turn hsubset hheld hbefore]
    · rw [corresponds.id_turn before hbefore, heq]

/-- What was held stays held in all rounds. -/
theorem subset_settle (batch : Batch) (order : List Instance) (rounds : Nat)
    (held : List ElementId) : held ⊆ (batch.settle order rounds held).1 := by
  induction rounds generalizing held with
  | zero => exact List.Subset.refl held
  | succ rounds ih =>
    rw [settle]
    split
    · exact List.Subset.refl held
    · exact List.Subset.trans (List.subset_append_left _ _) (ih _)

/-- A round holds further instances exactly if it does afterwards. -/
theorem collisions_eq_nil_iff (corresponds : batch.Corresponds other turn moved)
    (hsubset : held ⊆ batch.plan.held)
    (hheld : ∀ self ∈ batch.instances, moved self.id ∈ held' ↔ self.id ∈ held) :
    other.collisions (other.namesOf other.plan.order held') other.plan.order = [] ↔
      batch.collisions (batch.namesOf batch.plan.order held) batch.plan.order = [] := by
  rw [List.eq_nil_iff_forall_not_mem, List.eq_nil_iff_forall_not_mem]
  constructor
  · intro h id hid
    obtain ⟨self, hself, rfl⟩ := List.mem_map.1 (mem_collisions nodup_plan_order_ids hid).1
    have hmem := (mem_candidates_iff.1 (plan_order_subset hself)).1
    exact h _ ((corresponds.moved_mem_collisions_iff hsubset hheld hmem).2 hid)
  · intro h id hid
    obtain ⟨self, hself, rfl⟩ := List.mem_map.1 (mem_collisions nodup_plan_order_ids hid).1
    obtain ⟨before, hbefore, rfl⟩ := corresponds.mem_instances_iff.1
      (mem_candidates_iff.1 (plan_order_subset hself)).1
    rw [corresponds.id_turn before hbefore] at hid
    exact h _ ((corresponds.moved_mem_collisions_iff hsubset hheld hbefore).1 hid)

/-- The rounds end with the same instances held as afterwards. -/
theorem moved_mem_settle_iff (corresponds : batch.Corresponds other turn moved) (rounds : Nat)
    (hheld : ∀ self ∈ batch.instances, moved self.id ∈ held' ↔ self.id ∈ held)
    (hsubset : (batch.settle batch.plan.order rounds held).1 ⊆ batch.plan.held) :
    ∀ self ∈ batch.instances,
      moved self.id ∈ (other.settle other.plan.order rounds held').1 ↔
        self.id ∈ (batch.settle batch.plan.order rounds held).1 := by
  induction rounds generalizing held held' with
  | zero => exact hheld
  | succ rounds ih =>
    have hstart := List.Subset.trans (subset_settle batch _ _ _) hsubset
    rw [settle] at hsubset
    rw [settle, settle]
    cases hmore : batch.collisions (batch.namesOf batch.plan.order held) batch.plan.order with
    | nil =>
      rw [(corresponds.collisions_eq_nil_iff hstart hheld).2 hmore]
      exact hheld
    | cons first rest =>
      simp only [hmore] at hsubset
      cases hmore' : other.collisions (other.namesOf other.plan.order held')
          other.plan.order with
      | nil =>
        rw [(corresponds.collisions_eq_nil_iff hstart hheld).1 hmore'] at hmore
        cases hmore
      | cons first' rest' =>
        refine ih (fun self hself => ?_) hsubset
        -- What this round holds corresponds to what it holds afterwards.
        have := corresponds.moved_mem_collisions_iff hstart hheld hself
        rw [hmore, hmore'] at this
        rw [List.mem_append, List.mem_append, hheld self hself, this]

end Rounds

/-! ## Plans -/

/-- An instance is held in the end exactly if it is afterwards. -/
theorem moved_mem_held_iff (corresponds : batch.Corresponds other turn moved)
    (hself : self ∈ batch.instances) :
    moved self.id ∈ other.plan.held ↔ self.id ∈ batch.plan.held := by
  have hlength : other.plan.order.length = batch.plan.order.length := by
    simpa using corresponds.order_ids_perm.length_eq
  have hnone : ∀ self ∈ batch.instances,
      moved self.id ∈ ([] : List ElementId) ↔ self.id ∈ ([] : List ElementId) := by simp
  change moved self.id ∈ (other.settle other.plan.order other.plan.order.length []).1 ↔
    self.id ∈ (batch.settle batch.plan.order batch.plan.order.length []).1
  rw [hlength]
  exact corresponds.moved_mem_settle_iff batch.plan.order.length hnone (List.Subset.refl _) self
    hself

/-- An instance has one final identifier in both batches. -/
theorem finalId_eq (corresponds : batch.Corresponds other turn moved)
    (hself : self ∈ batch.instances) :
    other.plan.names.finalId (turn self) = batch.plan.names.finalId self := by
  rw [plan_names_eq, plan_names_eq]
  exact corresponds.finalId_namesOf (List.Subset.refl _)
    (fun _ hmem => corresponds.moved_mem_held_iff hmem) hself

end Corresponds

end ElementCatalog.Batch
