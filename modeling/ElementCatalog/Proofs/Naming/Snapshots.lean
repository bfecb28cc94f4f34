import ElementCatalog.Proofs.Naming.Correspondence
import ElementCatalog.Proofs.Naming.FinalNames

/-!
# Naming and snapshots

A snapshot is a copy of what a reference points at, so it should count for nothing when elements are
named. `Element.withoutSnapshots` leaves all snapshots out, and two lists of elements that are equal
without them have equal reference indexes. They are named alike, too, as long as the id fields of the
instances that are named have the same texts (`NamingConfig.resolve_eq_of_withoutSnapshots`).

The id fields need not have the same texts. A list or map contributes its document, in which the
snapshots of the references inside it are written (`NamingConfig.resolve_ne_of_withoutSnapshots`).

The two batches need not correspond instance by instance: where instances share an identifier, equal
ones can become different ones. So both are compared with a third batch, in which the instances that
share an identifier have no snapshots (`Batch.leveled`).
-/

namespace ElementCatalog

/-- The reference without its snapshot. -/
def Reference.withoutSnapshot (reference : Reference) : Reference :=
  ⟨reference.target, none⟩

/-- The instance without the snapshots of its references. -/
def Instance.withoutSnapshots (self : Instance) : Instance :=
  self.mapReferences Reference.withoutSnapshot

/-- The value has parts: it is a list or a map. -/
def Value.HasParts : Value → Prop
  | .list _ => True
  | .map _ => True
  | _ => False

/-- Values that are equal without snapshots have the same text, if they have no parts. -/
theorem Value.nameFragment_eq_of_withoutSnapshots {value value' : Value}
    (h : value.mapReferences Reference.withoutSnapshot =
      value'.mapReferences Reference.withoutSnapshot) (hparts : ¬ value.HasParts) :
    value.nameFragment = value'.nameFragment := by
  cases value with
  | list items => exact absurd trivial hparts
  | map members => exact absurd trivial hparts
  | reference target snapshot =>
    cases value' with
    | reference target' snapshot' =>
      simp only [mapReferences, Reference.withoutSnapshot, Reference.toValue,
        reference.injEq] at h
      rw [nameFragment, nameFragment, h.1]
    | _ => cases h
  | null | bool held | number held | string held =>
    cases value' with
    | reference target' snapshot' => cases h
    | _ => cases h <;> rfl

/-- The element without the snapshots of its references. -/
def Element.withoutSnapshots (element : Element) : Element :=
  element.mapReferences Reference.withoutSnapshot

/-- The instances among elements without snapshots are the instances without snapshots. -/
theorem instancesOf_map_withoutSnapshots (elements : List Element) :
    instancesOf (elements.map Element.withoutSnapshots) =
      (instancesOf elements).map Instance.withoutSnapshots :=
  instancesOf_map_mapReferences elements

/-! ## Reference indexes -/

namespace ReferenceIndex

/-- The places of an instance do not depend on snapshots. -/
theorem sitesOf_withoutSnapshots (self : Instance) :
    sitesOf self.withoutSnapshots = sitesOf self := by
  rw [sitesOf, sitesOf, Instance.withoutSnapshots, Instance.references_mapReferences, List.map_map]
  rfl

/-- An index does not depend on snapshots. -/
theorem build_map_withoutSnapshots (instances : List Instance)
    (targets : Std.ExtTreeSet ElementId) :
    build (instances.map Instance.withoutSnapshots) targets = build instances targets := by
  rw [build, build, List.flatMap_map]
  simp only [sitesOf_withoutSnapshots]

end ReferenceIndex

/-! ## Redirecting -/

namespace Rename

/-- A reference is redirected alike without its snapshot. -/
theorem rebaseReference_mapReferences (rename : Rename) (target : ElementId) (part : Value) :
    rename.rebaseReference target (part.mapReferences Reference.withoutSnapshot) =
      (rename.rebaseReference target part).map
        (Value.mapReferences Reference.withoutSnapshot) := by
  cases part with
  | reference held snapshot =>
    simp only [Value.mapReferences, Reference.withoutSnapshot, Reference.toValue, rebaseReference]
    split
    · cases held.rebase rename.old rename.new <;> rfl
    · rfl
  | null | bool value | number value | string value | list items | map members => rfl

/-- A step redirects the same place of an element without snapshots. -/
theorem redirectElement_withoutSnapshots (rename : Rename) (site : ReferenceSite)
    (element : Element) :
    rename.redirectElement site element.withoutSnapshots =
      (rename.redirectElement site element).map Element.withoutSnapshots := by
  cases element with
  | ofType definition => rfl
  | ofInstance self =>
    simp only [Element.withoutSnapshots, Element.mapReferences, redirectElement]
    have hid : (self.mapReferences Reference.withoutSnapshot).id = self.id := rfl
    rw [hid]
    split
    · rw [Instance.updateAt?_mapReferences (rename.rebaseReference_mapReferences site.target)]
      cases self.updateAt? (rename.rebaseReference site.target) site.path <;> rfl
    · rfl

/-- Steps redirect the same places of an element without snapshots. -/
theorem follow_withoutSnapshots (steps : List (Rename × ReferenceSite)) (element : Element) :
    follow steps element.withoutSnapshots =
      ((follow steps element).1.withoutSnapshots, (follow steps element).2) := by
  induction steps generalizing element with
  | nil => rfl
  | cons step rest ih =>
    obtain ⟨rename, site⟩ := step
    rw [follow, follow, redirectElement_withoutSnapshots]
    cases rename.redirectElement site element with
    | none => exact ih element
    | some changed => simp only [Option.map_some, ih changed]

/-- An instance without snapshots is renamed alike. -/
theorem mapInstance_applyTo_withoutSnapshots (renames : List Rename) (element : Element) :
    (element.mapInstance (applyTo renames)).withoutSnapshots =
      element.withoutSnapshots.mapInstance (applyTo renames) := by
  cases element with
  | ofType definition => rfl
  | ofInstance self =>
    simp only [Element.withoutSnapshots, Element.mapInstance, Element.mapReferences, applyTo]
    have hid : (self.mapReferences Reference.withoutSnapshot).id = self.id := rfl
    rw [hid]
    cases renames.find? (·.old == self.id) <;> rfl

end Rename

/-! ## Batches -/

namespace Batch

variable {batch other : Batch} {self : Instance}

/-- A batch corresponds to one with other instances that have the same identifiers, if the instances
that are named are alike to the others, with references to the same targets. -/
theorem corresponds_map {turn : Instance → Instance} (hid : ∀ self, (turn self).id = self.id)
    (halike : ∀ self ∈ batch.candidates, Composition.Alike
      (fun reference reference' => reference'.target = reference.target)
      (batch.rulesOf self) self (turn self)) :
    batch.Corresponds ⟨batch.config, batch.instances.map turn⟩ turn (fun id => id) where
  config_eq := rfl
  instances_perm := .refl _
  id_turn self _ := hid self
  eq_of_moved_eq _ _ _ _ heq := heq
  adapter_eq _ _ := rfl
  typeName_eq _ _ := rfl
  alike self hself := by
    refine (halike self hself).imp fun reference reference' htarget => ?_
    have htop : reference'.topTarget = reference.topTarget :=
      congrArg (fun target => target.topLevel.1) htarget
    have hhas : Batch.has ⟨batch.config, batch.instances.map turn⟩ reference.topTarget =
        batch.has reference.topTarget := by
      simp only [has, List.any_map, Function.comp_def, hid]
    cases h : batch.has reference.topTarget with
    | true => exact .present h htop
    | false => exact .missing h (by rw [htop, hhas, h]) htop (congrArg ElementId.name htarget)
  moved_eq _ _ _ := rfl
  name_eq _ _ _ _ _ _ := rfl

/-- Names are looked for in vain in the same elements in a batch that corresponds with all identifiers
as they are. -/
theorem Corresponds.missingTargets_eq {turn : Instance → Instance}
    (corresponds : batch.Corresponds other turn fun id => id) (elements : List Element) :
    other.missingTargets other.plan elements = batch.missingTargets batch.plan elements := by
  have hhas (id : ElementId) : other.has id = batch.has id := by
    rw [Bool.eq_iff_iff]
    refine ⟨fun h => ?_, corresponds.has_moved⟩
    obtain ⟨self, hself, rfl⟩ := has_iff.1 h
    obtain ⟨before, hbefore, rfl⟩ := corresponds.mem_instances_iff.1 hself
    exact has_iff.2 ⟨before, hbefore, (corresponds.id_turn before hbefore).symm⟩
  have htop {reference reference' : Reference}
      (h : LeadsAlike batch other (fun id => id) reference reference') :
      reference'.topTarget = reference.topTarget := by
    cases h with
    | present _ top_eq => exact top_eq
    | missing _ _ top_eq => exact top_eq
  -- The same targets are referred to by instances that names are computed for.
  have htargets (target : ElementId) :
      (∃ self ∈ other.plan.order, ∃ reference ∈ other.namingReferences self,
        reference.topTarget = target) ↔
      ∃ self ∈ batch.plan.order, ∃ reference ∈ batch.namingReferences self,
        reference.topTarget = target := by
    constructor
    · rintro ⟨self, hself, reference', hreference', rfl⟩
      obtain ⟨before, hbefore, rfl⟩ := corresponds.mem_instances_iff.1
        (mem_candidates_iff.1 (plan_order_subset hself)).1
      have horder := (corresponds.turn_mem_order_iff hbefore).1 hself
      obtain ⟨reference, hreference, hleads⟩ :=
        corresponds.exists_leadsAlike_of_turn (plan_order_subset horder) hreference'
      exact ⟨before, horder, reference, hreference, (htop hleads).symm⟩
    · rintro ⟨self, hself, reference, hreference, rfl⟩
      have hmem := (mem_candidates_iff.1 (plan_order_subset hself)).1
      obtain ⟨reference', hreference', hleads⟩ :=
        corresponds.exists_leadsAlike (plan_order_subset hself) hreference
      exact ⟨turn self, (corresponds.turn_mem_order_iff hmem).2 hself, reference', hreference',
        htop hleads⟩
  refine Std.ExtTreeSet.ext_mem fun {target} => ?_
  simp only [missingTargets, Std.ExtTreeSet.mem_ofList, List.contains_iff_mem, List.mem_filter,
    List.mem_flatMap, List.mem_map, htargets, hhas]

/-- Which names are looked for in vain depends on the identifiers of the elements only. -/
theorem missingTargets_congr (batch : Batch) {elements elements' : List Element}
    (h : elements'.map Element.id = elements.map Element.id) :
    batch.missingTargets batch.plan elements' = batch.missingTargets batch.plan elements := by
  have hothers (elements : List Element) :
      (elements.filter fun element => !element.hasInstanceId).map Element.id =
        (elements.map Element.id).filter fun id => !decide (id.kind = .inst) := by
    rw [List.filter_map]
    rfl
  rw [missingTargets, missingTargets, hothers, hothers, h]

/-- Two instances are equal without snapshots, and if the batch names the first one, lists and maps in
their id fields have the same texts. -/
structure EqualToNaming (batch : Batch) (a b : Instance) : Prop where
  /-- Without snapshots the instances are equal. -/
  withoutSnapshots_eq : a.withoutSnapshots = b.withoutSnapshots
  /-- If the first is named, lists and maps in id fields have the same texts. -/
  texts_eq : a ∈ batch.candidates → ∀ field ∈ (batch.rulesOf a).idFields,
    ∀ value ∈ ValueMap.find? a.value field.path, ∀ value' ∈ ValueMap.find? b.value field.path,
      value.HasParts → value.nameFragment = value'.nameFragment

/-- Instances that are equal without snapshots have one identifier. -/
theorem EqualToNaming.id_eq {a b : Instance} (h : batch.EqualToNaming a b) : a.id = b.id :=
  show a.withoutSnapshots.id = b.withoutSnapshots.id from congrArg Instance.id h.withoutSnapshots_eq

/-- Instances that are named and equal to naming are alike. -/
theorem EqualToNaming.alike {a b : Instance} (h : batch.EqualToNaming a b)
    (ha : a ∈ batch.candidates) :
    Composition.Alike (fun reference reference' => reference'.target = reference.target)
      (batch.rulesOf a) a b := by
  refine Composition.alike_of_mapReferences_eq h.withoutSnapshots_eq ?_ ?_
  · intro reference _ reference' heq
    exact (congrArg Reference.target heq).symm
  · intro field hfield value hvalue value' hvalue' _
    by_cases hparts : value.HasParts
    · exact h.texts_eq ha field hfield value hvalue value' hvalue' hparts
    · refine Value.nameFragment_eq_of_withoutSnapshots (Option.some.inj ?_) hparts
      have hfind := congrArg (fun self => ValueMap.find? (Instance.value self) field.path)
        h.withoutSnapshots_eq
      simpa only [Instance.withoutSnapshots, Instance.mapReferences,
        Value.find?_mapMemberReferences, Option.mem_def.1 hvalue, Option.mem_def.1 hvalue',
        Option.map_some] using hfind

/-- The batches have the same rules, and the same instances up to snapshots, position by position,
with the same texts of lists and maps in the id fields of those that are named. -/
structure EqualThroughout (batch other : Batch) : Prop where
  /-- The rules are the same. -/
  config_eq : other.config = batch.config
  /-- The instances are equal to naming. -/
  instances : List.Forall₂ batch.EqualToNaming batch.instances other.instances

/-- A batch is equal to itself. -/
theorem equalThroughout_refl (batch : Batch) : batch.EqualThroughout batch where
  config_eq := rfl
  instances := List.forall₂_same.2 fun _ _ => ⟨rfl, fun _ _ _ _ hvalue _ hvalue' _ =>
    congrArg Value.nameFragment (Option.mem_unique hvalue hvalue')⟩

/-- What an instance is in the batch that both are compared with: the instance of the other batch, or
the instance without snapshots if its identifier is shared. -/
def leveled (batch other : Batch) (self : Instance) : Instance :=
  if batch.isShared self.id then self.withoutSnapshots
  else (other.instances.find? (·.id == self.id)).getD self

/-- The batch that both are compared with. -/
def level (batch other : Batch) : Batch :=
  ⟨batch.config, batch.instances.map (batch.leveled other)⟩

/-- A leveled instance keeps its identifier. -/
theorem id_leveled (batch other : Batch) (self : Instance) :
    (batch.leveled other self).id = self.id := by
  rw [leveled]
  split
  · rfl
  · cases hfind : other.instances.find? (·.id == self.id) with
    | none => rfl
    | some found => simpa using List.find?_some hfind

/-- Whether an identifier is shared depends on the identifiers only. -/
theorem isShared_congr (h : other.instances.map Instance.id = batch.instances.map Instance.id)
    (id : ElementId) : other.isShared id = batch.isShared id := by
  have hcount (instances : List Instance) :
      instances.countP (·.id == id) = (instances.map Instance.id).countP (· == id) := by
    rw [List.countP_map]
    rfl
  rw [isShared, isShared, hcount, hcount, h]

namespace EqualThroughout

variable (equal : batch.EqualThroughout other)

include equal

/-- The batches have the same identifiers. -/
theorem map_id_eq : other.instances.map Instance.id = batch.instances.map Instance.id :=
  (map_eq_map_of_forall₂ equal.instances fun _ _ _ _ h => h.id_eq).symm

/-- An instance with an identifier of its own is leveled to the instance of the other batch. -/
theorem leveled_eq {a b : Instance} (hb : b ∈ other.instances) (hid : a.id = b.id)
    (hshared : batch.isShared a.id = false) : batch.leveled other a = b := by
  rw [leveled, if_neg (by simp [hshared])]
  have hother : other.isShared b.id = false := by
    rw [isShared_congr equal.map_id_eq, ← hid, hshared]
  cases hfind : other.instances.find? (·.id == a.id) with
  | none => exact absurd (by simp [hid]) (List.find?_eq_none.1 hfind b hb)
  | some found =>
    have hfound : found.id = b.id := by
      rw [← hid]
      simpa using List.find?_some hfind
    exact eq_of_isShared_eq_false hother hb (List.mem_of_find?_eq_some hfind) hfound

/-- Both batches are compared with the same one. -/
theorem level_eq : other.level other = batch.level other := by
  rw [level, level, equal.config_eq]
  congr 1
  refine (map_eq_map_of_forall₂ equal.instances fun a _ b hb h => ?_).symm
  have hshared : other.isShared b.id = batch.isShared a.id := by
    rw [isShared_congr equal.map_id_eq, h.id_eq]
  cases hcase : batch.isShared a.id with
  | true =>
    rw [leveled, leveled, hshared, hcase, if_pos rfl, if_pos rfl]
    exact h.withoutSnapshots_eq
  | false =>
    rw [equal.leveled_eq hb h.id_eq hcase,
      other.equalThroughout_refl.leveled_eq hb rfl (hshared.trans hcase)]

/-- A batch corresponds to the one that it is compared with. -/
theorem corresponds_level :
    batch.Corresponds (batch.level other) (batch.leveled other) (fun id => id) := by
  refine corresponds_map (batch.id_leveled other) fun a ha => ?_
  obtain ⟨hmem, hshared, -⟩ := mem_candidates_iff.1 ha
  obtain ⟨b, hb, h⟩ := exists_mem_of_forall₂ equal.instances hmem
  rw [equal.leveled_eq hb h.id_eq hshared]
  exact h.alike ha

/-- The other batch corresponds to the same one. -/
theorem corresponds_level_other :
    other.Corresponds (batch.level other) (other.leveled other) (fun id => id) :=
  equal.level_eq ▸ other.equalThroughout_refl.corresponds_level

/-- Instances of both batches with one identifier have one final identifier. -/
theorem finalId_eq {a b : Instance} (ha : a ∈ batch.instances) (hb : b ∈ other.instances)
    (hid : a.id = b.id) : other.plan.names.finalId b = batch.plan.names.finalId a := by
  rw [← equal.corresponds_level.finalId_eq ha, ← equal.corresponds_level_other.finalId_eq hb]
  refine NameTable.finalId_congr ?_
  rw [id_leveled, id_leveled, hid]

/-- The batches make the same renames. -/
theorem renames_eq : other.plan.renames other.instances = batch.plan.renames batch.instances := by
  -- A rename depends on the identifier and the final one.
  have hpairs (batch : Batch) : batch.plan.renames batch.instances =
      (batch.instances.map fun self => (self.id, batch.plan.names.finalId self)).filterMap
        fun pair => if pair.2 = pair.1 then none else some (⟨pair.1, pair.2⟩ : Rename) := by
    rw [NamingPlan.renames, List.filterMap_map]
    rfl
  rw [hpairs, hpairs]
  congr 1
  refine (map_eq_map_of_forall₂ equal.instances fun a ha b hb h => ?_).symm
  rw [equal.finalId_eq ha hb h.id_eq, h.id_eq]

/-- The batches hold the same identifiers of instances. -/
theorem mem_held_iff {id : ElementId} (hid : id ∈ batch.instances.map Instance.id) :
    id ∈ other.plan.held ↔ id ∈ batch.plan.held := by
  obtain ⟨a, ha, rfl⟩ := List.mem_map.1 hid
  obtain ⟨b, hb, h⟩ := exists_mem_of_forall₂ equal.instances ha
  rw [← equal.corresponds_level.moved_mem_held_iff ha, h.id_eq]
  exact (equal.corresponds_level_other.moved_mem_held_iff hb).symm

/-- The same identifiers of instances lie on cycles. -/
theorem mem_cyclic_iff {id : ElementId} (hid : id ∈ batch.instances.map Instance.id) :
    id ∈ other.plan.cyclic ↔ id ∈ batch.plan.cyclic := by
  obtain ⟨a, ha, rfl⟩ := List.mem_map.1 hid
  obtain ⟨b, hb, h⟩ := exists_mem_of_forall₂ equal.instances ha
  rw [← equal.corresponds_level.moved_mem_cyclic_iff ha, h.id_eq]
  exact (equal.corresponds_level_other.moved_mem_cyclic_iff hb).symm

/-- The same identifiers are shared. -/
theorem sharedIds_eq : other.sharedIds = batch.sharedIds := by
  rw [sharedIds, sharedIds, equal.map_id_eq]
  congr 2
  funext id
  exact isShared_congr equal.map_id_eq id

/-- References to the same instances are redirected. -/
theorem nameableTargets_eq : other.nameableTargets = batch.nameableTargets := by
  have hids (batch : Batch) : (batch.instances.filter fun self =>
        batch.config.isNameable self.typeName).map Instance.id =
      (batch.instances.map Instance.id).filter fun id => batch.config.isNameable id.typeName := by
    rw [List.filter_map]
    rfl
  rw [nameableTargets, nameableTargets, hids, hids, equal.map_id_eq, equal.config_eq]

/-- Names are looked for in vain in the same elements. -/
theorem missingTargets_eq (elements : List Element) :
    other.missingTargets other.plan elements = batch.missingTargets batch.plan elements :=
  (equal.corresponds_level_other.missingTargets_eq elements).symm.trans
    (equal.corresponds_level.missingTargets_eq elements)

/-- Instances of both batches hold references at the same places. -/
theorem index_eq (targets : Std.ExtTreeSet ElementId) :
    ReferenceIndex.build other.instances targets = ReferenceIndex.build batch.instances targets := by
  rw [← ReferenceIndex.build_map_withoutSnapshots, ← ReferenceIndex.build_map_withoutSnapshots
    batch.instances]
  congr 1
  exact (map_eq_map_of_forall₂ equal.instances fun _ _ _ _ h => h.withoutSnapshots_eq).symm

end EqualThroughout

end Batch

/-! ## Naming -/

namespace NamingConfig

variable {config : NamingConfig} {elements elements' : List Element}

/-- The instances among elements that are equal without snapshots are so, too. -/
theorem map_withoutSnapshots_instancesOf
    (h : elements.map Element.withoutSnapshots = elements'.map Element.withoutSnapshots) :
    (instancesOf elements).map Instance.withoutSnapshots =
      (instancesOf elements').map Instance.withoutSnapshots := by
  rw [← instancesOf_map_withoutSnapshots, h, instancesOf_map_withoutSnapshots]

/-- Elements that are equal without snapshots have the same identifiers. -/
theorem map_id_of_map_withoutSnapshots
    (h : elements.map Element.withoutSnapshots = elements'.map Element.withoutSnapshots) :
    elements.map Element.id = elements'.map Element.id := by
  have hids (elements : List Element) :
      elements.map Element.id = (elements.map Element.withoutSnapshots).map Element.id := by
    rw [List.map_map]
    exact List.map_congr_left fun element _ => (Element.id_mapReferences element).symm
  rw [hids, h, ← hids]

/-- Lists and maps in the id fields of the instances that are named have the same texts at each
position. -/
def NamedAfterSameTexts (config : NamingConfig) (elements elements' : List Element) : Prop :=
  ∀ (position : Nat) (self self' : Instance),
    elements[position]? = some (.ofInstance self) →
    elements'[position]? = some (.ofInstance self') →
    self ∈ (config.batchOf elements).candidates →
    ∀ field ∈ (config.rulesFor self.typeName).idFields,
    ∀ value ∈ ValueMap.find? self.value field.path, ∀ value' ∈ ValueMap.find? self'.value field.path,
      value.HasParts → value.nameFragment = value'.nameFragment

/-- Elements that are equal without snapshots make batches that are equal, if their instances are
named after the same texts. -/
theorem equalThroughout_batchOf
    (h : elements.map Element.withoutSnapshots = elements'.map Element.withoutSnapshots)
    (texts : config.NamedAfterSameTexts elements elements') :
    (config.batchOf elements).EqualThroughout (config.batchOf elements') where
  config_eq := rfl
  instances := by
    -- At each position stand two type definitions or two instances that are equal to naming.
    have hpositions : List.Forall₂ (fun element element' =>
        Option.Rel (config.batchOf elements).EqualToNaming element.asInstance? element'.asInstance?)
        elements elements' := by
      refine List.forall₂_iff_get.2 ⟨by simpa using congrArg List.length h, fun i hi hi' => ?_⟩
      have hboth : elements[i].withoutSnapshots = elements'[i].withoutSnapshots := by
        simpa [hi, hi'] using congrArg (·[i]?) h
      have hself := List.getElem?_eq_getElem hi
      have hself' := List.getElem?_eq_getElem hi'
      rw [List.get_eq_getElem, List.get_eq_getElem]
      generalize elements[i] = element at hboth hself
      generalize elements'[i] = element' at hboth hself'
      cases element with
      | ofType definition =>
        cases element' with
        | ofType definition' => exact .none
        | ofInstance self' => cases hboth
      | ofInstance self =>
        cases element' with
        | ofType definition' => cases hboth
        | ofInstance self' =>
          exact .some ⟨Element.ofInstance.inj hboth, texts i self self' hself hself'⟩
    exact List.rel_filterMap (fun _ _ h => h) hpositions

/-- Elements that are equal without snapshots are redirected in the same steps if the batches are
equal. -/
theorem stepsOf_eq_of_equalThroughout
    (equal : (config.batchOf elements).EqualThroughout (config.batchOf elements')) :
    config.stepsOf elements' = config.stepsOf elements := by
  have hrenames : config.renamesOf elements' = config.renamesOf elements := equal.renames_eq
  have hindex := equal.index_eq (config.batchOf elements).nameableTargets
  rw [stepsOf, stepsOf, hrenames, equal.nameableTargets_eq]
  exact congrArg _ hindex

/-- Elements that are equal without snapshots are equal without them after naming, if the batches are
equal. -/
theorem rename_fst_eq_of_equalThroughout
    (h : elements.map Element.withoutSnapshots = elements'.map Element.withoutSnapshots)
    (equal : (config.batchOf elements).EqualThroughout (config.batchOf elements')) :
    (config.rename elements).1.map Element.withoutSnapshots =
      (config.rename elements').1.map Element.withoutSnapshots := by
  have hrename (elements : List Element) :
      (config.rename elements).1.map Element.withoutSnapshots =
        (elements.map Element.withoutSnapshots).map fun element =>
          (Rename.follow (config.stepsOf elements) element).1.mapInstance
            (Rename.applyTo (config.renamesOf elements)) := by
    rw [rename_fst, List.map_map, List.map_map]
    refine List.map_congr_left fun element _ => ?_
    simp only [Function.comp_apply, Rename.mapInstance_applyTo_withoutSnapshots,
      Rename.follow_withoutSnapshots]
  have hrenames : config.renamesOf elements' = config.renamesOf elements := equal.renames_eq
  rw [hrename, hrename, h, stepsOf_eq_of_equalThroughout equal, hrenames]

/-- As many references are redirected in elements that are equal without snapshots, if the batches
are equal. -/
theorem redirectedReferences_eq_of_equalThroughout
    (h : elements.map Element.withoutSnapshots = elements'.map Element.withoutSnapshots)
    (equal : (config.batchOf elements).EqualThroughout (config.batchOf elements')) :
    (config.rename elements').2.redirectedReferences =
      (config.rename elements).2.redirectedReferences := by
  have hcount (elements : List Element) : (config.rename elements).2.redirectedReferences =
      ((elements.map Element.withoutSnapshots).map fun element =>
        (Rename.follow (config.stepsOf elements) element).2).sum := by
    have hall : (config.rename elements).2.redirectedReferences =
        (Rename.redirectAll (config.renamesOf elements)
          (.build (instancesOf elements) (config.batchOf elements).nameableTargets) elements).2 :=
      rfl
    rw [hall, Rename.redirectAll_eq, Rename.followAll, List.map_map]
    refine congrArg List.sum (List.map_congr_left fun element _ => ?_)
    rw [Function.comp_apply, Rename.follow_withoutSnapshots]
    rfl
  rw [hcount, hcount, h, stepsOf_eq_of_equalThroughout equal]

/-- The reports on elements that are equal without snapshots are equal, if the batches are. -/
theorem report_eq_of_equalThroughout
    (h : elements.map Element.withoutSnapshots = elements'.map Element.withoutSnapshots)
    (equal : (config.batchOf elements).EqualThroughout (config.batchOf elements')) :
    (config.rename elements').2 = (config.rename elements).2 := by
  have hids : (instancesOf elements').map Instance.id = (instancesOf elements).map Instance.id :=
    equal.map_id_eq
  have hrenames : config.renamesOf elements' = config.renamesOf elements := equal.renames_eq
  have hrenamed : (config.rename elements').2.renamed = (config.rename elements).2.renamed :=
    congrArg (List.map fun rename : Rename => (rename.old, rename.new)) hrenames
  have hduplicates : (config.rename elements').2.duplicates = (config.rename elements).2.duplicates :=
    congrArg Std.ExtTreeSet.toList equal.sharedIds_eq
  have hmissing : (config.rename elements').2.missingTargets =
      (config.rename elements).2.missingTargets :=
    congrArg Std.ExtTreeSet.toList ((equal.missingTargets_eq elements').trans
      ((config.batchOf elements).missingTargets_congr (map_id_of_map_withoutSnapshots h).symm))
  rw [NamingReport.mk.injEq]
  refine ⟨hrenamed, ?_, hduplicates, ?_, hmissing,
    redirectedReferences_eq_of_equalThroughout h equal⟩
  · refine (congrArg _ hids).trans (List.filter_congr fun id hid => ?_)
    exact decide_eq_decide.2 (equal.mem_held_iff hid)
  · refine (congrArg _ hids).trans (List.filter_congr fun id hid => ?_)
    exact decide_eq_decide.2 (equal.mem_cyclic_iff hid)

/-- Under valid rules naming succeeds with elements that are equal without snapshots, and their
reference indexes are equal. If their instances are named after the same texts, then the elements end
with the same identifiers, they are equal without snapshots again, and the reports are equal. -/
theorem resolve_eq_of_withoutSnapshots (valid : config.check = .ok ())
    (h : elements.map Element.withoutSnapshots = elements'.map Element.withoutSnapshots) :
    (∀ targets, ReferenceIndex.build (instancesOf elements') targets =
      ReferenceIndex.build (instancesOf elements) targets) ∧
    ∃ (after after' : List Element) (report report' : NamingReport),
      config.resolve elements = .ok (after, report) ∧
      config.resolve elements' = .ok (after', report') ∧
      (config.NamedAfterSameTexts elements elements' →
        after'.map Element.id = after.map Element.id ∧ report' = report ∧
          after'.map Element.withoutSnapshots = after.map Element.withoutSnapshots) := by
  refine ⟨fun targets => ?_, _, _, _, _, resolve_eq_ok valid elements, resolve_eq_ok valid elements',
    fun texts => ?_⟩
  · rw [← ReferenceIndex.build_map_withoutSnapshots, ← map_withoutSnapshots_instancesOf h,
      ReferenceIndex.build_map_withoutSnapshots]
  · have equal := equalThroughout_batchOf h texts
    have hafter := rename_fst_eq_of_equalThroughout h equal
    exact ⟨(map_id_of_map_withoutSnapshots hafter).symm, report_eq_of_equalThroughout h equal,
      hafter.symm⟩

/-- A book with a list for its title, and its author, of whom the book can hold a copy. -/
def shelf (copy : Option Value) : List Element :=
  [.ofInstance (.declare "a" "book" "7"
      [("author", .reference (.ofInstance "a" "author" "1") copy),
        ("title", .list [.string "Book"])]),
    .ofInstance author]

/-- A book and its author are renamed alike whether the book holds a copy of the author or not. -/
theorem resolve_eq_of_withoutSnapshots_shelf :
    libraryRules.check = .ok () ∧
      (shelf none).map Element.withoutSnapshots =
        (shelf (some (.string "Ann"))).map Element.withoutSnapshots ∧
      libraryRules.NamedAfterSameTexts (shelf none) (shelf (some (.string "Ann"))) ∧
      ∃ (after after' : List Element) (report report' : NamingReport),
        libraryRules.resolve (shelf none) = .ok (after, report) ∧
        libraryRules.resolve (shelf (some (.string "Ann"))) = .ok (after', report') ∧
        after'.map Element.id = after.map Element.id ∧ report' = report ∧
        report.renamed.length = 2 := by
  have valid : libraryRules.check = .ok () := by decide
  have hsame : (shelf none).map Element.withoutSnapshots =
      (shelf (some (.string "Ann"))).map Element.withoutSnapshots := rfl
  have texts : libraryRules.NamedAfterSameTexts (shelf none) (shelf (some (.string "Ann"))) := by
    intro position self self' hself hself' _ field hfield value hvalue value' hvalue' hparts
    rcases position with _ | _ | position
    · obtain rfl := Element.ofInstance.inj (Option.some.inj hself)
      obtain rfl := Element.ofInstance.inj (Option.some.inj hself')
      have hfields : field ∈ [(⟨true, "author"⟩ : IdField), ⟨false, "title"⟩] := hfield
      simp only [List.mem_cons, List.not_mem_nil, or_false] at hfields
      rcases hfields with rfl | rfl
      · -- The author is a reference, which has no parts.
        obtain rfl := Option.some.inj hvalue
        cases hparts
      · obtain rfl := Option.some.inj hvalue
        obtain rfl := Option.some.inj hvalue'
        rfl
    · obtain rfl := Element.ofInstance.inj (Option.some.inj hself)
      obtain rfl := Element.ofInstance.inj (Option.some.inj hself')
      exact congrArg Value.nameFragment (Option.mem_unique hvalue hvalue')
    · cases hself
  obtain ⟨-, after, after', report, report', hresolve, hresolve', hequal⟩ :=
    resolve_eq_of_withoutSnapshots valid hsame
  obtain ⟨hids, hreport, -⟩ := hequal texts
  have hrename : (libraryRules.rename (shelf none)).2 = report :=
    congrArg Prod.snd (Except.ok.inj ((resolve_eq_ok valid _).symm.trans hresolve))
  refine ⟨valid, hsame, texts, after, after', report, report', hresolve, hresolve', hids, hreport, ?_⟩
  rw [← hrename]
  decide +kernel

/-- An instance with a list in its id field, in which a reference can hold a copy of its target. -/
def copied (copy : Option Value) : List Element :=
  [.ofInstance (.declare "a" "t" "L" [("n", .list [.reference (.ofInstance "a" "u" "x") copy])])]

/-- An instance that is named after a list gets another name if a reference in the list has a
snapshot, because the document of the list has another text then. -/
theorem resolve_ne_of_withoutSnapshots :
    fieldRules.check = .ok () ∧
      (copied none).map Element.withoutSnapshots =
        (copied (some (.string "s"))).map Element.withoutSnapshots ∧
      ∃ (after after' : List Element) (report report' : NamingReport),
        fieldRules.resolve (copied none) = .ok (after, report) ∧
        fieldRules.resolve (copied (some (.string "s"))) = .ok (after', report') ∧
        after'.map Element.id ≠ after.map Element.id ∧ report' ≠ report := by
  have valid : fieldRules.check = .ok () := by decide
  refine ⟨valid, rfl, _, _, _, _, resolve_eq_ok valid _, resolve_eq_ok valid _, ?_, ?_⟩
  · decide +kernel
  · decide +kernel

end NamingConfig

end ElementCatalog
