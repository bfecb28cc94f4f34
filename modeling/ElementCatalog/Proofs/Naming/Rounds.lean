import ElementCatalog.Proofs.Naming.Plan

/-!
# Rounds of naming

A round computes the names of the instances in naming order that are not held, and finds those that
collide. The last round finds none, and in it each name is composed of the names of that same
round.

## Main results

* `Batch.settles_settle`: with enough rounds the last one has no collision;
* `Batch.getElem?_plan_names_eq_some`: each name in a plan is the one composed of the names in the
  plan;
* `Batch.finalId_plan_names_eq_iff`: final identifiers are equal only for equal identifiers.
-/

namespace ElementCatalog

namespace NameTable

/-- The final identifier of an instance without a new name is the one it has. -/
theorem finalId_eq_self {names : NameTable} {self : Instance} (h : names[self.id]? = none) :
    names.finalId self = self.id := by
  simp [finalId, h]

/-- The final identifier of an instance with a new name is made of that name. -/
theorem finalId_eq_idWith {names : NameTable} {self : Instance} {name : String}
    (h : names[self.id]? = some name) : names.finalId self = Composition.idWith self name := by
  simp [finalId, h]

/-- The final identifier depends only on the identifier. -/
theorem finalId_congr {names : NameTable} {a b : Instance} (h : a.id = b.id) :
    names.finalId a = names.finalId b := by
  simp only [finalId, Composition.idWith, h]

/-- The name that an instance has is the last part of its final identifier. -/
theorem name_finalId (names : NameTable) (self : Instance) :
    (names.finalId self).name = names.nameOf self.id := by
  rw [finalId, nameOf]
  cases names[self.id]? with
  | none => rfl
  | some name => rfl

end NameTable

namespace Batch

variable {batch : Batch}

/-! ## One round -/

/-- The names with that of one more instance, unless it is held. -/
def extendNames (batch : Batch) (held : List ElementId) (names : NameTable) (self : Instance) :
    NameTable :=
  if self.id ∈ held then names else names.insert self.id (batch.nameFor names self)

/-- The names of instances in naming order are found one after another. -/
theorem namesOf_append (front back : List Instance) (held : List ElementId) :
    batch.namesOf (front ++ back) held =
      back.foldl (batch.extendNames held) (batch.namesOf front held) := by
  simp only [namesOf, List.foldl_append]
  rfl

/-- Naming further instances changes only their names, and no name of one that is held. -/
theorem getElem?_foldl_extendNames {order : List Instance} {held : List ElementId}
    {names : NameTable} {id : ElementId} (h : id ∈ order.map Instance.id → id ∈ held) :
    (order.foldl (batch.extendNames held) names)[id]? = names[id]? := by
  induction order generalizing names with
  | nil => rfl
  | cons self rest ih =>
    rw [List.foldl_cons, ih fun hrest => h (List.mem_cons_of_mem _ hrest), extendNames]
    split
    · rfl
    · next hself =>
      have hne : self.id ≠ id := by
        rintro rfl
        exact hself (h List.mem_cons_self)
      simp [Std.ExtTreeMap.getElem?_insert, hne]

/-- A round gives no name to an instance that is held or not in order. -/
theorem getElem?_namesOf_eq_none {order : List Instance} {held : List ElementId} {id : ElementId}
    (h : id ∈ order.map Instance.id → id ∈ held) : (batch.namesOf order held)[id]? = none := by
  rw [← List.nil_append order, namesOf_append, getElem?_foldl_extendNames h]
  simp [namesOf]

/-- The name that a round gives to an instance is composed of those given before. -/
theorem getElem?_namesOf_eq_some {front back : List Instance} {self : Instance}
    {held : List ElementId} (distinct : ((front ++ self :: back).map Instance.id).Nodup)
    (hheld : self.id ∉ held) :
    (batch.namesOf (front ++ self :: back) held)[self.id]? =
      some (batch.nameFor (batch.namesOf front held) self) := by
  have hback : self.id ∉ back.map Instance.id := by
    rw [List.map_append, List.map_cons] at distinct
    exact (List.nodup_cons.1 (List.nodup_append'.1 distinct).2.1).1
  -- Later instances have other identifiers, so the name stays as it was given.
  rw [namesOf_append, List.foldl_cons, getElem?_foldl_extendNames fun h => absurd h hback,
    extendNames, if_neg hheld]
  simp

/-- A round names exactly the instances in order that are not held. -/
theorem isSome_getElem?_namesOf_iff {order : List Instance} {held : List ElementId}
    (distinct : (order.map Instance.id).Nodup) {id : ElementId} :
    (batch.namesOf order held)[id]?.isSome ↔ id ∈ order.map Instance.id ∧ id ∉ held := by
  constructor
  · intro h
    by_contra hnot
    rw [getElem?_namesOf_eq_none fun hid => by_contra fun hheld => hnot ⟨hid, hheld⟩] at h
    simp at h
  · rintro ⟨hid, hheld⟩
    obtain ⟨self, hself, rfl⟩ := List.mem_map.1 hid
    obtain ⟨front, back, rfl⟩ := List.append_of_mem hself
    rw [getElem?_namesOf_eq_some distinct hheld, Option.isSome_some]

/-- The instances that a round holds are in order and were not held before. -/
theorem mem_collisions {order : List Instance} {held : List ElementId}
    (distinct : (order.map Instance.id).Nodup) {id : ElementId}
    (h : id ∈ batch.collisions (batch.namesOf order held) order) :
    id ∈ order.map Instance.id ∧ id ∉ held := by
  obtain ⟨self, hself, rfl⟩ := List.mem_map.1 h
  have hnamed := (List.mem_filter.1 (List.mem_filter.1 hself).1).2
  exact (isSome_getElem?_namesOf_iff distinct).1 hnamed

/-- No instance is held twice in one round. -/
theorem nodup_collisions (batch : Batch) {order : List Instance} (names : NameTable)
    (distinct : (order.map Instance.id).Nodup) : (batch.collisions names order).Nodup :=
  distinct.sublist ((List.filter_sublist.trans List.filter_sublist).map _)

/-! ## All rounds -/

/-- What the rounds end with. -/
structure Settles (batch : Batch) (order : List Instance) (held : List ElementId)
    (ended : List ElementId × NameTable) : Prop where
  /-- The names are those of the last round. -/
  names_eq : ended.2 = batch.namesOf order ended.1
  /-- The last round has no collision. -/
  collisions_eq_nil : batch.collisions ended.2 order = []
  /-- What was held stays held. -/
  held_subset : held ⊆ ended.1
  /-- Only instances in order are held. -/
  subset_order : ended.1 ⊆ order.map Instance.id

/-- With as many rounds as there are instances that are not held, the last one has no collision. -/
theorem settles_settle {order : List Instance} (distinct : (order.map Instance.id).Nodup)
    (rounds : Nat) {held : List ElementId} (hheld : held.Nodup)
    (hsubset : held ⊆ order.map Instance.id) (room : order.length ≤ held.length + rounds) :
    Settles batch order held (batch.settle order rounds held) := by
  induction rounds generalizing held with
  | zero =>
    refine ⟨rfl, ?_, List.Subset.refl _, hsubset⟩
    -- As many instances are held as there are in order, so these are all of them.
    have hall : held.Perm (order.map Instance.id) :=
      (List.subperm_of_subset hheld hsubset).perm_of_length_le (by simpa using room)
    refine List.eq_nil_iff_forall_not_mem.2 fun id hid => ?_
    obtain ⟨hmem, hnot⟩ := mem_collisions distinct hid
    exact hnot (hall.mem_iff.2 hmem)
  | succ rounds ih =>
    rw [settle]
    split
    · next hnone => exact ⟨rfl, hnone, List.Subset.refl _, hsubset⟩
    · next hmore =>
      have hnew := nodup_collisions batch (batch.namesOf order held) distinct
      have hdisjoint : held.Disjoint (batch.collisions (batch.namesOf order held) order) :=
        fun id hid hid' => (mem_collisions distinct hid').2 hid
      -- At least one more instance is held, so one round less is enough for the others.
      have hlength := List.length_pos_of_ne_nil hmore
      have later := ih (List.nodup_append'.2 ⟨hheld, hnew, hdisjoint⟩)
        (List.append_subset.2 ⟨hsubset, fun id hid => (mem_collisions distinct hid).1⟩)
        (by rw [List.length_append]; omega)
      exact ⟨later.names_eq, later.collisions_eq_nil,
        List.Subset.trans (List.subset_append_left _ _) later.held_subset, later.subset_order⟩

/-! ## The names in a plan -/

/-- The names in a plan are those of the last round. -/
theorem settles_plan (batch : Batch) :
    Settles batch batch.plan.order [] (batch.plan.held, batch.plan.names) :=
  settles_settle nodup_plan_order_ids batch.plan.order.length List.nodup_nil (List.nil_subset _)
    (Nat.le_add_left _ _)

/-- The names in a plan are those that a round gives without the instances held by it. -/
theorem plan_names_eq (batch : Batch) :
    batch.plan.names = batch.namesOf batch.plan.order batch.plan.held :=
  (settles_plan batch).names_eq

/-- A plan has names exactly for the instances that names are computed for and that are not
held. -/
theorem isSome_getElem?_plan_names_iff {id : ElementId} :
    batch.plan.names[id]?.isSome ↔
      id ∈ batch.plan.order.map Instance.id ∧ id ∉ batch.plan.held := by
  rw [plan_names_eq]
  exact isSome_getElem?_namesOf_iff nodup_plan_order_ids

/-- Names that come later in a round do not change what a name is composed of. -/
theorem nameFor_namesOf_front {front back : List Instance} {self : Instance}
    (horder : batch.plan.order = front ++ self :: back) (held : List ElementId) :
    batch.nameFor (batch.namesOf front held) self =
      batch.nameFor (batch.namesOf batch.plan.order held) self := by
  have distinct : (front.map Instance.id ++ (self :: back).map Instance.id).Nodup := by
    rw [← List.map_append, ← horder]
    exact nodup_plan_order_ids
  refine Composition.name_congr fun reference hreference => ?_
  simp only [referenceName, NameTable.nameOf]
  -- A target that is named from here on would be a candidate, hence named before.
  have hlater : reference.topTarget ∉ (self :: back).map Instance.id := by
    intro hmem
    obtain ⟨other, hother, hid⟩ := List.mem_map.1 hmem
    have horder_mem : other ∈ batch.plan.order := horder ▸ List.mem_append_right _ hother
    rcases topTarget_mem_front_or_cyclic horder hreference
      (hid ▸ List.mem_map_of_mem (plan_order_subset horder_mem)) with hfront | hcyclic
    · exact (List.nodup_append'.1 distinct).2.2 hfront hmem
    · exact (mem_plan_order_iff.1 horder_mem).2 (hid ▸ hcyclic)
  rw [horder, namesOf_append, getElem?_foldl_extendNames fun h => absurd h hlater]

/-- Each name that a round gives is the one composed of the names of the round. -/
theorem getElem?_namesOf_plan_order {self : Instance} (hself : self ∈ batch.plan.order)
    {held : List ElementId} (hheld : self.id ∉ held) :
    (batch.namesOf batch.plan.order held)[self.id]? =
      some (batch.nameFor (batch.namesOf batch.plan.order held) self) := by
  obtain ⟨front, back, horder⟩ := List.append_of_mem hself
  have distinct : ((front ++ self :: back).map Instance.id).Nodup := by
    rw [← horder]
    exact nodup_plan_order_ids
  rw [← nameFor_namesOf_front horder]
  conv_lhs => rw [horder]
  exact getElem?_namesOf_eq_some distinct hheld

/-- Each name in a plan is the one composed of the names in the plan. -/
theorem getElem?_plan_names_eq_some {self : Instance} (hself : self ∈ batch.plan.order)
    (hheld : self.id ∉ batch.plan.held) :
    batch.plan.names[self.id]? = some (batch.nameFor batch.plan.names self) := by
  rw [plan_names_eq]
  exact getElem?_namesOf_plan_order hself hheld

/-- The new identifier of an instance is that of no other instance. -/
theorem finalId_plan_names_ne {a b : Instance} (ha : a ∈ batch.instances)
    (hb : b ∈ batch.instances) (hne : a.id ≠ b.id) (hnamed : batch.plan.names[a.id]?.isSome) :
    batch.plan.names.finalId b ≠ batch.plan.names.finalId a := by
  intro heq
  obtain ⟨horder, -⟩ := isSome_getElem?_plan_names_iff.1 hnamed
  obtain ⟨self, hself, hid⟩ := List.mem_map.1 horder
  obtain rfl : a = self := eq_of_mem_candidates (plan_order_subset hself) ha hid.symm
  -- Otherwise the instance would be held by the last round, which holds none.
  have hcollides : batch.collides batch.plan.names a = true := by
    simp only [collides, List.any_eq_true, Bool.and_eq_true, bne_iff_ne, beq_iff_eq]
    exact ⟨b, hb, Ne.symm hne, heq⟩
  have hcollision : a.id ∈ batch.collisions batch.plan.names batch.plan.order := by
    refine List.mem_map_of_mem (List.mem_filter.2 ⟨?_, hcollides⟩)
    exact List.mem_filter.2 ⟨hself, hnamed⟩
  rw [(settles_plan batch).collisions_eq_nil] at hcollision
  exact List.not_mem_nil hcollision

/-- Final identifiers of instances are equal exactly if their identifiers are. -/
theorem finalId_plan_names_eq_iff {a b : Instance} (ha : a ∈ batch.instances)
    (hb : b ∈ batch.instances) :
    batch.plan.names.finalId a = batch.plan.names.finalId b ↔ a.id = b.id := by
  refine ⟨fun heq => ?_, NameTable.finalId_congr⟩
  by_contra hne
  cases hnameA : batch.plan.names[a.id]? with
  | some name =>
    exact finalId_plan_names_ne ha hb hne (by simp [hnameA]) heq.symm
  | none =>
    cases hnameB : batch.plan.names[b.id]? with
    | some name =>
      exact finalId_plan_names_ne hb ha (Ne.symm hne) (by simp [hnameB]) heq
    | none =>
      -- Both keep their identifiers, which differ.
      rw [NameTable.finalId_eq_self hnameA, NameTable.finalId_eq_self hnameB] at heq
      exact hne heq

end Batch

end ElementCatalog
