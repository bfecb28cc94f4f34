import ElementCatalog.Naming.Plan
import ElementCatalog.Proofs.Lookup
import ElementCatalog.Proofs.Naming.Composition
import ElementCatalog.Proofs.Naming.Dependency
import Mathlib.Data.List.Induction

/-!
# What a naming plan guarantees

A plan names candidates in the order of their dependencies, round after round, and each round holds
those that collide.

## Main results

* `Batch.nodup_candidate_ids`: candidates have distinct identifiers;
* `Batch.mem_plan_order_iff`: names are computed for the candidates that do not lie on cycles;
* `Batch.nodup_plan_order_ids`: no name is computed twice;
* `Batch.topTarget_mem_front_or_cyclic`: a name is computed after the names that it is composed of,
  except for those of instances on cycles;
* `Batch.plan_order_induction`: induction over the instances that are named, along dependencies.
-/

namespace ElementCatalog

namespace Batch

variable {batch : Batch}

/-! ## Candidates -/

/-- An identifier is there if some instance has it. -/
theorem has_iff {id : ElementId} :
    batch.has id = true ↔ ∃ self ∈ batch.instances, self.id = id := by
  simp [has]

/-- A candidate is an instance with an identifier of its own and a type whose rules depend on other
instances. -/
theorem mem_candidates_iff {self : Instance} :
    self ∈ batch.candidates ↔ self ∈ batch.instances ∧
      batch.isShared self.id = false ∧ batch.config.isNameable self.typeName = true := by
  simp [candidates, isCandidate, List.mem_filter]

/-- An instance that does not share its identifier is the only one with it. -/
theorem eq_of_isShared_eq_false {a b : Instance} (h : batch.isShared a.id = false)
    (ha : a ∈ batch.instances) (hb : b ∈ batch.instances) (hid : b.id = a.id) : b = a := by
  refine eq_of_countP_le_one (p := (·.id == a.id)) ?_ hb ha (by simp [hid]) (by simp)
  simpa [isShared] using h

/-- A candidate is the only instance with its identifier. -/
theorem eq_of_mem_candidates {a b : Instance} (ha : a ∈ batch.candidates)
    (hb : b ∈ batch.instances) (hid : b.id = a.id) : b = a := by
  obtain ⟨hmem, hshared, -⟩ := mem_candidates_iff.1 ha
  exact eq_of_isShared_eq_false hshared hmem hb hid

/-- Candidates have distinct identifiers. -/
theorem nodup_candidate_ids : (batch.candidates.map Instance.id).Nodup := by
  rw [List.nodup_iff_count_le_one]
  intro id
  rw [List.count_eq_countP, List.countP_map]
  -- All instances with the identifier of a candidate are counted once, hence so are candidates.
  by_cases h : ∃ self ∈ batch.candidates, self.id = id
  · obtain ⟨self, hself, rfl⟩ := h
    obtain ⟨-, hshared, -⟩ := mem_candidates_iff.1 hself
    calc batch.candidates.countP ((· == self.id) ∘ Instance.id)
        ≤ batch.instances.countP (·.id == self.id) := List.filter_sublist.countP_le
      _ ≤ 1 := by simpa [isShared] using hshared
  · rw [List.countP_eq_zero.2]
    · exact Nat.zero_le 1
    · simpa using h

/-! ## Dependencies among candidates -/

/-- The identifiers of candidates that the name of the candidate with an identifier depends on. -/
def needs (batch : Batch) (id : ElementId) : List ElementId :=
  (batch.dependencies.lookup id).getD []

/-- The naming order is that of the needs of candidates. -/
theorem namingOrder_eq : batch.namingOrder =
    DependencyOrder.of batch.needs (batch.candidates.map Instance.id) := by
  simp only [namingOrder, dependencies, List.map_map]
  rfl

/-- A candidate needs the candidates that its naming references point to. -/
theorem mem_needs_iff {self : Instance} (hself : self ∈ batch.candidates) {id : ElementId} :
    id ∈ batch.needs self.id ↔ id ∈ batch.candidates.map Instance.id ∧
      ∃ reference ∈ batch.namingReferences self, reference.topTarget = id := by
  have hkeys : (batch.dependencies.map Prod.fst).Nodup := by
    simpa [dependencies, Function.comp_def] using batch.nodup_candidate_ids
  have hentry : (self.id, ((batch.namingReferences self).map Reference.topTarget).filter
      (· ∈ batch.candidates.map Instance.id)) ∈ batch.dependencies :=
    List.mem_map_of_mem hself
  rw [needs, lookup_eq_some_of_mem hkeys hentry]
  simp [and_comm]

/-- Only candidates have needs, and only candidates are needed. -/
theorem isClosed_needs :
    DependencyOrder.IsClosed batch.needs (batch.candidates.map Instance.id) := by
  intro id hid other hother
  obtain ⟨self, hself, rfl⟩ := List.mem_map.1 hid
  exact ((mem_needs_iff hself).1 hother).1

/-! ## The candidates in naming order -/

/-- The candidates with the identifiers of candidates are those that have them. -/
theorem map_id_candidatesWith {ids : List ElementId}
    (h : ids ⊆ batch.candidates.map Instance.id) :
    (batch.candidatesWith ids).map Instance.id = ids := by
  rw [candidatesWith, List.map_filterMap]
  calc ids.filterMap (fun id => (batch.candidates.find? (·.id == id)).map Instance.id)
      = ids.filterMap some := by
        refine List.filterMap_congr fun id hid => ?_
        obtain ⟨self, hself, rfl⟩ := List.mem_map.1 (h hid)
        obtain ⟨found, hfound⟩ : ∃ found, batch.candidates.find? (·.id == self.id) = some found :=
          Option.isSome_iff_exists.1 (List.find?_isSome.2 ⟨self, hself, by simp⟩)
        rw [hfound, Option.map_some]
        exact congrArg some (by simpa using List.find?_some hfound)
    _ = ids := List.filterMap_some

/-- The candidates with some identifiers are candidates. -/
theorem candidatesWith_subset (ids : List ElementId) :
    batch.candidatesWith ids ⊆ batch.candidates := by
  intro self hself
  obtain ⟨id, -, hfound⟩ := List.mem_filterMap.1 hself
  exact List.mem_of_find?_eq_some hfound

/-- The instances that names are computed for, in the order of their dependencies. -/
theorem map_id_plan_order : batch.plan.order.map Instance.id = batch.namingOrder.order := by
  refine map_id_candidatesWith fun id hid => ?_
  rw [namingOrder_eq, DependencyOrder.mem_order_iff isClosed_needs] at hid
  exact hid.1

/-- Names are computed for instances with distinct identifiers. -/
theorem nodup_plan_order_ids : (batch.plan.order.map Instance.id).Nodup := by
  rw [map_id_plan_order, namingOrder_eq]
  exact DependencyOrder.nodup_order isClosed_needs

/-- Names are computed for candidates. -/
theorem plan_order_subset : batch.plan.order ⊆ batch.candidates :=
  candidatesWith_subset _

/-- The cyclic instances of a plan are the candidates that need themselves in the end. -/
theorem mem_plan_cyclic_iff {id : ElementId} :
    id ∈ batch.plan.cyclic ↔ id ∈ batch.candidates.map Instance.id ∧
      DependencyOrder.NeedsInTheEnd batch.needs id id := by
  change id ∈ batch.namingOrder.cyclic ↔ _
  rw [namingOrder_eq, DependencyOrder.mem_cyclic_iff isClosed_needs]

/-- Names are computed for the candidates that do not need themselves. -/
theorem mem_plan_order_iff {self : Instance} :
    self ∈ batch.plan.order ↔ self ∈ batch.candidates ∧ self.id ∉ batch.plan.cyclic := by
  have hid {id : ElementId} : id ∈ batch.plan.order.map Instance.id ↔
      id ∈ batch.candidates.map Instance.id ∧ id ∉ batch.plan.cyclic := by
    rw [map_id_plan_order, mem_plan_cyclic_iff, namingOrder_eq,
      DependencyOrder.mem_order_iff isClosed_needs]
    tauto
  constructor
  · exact fun h => ⟨plan_order_subset h, (hid.1 (List.mem_map_of_mem h)).2⟩
  · intro ⟨hself, hcyclic⟩
    obtain ⟨other, hother, heq⟩ := List.mem_map.1 (hid.2 ⟨List.mem_map_of_mem hself, hcyclic⟩)
    have hmem := (mem_candidates_iff.1 (plan_order_subset hother)).1
    exact eq_of_mem_candidates hself hmem heq ▸ hother

/-- An instance with an identifier that a name is computed for is the one that it is for. -/
theorem mem_plan_order_of_id_mem {self : Instance} (hself : self ∈ batch.instances)
    (h : self.id ∈ batch.plan.order.map Instance.id) : self ∈ batch.plan.order := by
  obtain ⟨found, hfound, hid⟩ := List.mem_map.1 h
  exact eq_of_mem_candidates (plan_order_subset hfound) hself hid.symm ▸ hfound

/-- A candidate that a name depends on is named before, or lies on a cycle. -/
theorem topTarget_mem_front_or_cyclic {front back : List Instance} {self : Instance}
    (horder : batch.plan.order = front ++ self :: back) {reference : Reference}
    (hreference : reference ∈ batch.namingReferences self)
    (htarget : reference.topTarget ∈ batch.candidates.map Instance.id) :
    reference.topTarget ∈ front.map Instance.id ∨ reference.topTarget ∈ batch.plan.cyclic := by
  have hself : self ∈ batch.candidates := plan_order_subset (by simp [horder])
  have hneeds : reference.topTarget ∈ batch.needs self.id :=
    (mem_needs_iff hself).2 ⟨htarget, reference, hreference, rfl⟩
  have hids : (DependencyOrder.of batch.needs (batch.candidates.map Instance.id)).order =
      front.map Instance.id ++ self.id :: back.map Instance.id := by
    rw [← namingOrder_eq, ← map_id_plan_order, horder, List.map_append, List.map_cons]
  have := DependencyOrder.mem_front_or_cyclic isClosed_needs hids hneeds
  rwa [← namingOrder_eq] at this

/-- What holds of an instance that is named whenever it holds of those that its name depends on
holds of all instances that are named. -/
theorem plan_order_induction {holds : Instance → Prop}
    (step : ∀ self ∈ batch.plan.order,
      (∀ other ∈ batch.plan.order,
        (∃ reference ∈ batch.namingReferences self, reference.topTarget = other.id) →
          holds other) → holds self) :
    ∀ self ∈ batch.plan.order, holds self := by
  -- The induction is on the instances up to a place in the order.
  suffices h : ∀ front back, batch.plan.order = front ++ back → ∀ self ∈ front, holds self from
    h batch.plan.order [] (List.append_nil _).symm
  intro front
  induction front using List.reverseRecOn with
  | nil => exact fun _ _ self h => absurd h List.not_mem_nil
  | append_singleton front last ih =>
    intro back horder
    rw [List.append_assoc, List.singleton_append] at horder
    have hfront := ih (last :: back) horder
    intro self hself
    rcases List.mem_append.1 hself with h | h
    · exact hfront self h
    · obtain rfl := List.mem_singleton.1 h
      refine step self (horder ▸ List.mem_append_right _ List.mem_cons_self) ?_
      rintro other hother ⟨reference, hreference, htop⟩
      have hcandidate := plan_order_subset hother
      rcases topTarget_mem_front_or_cyclic horder hreference
        (htop ▸ List.mem_map_of_mem hcandidate) with h | h
      · obtain ⟨found, hfound, hid⟩ := List.mem_map.1 h
        have hmem : found ∈ batch.plan.order := horder ▸ List.mem_append_left _ hfound
        have heq : found = other := eq_of_mem_candidates hcandidate
          (mem_candidates_iff.1 (plan_order_subset hmem)).1 (hid.trans htop)
        exact heq ▸ hfront found hfound
      · exact absurd (htop ▸ h) (mem_plan_order_iff.1 hother).2

end Batch

end ElementCatalog
