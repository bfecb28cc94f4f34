import ElementCatalog.Proofs.Naming.Correspondence
import ElementCatalog.Proofs.Naming.FinalNames

/-!
# Naming and the order of elements

The order of elements decides in which order instances are visited, named and reported, but not what
they are named. With the elements in another order the instances are the same, so the two batches
correspond (`NamingConfig.corresponds_of_perm`), each element ends with the same identifier, and the
reports list the same (`NamingConfig.resolve_perm`).
-/

namespace ElementCatalog.NamingConfig

variable {config : NamingConfig} {elements elements' : List Element}

/-- Elements in another order have the same instances in another order. -/
theorem instancesOf_perm (h : elements.Perm elements') :
    (instancesOf elements').Perm (instancesOf elements) :=
  (h.filterMap Element.asInstance?).symm

/-- In another order the same identifiers are there. -/
theorem has_perm (config : NamingConfig) (h : elements.Perm elements') (id : ElementId) :
    (config.batchOf elements').has id = (config.batchOf elements).has id :=
  (instancesOf_perm h).any_eq

/-- In another order the same identifiers are shared. -/
theorem isShared_perm (config : NamingConfig) (h : elements.Perm elements') (id : ElementId) :
    (config.batchOf elements').isShared id = (config.batchOf elements).isShared id := by
  rw [Batch.isShared, Batch.isShared, batchOf, batchOf, (instancesOf_perm h).countP_eq]

/-- Elements in another order make a batch that corresponds, with everything as it is. -/
theorem corresponds_of_perm (config : NamingConfig) (h : elements.Perm elements') :
    (config.batchOf elements).Corresponds (config.batchOf elements') id id where
  config_eq := rfl
  instances_perm := by
    rw [List.map_id]
    exact instancesOf_perm h
  id_turn _ _ := rfl
  eq_of_moved_eq _ _ _ _ heq := heq
  adapter_eq _ _ := rfl
  typeName_eq _ _ := rfl
  alike self _ := by
    refine Composition.alike_refl fun reference _ => ?_
    cases hhas : (config.batchOf elements).has reference.topTarget with
    | true => exact .present hhas rfl
    | false => exact .missing hhas ((has_perm config h _).trans hhas) rfl rfl
  moved_eq _ _ _ := rfl
  name_eq _ _ _ _ _ _ := rfl

/-- In another order an instance has the same final identifier. -/
theorem finalId_perm (config : NamingConfig) (h : elements.Perm elements') {self : Instance}
    (hself : self ∈ instancesOf elements) :
    (config.batchOf elements').plan.names.finalId self =
      (config.batchOf elements).plan.names.finalId self :=
  (corresponds_of_perm config h).finalId_eq hself

/-- Each element keeps its position, a type definition with its identifier and an instance with the
final one. -/
theorem getElem?_rename (config : NamingConfig) {position : Nat} {element : Element}
    (h : elements[position]? = some element) :
    ∃ ended, (config.rename elements).1[position]? = some ended ∧
      ended.id = match element with
        | .ofType definition => definition.id
        | .ofInstance self => (config.batchOf elements).plan.names.finalId self := by
  cases element with
  | ofType definition =>
    refine ⟨.ofType definition, ?_, rfl⟩
    rw [rename_fst, List.getElem?_map, h, Option.map_some, Rename.follow_ofType]
    rfl
  | ofInstance self =>
    obtain ⟨ended, hended, hid⟩ := getElem?_rename_ofInstance config h
    exact ⟨.ofInstance ended, hended, hid⟩

/-! ## Reports -/

/-- In another order the same renames are made. -/
theorem renamesOf_perm (config : NamingConfig) (h : elements.Perm elements') :
    (config.renamesOf elements').Perm (config.renamesOf elements) := by
  have hsame : config.renamesOf elements = (config.batchOf elements').plan.renames
      (instancesOf elements) :=
    List.filterMap_congr fun self hself => by rw [finalId_perm config h hself]
  rw [hsame]
  exact (instancesOf_perm h).filterMap _

/-- In another order the identifiers of some instances are listed in another order. -/
theorem filter_ids_perm (h : elements.Perm elements') {p q : ElementId → Bool}
    (hpq : ∀ self ∈ instancesOf elements, p self.id = q self.id) :
    (((instancesOf elements').map Instance.id).filter p).Perm
      (((instancesOf elements).map Instance.id).filter q) := by
  have hsame : ((instancesOf elements).map Instance.id).filter q =
      ((instancesOf elements).map Instance.id).filter p := by
    refine List.filter_congr fun id hid => ?_
    obtain ⟨self, hself, rfl⟩ := List.mem_map.1 hid
    exact (hpq self hself).symm
  rw [hsame]
  exact ((instancesOf_perm h).map Instance.id).filter p

/-- In another order the same identifiers are reported as shared. -/
theorem sharedIds_perm (config : NamingConfig) (h : elements.Perm elements') :
    (config.batchOf elements').sharedIds = (config.batchOf elements).sharedIds := by
  refine Std.ExtTreeSet.ext_mem fun {id} => ?_
  rw [Batch.sharedIds, Batch.sharedIds, Std.ExtTreeSet.mem_ofList, Std.ExtTreeSet.mem_ofList,
    List.contains_iff_mem, List.contains_iff_mem, List.mem_filter, List.mem_filter,
    isShared_perm config h]
  exact and_congr_left fun _ => ((instancesOf_perm h).map Instance.id).mem_iff

/-- In another order the same targets are reported as missing. -/
theorem missingTargets_perm (config : NamingConfig) (h : elements.Perm elements') :
    (config.batchOf elements').missingTargets (config.batchOf elements').plan elements' =
      (config.batchOf elements).missingTargets (config.batchOf elements).plan elements := by
  have horder (self : Instance) : self ∈ (config.batchOf elements').plan.order ↔
      self ∈ (config.batchOf elements).plan.order := by
    have corresponds := corresponds_of_perm config h
    constructor
    · intro hself
      have hmem := (Batch.mem_candidates_iff.1 (Batch.plan_order_subset hself)).1
      exact (corresponds.turn_mem_order_iff ((instancesOf_perm h).mem_iff.1 hmem)).1 hself
    · intro hself
      have hmem := (Batch.mem_candidates_iff.1 (Batch.plan_order_subset hself)).1
      exact (corresponds.turn_mem_order_iff hmem).2 hself
  refine Std.ExtTreeSet.ext_mem fun {target} => ?_
  simp only [Batch.missingTargets, Std.ExtTreeSet.mem_ofList,
    List.mem_filter, List.mem_flatMap, horder, Bool.and_eq_true, Bool.not_eq_true',
    has_perm config h, List.contains_eq_mem, decide_eq_false_iff_not, decide_eq_true_eq]
  refine and_congr ?_ (and_congr_right fun _ => not_congr ?_)
  · rfl
  · exact ((h.filter _).map Element.id).mem_iff.symm

/-- Under valid rules naming succeeds with the elements in any order. Each element ends with the same
identifier in whatever order the elements are, the reports have the same duplicates and missing
targets, and they list the same renames, suppressed and cyclic instances up to order. -/
theorem resolve_perm (valid : config.check = .ok ()) (h : elements.Perm elements') :
    ∃ (after after' : List Element) (report report' : NamingReport),
      config.resolve elements = .ok (after, report) ∧
      config.resolve elements' = .ok (after', report') ∧
      (∀ (i j : Nat) (element : Element), elements[i]? = some element →
        elements'[j]? = some element →
        ∃ ended ended' : Element, after[i]? = some ended ∧ after'[j]? = some ended' ∧
          ended'.id = ended.id) ∧
      report'.duplicates = report.duplicates ∧
      report'.missingTargets = report.missingTargets ∧
      report'.renamed.Perm report.renamed ∧
      report'.suppressed.Perm report.suppressed ∧
      report'.cyclic.Perm report.cyclic := by
  have corresponds := corresponds_of_perm config h
  refine ⟨_, _, _, _, resolve_eq_ok valid elements, resolve_eq_ok valid elements', ?_, ?_, ?_, ?_,
    ?_, ?_⟩
  · intro i j element hi hj
    obtain ⟨ended, hended, hid⟩ := getElem?_rename config hi
    obtain ⟨ended', hended', hid'⟩ := getElem?_rename config hj
    refine ⟨ended, ended', hended, hended', ?_⟩
    rw [hid, hid']
    cases element with
    | ofType definition => rfl
    | ofInstance self => exact finalId_perm config h (mem_instancesOf_of_getElem? hi)
  · exact congrArg Std.ExtTreeSet.toList (sharedIds_perm config h)
  · exact congrArg Std.ExtTreeSet.toList (missingTargets_perm config h)
  · exact (renamesOf_perm config h).map _
  · exact filter_ids_perm h fun self hself =>
      decide_eq_decide.2 (corresponds.moved_mem_held_iff hself)
  · exact filter_ids_perm h fun self hself =>
      decide_eq_decide.2 (corresponds.moved_mem_cyclic_iff hself)

/-- A book ends with the same identifier whether its author stands behind it or in front of it. -/
theorem resolve_perm_book :
    libraryRules.check = .ok () ∧
      [Element.ofInstance book, .ofInstance author].Perm [.ofInstance author, .ofInstance book] ∧
      ∃ (after after' : List Element) (report report' : NamingReport),
        libraryRules.resolve [.ofInstance book, .ofInstance author] = .ok (after, report) ∧
        libraryRules.resolve [.ofInstance author, .ofInstance book] = .ok (after', report') ∧
        (∃ ended ended' : Element, after[0]? = some ended ∧ after'[1]? = some ended' ∧
          ended'.id = ended.id) ∧
        report'.renamed.Perm report.renamed := by
  have valid : libraryRules.check = .ok () := by decide
  have swapped : [Element.ofInstance book, .ofInstance author].Perm
      [.ofInstance author, .ofInstance book] := .swap _ _ _
  obtain ⟨after, after', report, report', hresolve, hresolve', hids, -, -, hrenamed, -⟩ :=
    resolve_perm valid swapped
  exact ⟨valid, swapped, after, after', report, report', hresolve, hresolve',
    hids 0 1 (.ofInstance book) rfl rfl, hrenamed⟩

end ElementCatalog.NamingConfig
