import ElementCatalog.Proofs.Naming.Report

/-!
# What is reported missing

A report lists the top-level elements that names were looked for in and that are not there. They are
sought by the instances that are named and not on a cycle (`NamingConfig.Seeks`), in whatever round
of naming. What no element has as its identifier is reported. A type definition with the identifier
of an instance is overlooked, so that what it has as its identifier is reported as well; the list is
exact as long as no such identifier is sought (`NamingConfig.resolve_reportsMissing_iff`).

## Main definitions

* `NamingConfig.Seeks`: some name is looked for in a top-level element;
* `AbsentFrom` and `OverlookedAmong`: no element has an identifier, and none that is looked at;
* `NamingConfig.ReportsMissing`: what is sought and absent is listed.
-/

namespace ElementCatalog

/-- No element has the identifier, whether it is a type definition or an instance. -/
def AbsentFrom (elements : List Element) (id : ElementId) : Prop :=
  ∀ element ∈ elements, element.id ≠ id

/-- The identifier is one of an instance, but a type definition has it and no instance does. -/
def OverlookedAmong (elements : List Element) (id : ElementId) : Prop :=
  id.kind = .inst ∧ (∃ definition, .ofType definition ∈ elements ∧ definition.id = id) ∧
    ∀ self ∈ instancesOf elements, self.id ≠ id

namespace NamingConfig

variable {config : NamingConfig} {elements : List Element} {target : ElementId}

/-- An instance that is named and not on a cycle refers into the top-level element, by an id field
or by its first parent if that counts. -/
def Seeks (config : NamingConfig) (elements : List Element) (target : ElementId) : Prop :=
  ∃ self, config.IsNamed elements self ∧ ¬ config.OnCycle elements self ∧
    self.RefersInto (config.rulesFor self.typeName) target

/-- The top-level elements that are sought and absent are listed. -/
structure ReportsMissing (config : NamingConfig) (elements : List Element)
    (missing : List ElementId) : Prop where
  /-- The list is ascending, so it has no element twice. -/
  ascending : missing.Pairwise fun a b => compare a b = .lt
  /-- Exactly what is sought and absent is listed. -/
  mem_iff : ∀ target, target ∈ missing ↔ config.Seeks elements target ∧ AbsentFrom elements target

/-! ## What is sought -/

/-- What names are looked for in is what is sought. -/
theorem exists_mem_plan_order_iff :
    (∃ self ∈ (config.batchOf elements).plan.order,
      ∃ reference ∈ (config.batchOf elements).namingReferences self,
        reference.topTarget = target) ↔ config.Seeks elements target := by
  simp only [mem_plan_order_iff, exists_mem_namingReferences_iff, and_assoc]
  rfl

/-! ## What is seen -/

/-- An identifier is seen on no instance if no instance has it. -/
theorem has_eq_false_iff : (config.batchOf elements).has target = false ↔
    ∀ self ∈ instancesOf elements, self.id ≠ target := by
  rw [← Bool.not_eq_true, Batch.has_iff]
  push Not
  rfl

/-- An identifier is seen on no other element if it is one of an instance whenever an element has
it. -/
theorem not_mem_otherIds_iff :
    target ∉ (elements.filter fun element => !element.hasInstanceId).map Element.id ↔
      ∀ element ∈ elements, element.id = target → target.kind = .inst := by
  simp only [List.mem_map, List.mem_filter, Element.hasInstanceId, Bool.not_eq_true',
    decide_eq_false_iff_not]
  constructor
  · intro h element helement hid
    by_contra hkind
    exact h ⟨element, ⟨helement, hid ▸ hkind⟩, hid⟩
  · rintro h ⟨element, ⟨helement, hkind⟩, hid⟩
    exact hkind (hid ▸ h element helement hid)

/-- An identifier is seen nowhere if it is absent or overlooked. -/
theorem unseen_iff :
    ((∀ self ∈ instancesOf elements, self.id ≠ target) ∧
      ∀ element ∈ elements, element.id = target → target.kind = .inst) ↔
      AbsentFrom elements target ∨ OverlookedAmong elements target := by
  constructor
  · rintro ⟨hinstances, hkind⟩
    by_cases habsent : AbsentFrom elements target
    · exact .inl habsent
    · -- Some element has the identifier, and it is no instance.
      unfold AbsentFrom at habsent
      push Not at habsent
      obtain ⟨element, helement, hid⟩ := habsent
      cases element with
      | ofType definition =>
        exact .inr ⟨hkind _ helement hid, ⟨definition, helement, hid⟩, hinstances⟩
      | ofInstance self => exact absurd hid (hinstances self (mem_instancesOf_iff.2 helement))
  · rintro (habsent | ⟨hkind, -, hinstances⟩)
    · exact ⟨fun self hself => habsent _ (mem_instancesOf_iff.1 hself),
        fun element helement hid => absurd hid (habsent element helement)⟩
    · exact ⟨hinstances, fun _ _ _ => hkind⟩

/-! ## What is reported -/

/-- What is sought, and absent or overlooked, is reported missing. -/
theorem mem_missingTargets_iff : target ∈ (config.rename elements).2.missingTargets ↔
    config.Seeks elements target ∧
      (AbsentFrom elements target ∨ OverlookedAmong elements target) := by
  change target ∈ ((config.batchOf elements).missingTargets
    (config.batchOf elements).plan elements).toList ↔ _
  rw [Std.ExtTreeSet.mem_toList, Batch.missingTargets, Std.ExtTreeSet.mem_ofList,
    List.contains_iff_mem, List.mem_filter, ← exists_mem_plan_order_iff, ← unseen_iff,
    ← @has_eq_false_iff config, ← not_mem_otherIds_iff]
  simp only [List.mem_flatMap, List.mem_map, Bool.and_eq_true, Bool.not_eq_true',
    List.contains_eq_mem, decide_eq_false_iff_not]

/-- Under valid rules naming succeeds. What is sought, and absent or overlooked, is reported
missing, in ascending order; so the report lists what is sought and absent exactly if nothing that
is sought is overlooked. -/
theorem resolve_reportsMissing_iff (valid : config.check = .ok ()) (elements : List Element) :
    ∃ (after : List Element) (report : NamingReport),
      config.resolve elements = .ok (after, report) ∧
      report.missingTargets.Pairwise (fun a b => compare a b = .lt) ∧
      (∀ target, target ∈ report.missingTargets ↔ config.Seeks elements target ∧
        (AbsentFrom elements target ∨ OverlookedAmong elements target)) ∧
      (config.ReportsMissing elements report.missingTargets ↔
        ∀ target, config.Seeks elements target → ¬ OverlookedAmong elements target) := by
  have hascending : (config.rename elements).2.missingTargets.Pairwise
      fun a b => compare a b = .lt :=
    ((config.batchOf elements).missingTargets
      (config.batchOf elements).plan elements).ordered_toList
  refine ⟨_, _, resolve_eq_ok valid elements, hascending, fun _ => mem_missingTargets_iff, ?_⟩
  constructor
  · rintro reports target hseeks hoverlooked
    -- What is overlooked is listed, but it is not absent.
    have hlisted := mem_missingTargets_iff.2 ⟨hseeks, .inr hoverlooked⟩
    obtain ⟨-, ⟨definition, hdefinition, hid⟩, -⟩ := hoverlooked
    exact ((reports.mem_iff target).1 hlisted).2 _ hdefinition hid
  · intro hseen
    refine ⟨hascending, fun target => mem_missingTargets_iff.trans (and_congr_right ?_)⟩
    exact fun hseeks => or_iff_left (hseen target hseeks)

/-- An instance that is named after another one. -/
def seeker : Instance :=
  .declare "a" "t" "b" [("n", .reference (.ofInstance "a" "u" "x") none)]

/-- An instance that is named after another one, in front of type definitions. -/
def seekerBefore (definitions : List TypeDefinition) : List Element :=
  .ofInstance seeker :: definitions.map .ofType

/-- In front of type definitions there is no other instance. -/
theorem instancesOf_seekerBefore (definitions : List TypeDefinition) :
    instancesOf (seekerBefore definitions) = [seeker] := by
  have hdefinitions : instancesOf (definitions.map .ofType) = [] :=
    List.filterMap_eq_nil_iff.2 fun element helement => by
      obtain ⟨definition, -, rfl⟩ := List.mem_map.1 helement
      rfl
  rw [← hdefinitions]
  rfl

/-- Whatever the type definitions are, the other instance is sought. -/
theorem seeks_seekerBefore (definitions : List TypeDefinition) :
    fieldRules.Seeks (seekerBefore definitions) (.ofInstance "a" "u" "x") := by
  have hbatch : fieldRules.batchOf (seekerBefore definitions) = ⟨fieldRules, [seeker]⟩ := by
    rw [batchOf, instancesOf_seekerBefore]
  have hseeker : seeker ∈ instancesOf (seekerBefore definitions) :=
    mem_instancesOf_iff.2 List.mem_cons_self
  have hshared : ¬ SharedAmong (seekerBefore definitions) seeker.id := by
    rw [← @isShared_iff fieldRules, hbatch]
    decide
  have hcycle : ¬ fieldRules.OnCycle (seekerBefore definitions) seeker := by
    rw [← mem_plan_cyclic_iff hseeker, hbatch]
    decide +kernel
  refine ⟨seeker, ⟨hseeker, hshared, by decide⟩, hcycle, ?_⟩
  exact @Instance.RefersInto.field _ _ ⟨true, "n"⟩ (.ofInstance "a" "u" "x") none
    List.mem_cons_self rfl

/-- A type definition with its own identifier does not hide that the other instance is absent. -/
theorem resolve_reportsMissing_iff_absent :
    fieldRules.check = .ok () ∧
      ∃ (after : List Element) (report : NamingReport),
        fieldRules.resolve (seekerBefore [.declare "a" "u"]) = .ok (after, report) ∧
        fieldRules.ReportsMissing (seekerBefore [.declare "a" "u"]) report.missingTargets ∧
        ElementId.ofInstance "a" "u" "x" ∈ report.missingTargets := by
  have valid : fieldRules.check = .ok () := by decide
  obtain ⟨after, report, hresolve, -, -, hiff⟩ :=
    resolve_reportsMissing_iff valid (seekerBefore [.declare "a" "u"])
  have reports := hiff.2 <| by
    rintro target - ⟨hkind, ⟨definition, hdefinition, rfl⟩, -⟩
    -- The only type definition has no identifier of an instance.
    obtain rfl : definition = .declare "a" "u" := by simpa [seekerBefore] using hdefinition
    cases hkind
  refine ⟨valid, after, report, hresolve, reports, (reports.mem_iff _).2 ⟨?_, ?_⟩⟩
  · exact seeks_seekerBefore _
  · intro element helement
    obtain rfl | rfl : element = .ofInstance seeker ∨ element = .ofType (.declare "a" "u") := by
      simpa [seekerBefore] using helement
    · decide
    · decide

/-- A type definition with the identifier that is sought is there, but the identifier is reported
missing. -/
theorem not_reportsMissing_overlooked :
    fieldRules.check = .ok () ∧
      ∃ (after : List Element) (report : NamingReport),
        fieldRules.resolve (seekerBefore [⟨.ofInstance "a" "u" "x", [], []⟩]) =
          .ok (after, report) ∧
        ¬ fieldRules.ReportsMissing (seekerBefore [⟨.ofInstance "a" "u" "x", [], []⟩])
          report.missingTargets := by
  have valid : fieldRules.check = .ok () := by decide
  refine ⟨valid, _, _, resolve_eq_ok valid _, fun reports => ?_⟩
  have hoverlooked : OverlookedAmong (seekerBefore [⟨.ofInstance "a" "u" "x", [], []⟩])
      (.ofInstance "a" "u" "x") := by
    refine ⟨rfl, ⟨_, .tail _ List.mem_cons_self, rfl⟩, ?_⟩
    rw [instancesOf_seekerBefore]
    decide
  have hlisted := mem_missingTargets_iff.2 ⟨seeks_seekerBefore _, .inr hoverlooked⟩
  exact ((reports.mem_iff _).1 hlisted).2 _ (.tail _ List.mem_cons_self) rfl

end NamingConfig

end ElementCatalog
