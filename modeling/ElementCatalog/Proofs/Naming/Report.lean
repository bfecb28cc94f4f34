import ElementCatalog.Proofs.Naming.FinalNames
import ElementCatalog.Proofs.Naming.Frame

/-!
# The naming report

The report of a run is exact: it lists the renamed instances with what they were and are called, the
identifiers that are shared, and the instances on cycles, neither more nor less, and no instance in
two of its lists (`NamingConfig.resolve_reports`).

## Main definitions

* `NamingConfig.IsNamed`: an instance that is named at all, with an identifier of its own;
* `NamingConfig.NeedsName`: the name of one such instance is composed of that of another;
* `NamingConfig.OnCycle`: the name of an instance is in the end composed of itself;
* `NamingConfig.Reports`: what is said of a run by its report.
-/

namespace ElementCatalog

/-- Two positions hold instances with an identifier. -/
def SharedAmong (elements : List Element) (id : ElementId) : Prop :=
  ∃ (i j : Nat) (a b : Instance), i ≠ j ∧ elements[i]? = some (.ofInstance a) ∧
    elements[j]? = some (.ofInstance b) ∧ a.id = id ∧ b.id = id

/-- Under the rules, an id field of the instance or its first parent refers to an element or to
something below it. -/
inductive Instance.RefersInto (rules : NamingRules) (self : Instance) : ElementId → Prop
  /-- An id field holds the reference, whether it is declared to or not. -/
  | field {field : IdField} {target : ElementId} {snapshot : Option Value}
      (mem : field ∈ rules.idFields)
      (held : ValueMap.find? self.value field.path = some (.reference target snapshot)) :
      RefersInto rules self target.topLevel.1
  /-- The rules extend the parent, and the reference is that to the first one. -/
  | parent {parent : Reference} (extended : rules.extendsParent = true)
      (first : self.parents.head? = some parent) : RefersInto rules self parent.topTarget

namespace NamingConfig

variable {config : NamingConfig} {elements : List Element}

/-- An instance is named if it has an identifier of its own, and the rules of its type depend on
other instances. -/
def IsNamed (config : NamingConfig) (elements : List Element) (self : Instance) : Prop :=
  self ∈ instancesOf elements ∧ ¬ SharedAmong elements self.id ∧
    config.isNameable self.typeName = true

/-- The name of one instance that is named needs the name of another one. -/
def NeedsName (config : NamingConfig) (elements : List Element) (self other : Instance) : Prop :=
  config.IsNamed elements self ∧ config.IsNamed elements other ∧
    self.RefersInto (config.rulesFor self.typeName) other.id

/-- The name of an instance needs itself, at once or through others. -/
def OnCycle (config : NamingConfig) (elements : List Element) (self : Instance) : Prop :=
  Relation.TransGen (config.NeedsName elements) self self

/-- The identifiers of an instance before and after, if they differ. -/
def renamedPair : Element × Element → Option (ElementId × ElementId)
  | (.ofInstance self, .ofInstance ended) =>
    if ended.id = self.id then none else some (self.id, ended.id)
  | _ => none

open scoped Classical in
/-- A report says exactly what happened to elements that became others. -/
structure Reports (config : NamingConfig) (elements after : List Element) (report : NamingReport) :
    Prop where
  /-- Each element has become one. -/
  length_eq : after.length = elements.length
  /-- The renamed instances are listed in their order. -/
  renamed_eq : report.renamed = (elements.zip after).filterMap renamedPair
  /-- No identifier is given up twice. -/
  nodup_old : (report.renamed.map Prod.fst).Nodup
  /-- No identifier is given twice. -/
  nodup_new : (report.renamed.map Prod.snd).Nodup
  /-- The shared identifiers are listed in ascending order, each once. -/
  duplicates_ascending : report.duplicates.Pairwise fun a b => compare a b = .lt
  /-- The shared identifiers are listed, and no others. -/
  mem_duplicates_iff : ∀ id, id ∈ report.duplicates ↔ SharedAmong elements id
  /-- The instances on cycles are listed in their order. -/
  cyclic_eq : report.cyclic =
    ((instancesOf elements).filter fun self => config.OnCycle elements self).map Instance.id
  /-- Only instances that are named and not on cycles are suppressed. -/
  suppressed_named : ∀ id ∈ report.suppressed, ∃ self, self.id = id ∧
    config.IsNamed elements self ∧ ¬ config.OnCycle elements self
  /-- No instance is in two lists. -/
  disjoint : [report.renamed.map Prod.fst, report.suppressed, report.cyclic,
    report.duplicates].Pairwise List.Disjoint
  /-- All instances that are not renamed for one of the reasons keep their identifier. -/
  keeps : ∀ (k : Nat) (self : Instance), elements[k]? = some (.ofInstance self) →
    self.id ∈ report.suppressed ∨ self.id ∈ report.cyclic ∨ self.id ∈ report.duplicates ∨
      config.isNameable self.typeName = false →
    ∃ ended : Instance, after[k]? = some (.ofInstance ended) ∧ ended.id = self.id

/-! ## Shared identifiers -/

/-- An identifier is shared if two positions hold instances with it. -/
theorem isShared_iff (id : ElementId) :
    (config.batchOf elements).isShared id = true ↔ SharedAmong elements id := by
  constructor
  · intro h
    by_contra hnot
    obtain ⟨self, hself, hid⟩ :=
      List.countP_pos_iff.1 (Nat.lt_trans Nat.zero_lt_one (of_decide_eq_true h))
    obtain rfl : self.id = id := by simpa using hid
    obtain ⟨i, hi⟩ := exists_getElem?_of_mem_instancesOf hself
    -- No other position holds an instance with the identifier.
    have hunshared : (config.batchOf elements).isShared self.id = false :=
      isShared_eq_false fun j other hj hid =>
        by_contra fun hne => hnot ⟨j, i, other, self, hne, hj, hi, hid, rfl⟩
    rw [hunshared] at h
    cases h
  · rintro ⟨i, j, a, b, hij, ha, hb, rfl, hid⟩
    exact isShared_of_getElem? config hij ha hb hid.symm

/-- The shared identifiers are reported. -/
theorem mem_duplicates_iff (id : ElementId) :
    id ∈ (config.rename elements).2.duplicates ↔ SharedAmong elements id := by
  change id ∈ (config.batchOf elements).sharedIds.toList ↔ _
  rw [Std.ExtTreeSet.mem_toList, Batch.sharedIds, Std.ExtTreeSet.mem_ofList, List.contains_iff_mem,
    List.mem_filter, isShared_iff]
  refine and_iff_right_of_imp ?_
  rintro ⟨i, -, self, -, -, hi, -, hid, -⟩
  exact List.mem_map.2 ⟨self, mem_instancesOf_of_getElem? hi, hid⟩

/-! ## Cycles -/

/-- The instances that are named are the candidates. -/
theorem mem_candidates_iff {self : Instance} :
    self ∈ (config.batchOf elements).candidates ↔ config.IsNamed elements self := by
  rw [Batch.mem_candidates_iff, ← Bool.not_eq_true, isShared_iff]
  rfl

/-- The references that a name depends on are those of id fields and the one to the first parent. -/
theorem exists_mem_namingReferences_iff {self : Instance} {id : ElementId} :
    (∃ reference ∈ (config.batchOf elements).namingReferences self, reference.topTarget = id) ↔
      self.RefersInto (config.rulesFor self.typeName) id := by
  simp only [Batch.namingReferences, Composition.references, Composition.fieldValues,
    List.mem_append, List.mem_filterMap, List.mem_map, Option.mem_toList]
  constructor
  · rintro ⟨reference, hreference | hreference, rfl⟩
    · obtain ⟨_, ⟨field, hfield, rfl⟩, hvalue⟩ := hreference
      obtain ⟨value, hheld, hvalue⟩ := Option.bind_eq_some_iff.1 hvalue
      cases value with
      | reference target snapshot =>
        cases hvalue
        exact .field hfield hheld
      | _ => cases hvalue
    · unfold Composition.parent? at hreference
      split at hreference
      · next hextended => exact .parent hextended hreference
      · cases hreference
  · intro h
    cases h with
    | @field field target snapshot mem held =>
      exact ⟨⟨target, snapshot⟩, .inl ⟨_, ⟨field, mem, rfl⟩, by rw [held]; rfl⟩, rfl⟩
    | @parent parent extended first =>
      exact ⟨parent, .inr ((if_pos extended).trans first), rfl⟩

/-- What the plan has a named instance need is what it does need. -/
theorem mem_needs_iff {self : Instance} (hself : config.IsNamed elements self) {id : ElementId} :
    id ∈ (config.batchOf elements).needs self.id ↔
      ∃ other, other.id = id ∧ config.NeedsName elements self other := by
  rw [Batch.mem_needs_iff (mem_candidates_iff.2 hself), exists_mem_namingReferences_iff]
  constructor
  · rintro ⟨hid, hrefers⟩
    obtain ⟨other, hother, rfl⟩ := List.mem_map.1 hid
    exact ⟨other, rfl, hself, mem_candidates_iff.1 hother, hrefers⟩
  · rintro ⟨other, rfl, -, hother, hrefers⟩
    exact ⟨List.mem_map_of_mem (mem_candidates_iff.2 hother), hrefers⟩

/-- What the plan has a named instance need in the end is what it does need in the end. -/
theorem needsInTheEnd_iff {self : Instance} (hself : config.IsNamed elements self)
    {id : ElementId} :
    DependencyOrder.NeedsInTheEnd (config.batchOf elements).needs self.id id ↔
      ∃ other, other.id = id ∧ Relation.TransGen (config.NeedsName elements) self other := by
  constructor
  · intro h
    induction h with
    | single hneeds =>
      obtain ⟨other, hid, hneeds⟩ := (mem_needs_iff hself).1 hneeds
      exact ⟨other, hid, .single hneeds⟩
    | tail _ hneeds ih =>
      obtain ⟨via, rfl, hvia⟩ := ih
      -- What is needed on the way is named itself.
      obtain ⟨before, -, hlast⟩ := Relation.TransGen.tail'_iff.1 hvia
      obtain ⟨other, hid, hneeds⟩ := (mem_needs_iff hlast.2.1).1 hneeds
      exact ⟨other, hid, hvia.tail hneeds⟩
  · rintro ⟨other, rfl, h⟩
    exact h.lift Instance.id fun a b hab => (mem_needs_iff hab.1).2 ⟨b, rfl, hab⟩

/-- An instance lies on a cycle exactly if the plan has it among the cyclic ones. -/
theorem mem_plan_cyclic_iff {self : Instance} (hself : self ∈ instancesOf elements) :
    self.id ∈ (config.batchOf elements).plan.cyclic ↔ config.OnCycle elements self := by
  rw [Batch.mem_plan_cyclic_iff]
  constructor
  · rintro ⟨hcandidate, hcycle⟩
    obtain ⟨other, hother, hid⟩ := List.mem_map.1 hcandidate
    -- A candidate shares its identifier with no other instance.
    obtain rfl : self = other := Batch.eq_of_mem_candidates hother hself hid.symm
    obtain ⟨back, hback, hcycle⟩ := (needsInTheEnd_iff (mem_candidates_iff.1 hother)).1 hcycle
    obtain ⟨before, -, hlast⟩ := Relation.TransGen.tail'_iff.1 hcycle
    obtain rfl : back = self := Batch.eq_of_mem_candidates hother hlast.2.1.1 hback
    exact hcycle
  · intro hcycle
    obtain ⟨other, hneeds, -⟩ := Relation.TransGen.head'_iff.1 hcycle
    exact ⟨List.mem_map_of_mem (mem_candidates_iff.2 hneeds.1),
      (needsInTheEnd_iff hneeds.1).2 ⟨self, rfl, hcycle⟩⟩

/-- The instances that names are computed for are those that are named and not on a cycle. -/
theorem mem_plan_order_iff {self : Instance} :
    self ∈ (config.batchOf elements).plan.order ↔
      config.IsNamed elements self ∧ ¬ config.OnCycle elements self := by
  rw [Batch.mem_plan_order_iff, mem_candidates_iff]
  exact and_congr_right fun hnamed => not_congr (mem_plan_cyclic_iff hnamed.1)

open scoped Classical in
/-- The instances on cycles are reported in their order. -/
theorem cyclic_eq : (config.rename elements).2.cyclic =
    ((instancesOf elements).filter fun self => config.OnCycle elements self).map Instance.id := by
  change ((instancesOf elements).map Instance.id).filter
    (· ∈ (config.batchOf elements).plan.cyclic) = _
  rw [List.filter_map]
  refine congrArg (List.map Instance.id) (List.filter_congr fun self hself => ?_)
  exact decide_eq_decide.2 (mem_plan_cyclic_iff hself)

/-- Only instances that are named and not on cycles are suppressed. -/
theorem exists_isNamed_of_mem_suppressed {id : ElementId}
    (h : id ∈ (config.rename elements).2.suppressed) :
    ∃ self, self.id = id ∧ config.IsNamed elements self ∧ ¬ config.OnCycle elements self := by
  have hheld : id ∈ (config.batchOf elements).plan.held := of_decide_eq_true (List.mem_filter.1 h).2
  obtain ⟨self, hself, rfl⟩ :=
    List.mem_map.1 ((Batch.settles_plan (config.batchOf elements)).subset_order hheld)
  exact ⟨self, rfl, mem_plan_order_iff.1 hself⟩

/-! ## Renamed instances -/

/-- The renamed instances are reported in their order. -/
theorem renamed_eq : (config.rename elements).2.renamed =
    (elements.zip (config.rename elements).1).filterMap renamedPair := by
  change ((config.batchOf elements).plan.renames (instancesOf elements)).map _ = _
  rw [rename_fst, ← List.map_prod_left_eq_zip, List.filterMap_map, NamingPlan.renames,
    List.map_filterMap, instancesOf, List.filterMap_filterMap]
  refine List.filterMap_congr fun element helement => ?_
  cases element with
  | ofType definition =>
    rw [Function.comp_apply, Rename.follow_ofType]
    rfl
  | ofInstance self =>
    obtain ⟨ended, hended, hid, -⟩ := exists_ended_ofInstance config
      (List.mem_filterMap.2 ⟨_, helement, rfl⟩)
    rw [Function.comp_apply, hended, renamedPair, hid]
    simp only [Element.asInstance?, Option.bind_some]
    split <;> rfl

/-- What is renamed is named, not held and not on a cycle. -/
theorem isNamed_of_finalId_ne {self : Instance} (hself : self ∈ instancesOf elements)
    (hne : (config.batchOf elements).plan.names.finalId self ≠ self.id) :
    config.IsNamed elements self ∧ self.id ∉ (config.batchOf elements).plan.held ∧
      self.id ∉ (config.batchOf elements).plan.cyclic := by
  have hnamed : (config.batchOf elements).plan.names[self.id]?.isSome :=
    Option.isSome_iff_ne_none.2 fun hnone => hne (NameTable.finalId_eq_self hnone)
  obtain ⟨hid, hheld⟩ := Batch.isSome_getElem?_plan_names_iff.1 hnamed
  have horder := Batch.mem_plan_order_of_id_mem hself hid
  exact ⟨mem_candidates_iff.1 (Batch.plan_order_subset horder), hheld,
    (Batch.mem_plan_order_iff.1 horder).2⟩

/-- The reported old identifiers are those of instances whose final identifier is another one. -/
theorem exists_finalId_ne_of_mem_renamed {id : ElementId}
    (h : id ∈ (config.rename elements).2.renamed.map Prod.fst) :
    ∃ self ∈ instancesOf elements, self.id = id ∧
      (config.batchOf elements).plan.names.finalId self ≠ self.id := by
  obtain ⟨pair, hpair, rfl⟩ := List.mem_map.1 h
  obtain ⟨rename, hrename, rfl⟩ := List.mem_map.1 hpair
  obtain ⟨self, hself, hne, rfl⟩ := NamingPlan.mem_renames_iff.1 hrename
  exact ⟨self, hself, rfl, hne⟩

/-- No identifier is given up twice. -/
theorem nodup_old : ((config.rename elements).2.renamed.map Prod.fst).Nodup := by
  have hold : (config.rename elements).2.renamed.map Prod.fst =
      (config.renamesOf elements).map Rename.old := List.map_map
  rw [hold]
  exact (sound_renamesOf config elements).nodup

/-- No identifier is given twice. -/
theorem nodup_new : ((config.rename elements).2.renamed.map Prod.snd).Nodup := by
  have hnew : (config.rename elements).2.renamed.map Prod.snd =
      (config.renamesOf elements).map Rename.new := List.map_map
  rw [hnew]
  -- Instances with the same final identifier had the same one before.
  have hold := List.pairwise_map.1 (sound_renamesOf config elements).nodup
  refine List.pairwise_map.2 (hold.imp_of_mem fun {a b} ha hb hne heq => hne ?_)
  obtain ⟨self, hself, -, rfl⟩ := NamingPlan.mem_renames_iff.1 ha
  obtain ⟨other, hother, -, rfl⟩ := NamingPlan.mem_renames_iff.1 hb
  exact (Batch.finalId_plan_names_eq_iff hself hother).1 heq

/-! ## The report as a whole -/

/-- A reported instance on a cycle is among the cyclic ones of the plan. -/
theorem mem_plan_cyclic_of_mem_cyclic {id : ElementId}
    (h : id ∈ (config.rename elements).2.cyclic) :
    id ∈ (config.batchOf elements).plan.cyclic :=
  of_decide_eq_true (List.mem_filter.1 h).2

/-- A suppressed instance is among those that the plan holds. -/
theorem mem_plan_held_of_mem_suppressed {id : ElementId}
    (h : id ∈ (config.rename elements).2.suppressed) :
    id ∈ (config.batchOf elements).plan.held :=
  of_decide_eq_true (List.mem_filter.1 h).2

/-- The lists of a report have no identifier in common. -/
theorem pairwise_disjoint : [(config.rename elements).2.renamed.map Prod.fst,
    (config.rename elements).2.suppressed, (config.rename elements).2.cyclic,
    (config.rename elements).2.duplicates].Pairwise List.Disjoint := by
  -- Renamed instances and those on cycles share no identifier, and the plan holds no renamed one.
  have hrenamed {id : ElementId} (h : id ∈ (config.rename elements).2.renamed.map Prod.fst) :
      ¬ SharedAmong elements id ∧ id ∉ (config.batchOf elements).plan.held ∧
        id ∉ (config.batchOf elements).plan.cyclic := by
    obtain ⟨self, hself, rfl, hne⟩ := exists_finalId_ne_of_mem_renamed h
    obtain ⟨hnamed, hothers⟩ := isNamed_of_finalId_ne hself hne
    exact ⟨hnamed.2.1, hothers⟩
  have hcyclic {id : ElementId} (h : id ∈ (config.rename elements).2.cyclic) :
      ¬ SharedAmong elements id := by
    obtain ⟨hcandidate, -⟩ := Batch.mem_plan_cyclic_iff.1 (mem_plan_cyclic_of_mem_cyclic h)
    obtain ⟨self, hself, rfl⟩ := List.mem_map.1 hcandidate
    exact (mem_candidates_iff.1 hself).2.1
  simp only [List.pairwise_cons, List.mem_cons, List.not_mem_nil, or_false, forall_eq_or_imp,
    forall_eq, IsEmpty.forall_iff, implies_true, List.Pairwise.nil, and_true]
  refine ⟨⟨?_, ?_, ?_⟩, ⟨?_, ?_⟩, ?_⟩
  · exact fun id h h' => (hrenamed h).2.1 (mem_plan_held_of_mem_suppressed h')
  · exact fun id h h' => (hrenamed h).2.2 (mem_plan_cyclic_of_mem_cyclic h')
  · exact fun id h h' => (hrenamed h).1 ((mem_duplicates_iff id).1 h')
  · intro id h h'
    obtain ⟨self, rfl, hnamed, hcycle⟩ := exists_isNamed_of_mem_suppressed h
    exact hcycle ((mem_plan_cyclic_iff hnamed.1).1 (mem_plan_cyclic_of_mem_cyclic h'))
  · intro id h h'
    obtain ⟨self, rfl, hnamed, -⟩ := exists_isNamed_of_mem_suppressed h
    exact hnamed.2.1 ((mem_duplicates_iff self.id).1 h')
  · exact fun id h h' => hcyclic h ((mem_duplicates_iff id).1 h')

/-- An instance that is reported but not as renamed, or whose type is not renamed, keeps its
identifier. -/
theorem finalId_eq_self {self : Instance} (hself : self ∈ instancesOf elements)
    (h : self.id ∈ (config.rename elements).2.suppressed ∨
      self.id ∈ (config.rename elements).2.cyclic ∨
      self.id ∈ (config.rename elements).2.duplicates ∨
      config.isNameable self.typeName = false) :
    (config.batchOf elements).plan.names.finalId self = self.id := by
  by_contra hne
  obtain ⟨hnamed, hheld, hcyclic⟩ := isNamed_of_finalId_ne hself hne
  rcases h with h | h | h | h
  · exact hheld (mem_plan_held_of_mem_suppressed h)
  · exact hcyclic (mem_plan_cyclic_of_mem_cyclic h)
  · exact hnamed.2.1 ((mem_duplicates_iff self.id).1 h)
  · exact Bool.false_ne_true (h.symm.trans hnamed.2.2)

/-- Under valid rules naming succeeds, and the report says exactly what happened. -/
theorem resolve_reports (valid : config.check = .ok ()) (elements : List Element) :
    ∃ (after : List Element) (report : NamingReport),
      config.resolve elements = .ok (after, report) ∧ config.Reports elements after report := by
  refine ⟨(config.rename elements).1, (config.rename elements).2, resolve_eq_ok valid elements, ?_⟩
  exact {
    length_eq := by rw [rename_fst, List.length_map]
    renamed_eq := renamed_eq
    nodup_old := nodup_old
    nodup_new := nodup_new
    duplicates_ascending := (config.batchOf elements).sharedIds.ordered_toList
    mem_duplicates_iff := mem_duplicates_iff
    cyclic_eq := cyclic_eq
    suppressed_named := fun id => exists_isNamed_of_mem_suppressed
    disjoint := pairwise_disjoint
    keeps := fun k self hself hreported => by
      obtain ⟨ended, hended, hid⟩ := getElem?_rename_ofInstance config hself
      exact ⟨ended, hended,
        hid.trans (finalId_eq_self (mem_instancesOf_of_getElem? hself) hreported)⟩ }

/-- The identifier that two instances share is reported, and neither of them is renamed. -/
theorem resolve_reports_chain :
    fieldRules.check = .ok () ∧
      ∃ (after : List Element) (report : NamingReport),
        fieldRules.resolve (chain "S" "S") = .ok (after, report) ∧
        fieldRules.Reports (chain "S" "S") after report ∧
        ElementId.ofInstance "a" "s" "S" ∈ report.duplicates ∧
        ElementId.ofInstance "a" "s" "S" ∉ report.renamed.map Prod.fst := by
  have valid : fieldRules.check = .ok () := by decide
  obtain ⟨after, report, hresolve, hreports⟩ := resolve_reports valid (chain "S" "S")
  have hshared : ElementId.ofInstance "a" "s" "S" ∈ report.duplicates :=
    (hreports.mem_duplicates_iff _).2 ⟨2, 3, _, _, by decide, rfl, rfl, rfl, rfl⟩
  have hdisjoint : (report.renamed.map Prod.fst).Disjoint report.duplicates :=
    (List.pairwise_cons.1 hreports.disjoint).1 _ (by simp)
  exact ⟨valid, after, report, hresolve, hreports, hshared, fun h => hdisjoint h hshared⟩

end NamingConfig

end ElementCatalog
