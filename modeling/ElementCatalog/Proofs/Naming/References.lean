import ElementCatalog.Proofs.Naming.Identifiers
import ElementCatalog.Proofs.Naming.Interference

/-!
# References to renamed instances

After naming, a reference to a renamed instance or to something below it should lead to the same
under the new identifier, and the report should count every such reference once. This is so exactly
if no instance interferes with the references of another one (`NamingConfig.resolve_follows_iff`),
and in particular if no two instances share an identifier.
-/

namespace ElementCatalog

/-- The renames that a report lists. -/
def NamingReport.renames (report : NamingReport) : List Rename :=
  report.renamed.map fun (old, new) => ⟨old, new⟩

/-- References follow the renames of a report: each reference to what is renamed, or to something
below it, has the new target at its place after naming, and is counted once. -/
structure FollowsRenames (elements after : List Element) (report : NamingReport) : Prop where
  /-- A reference to what is renamed is moved with its target, and keeps its snapshot. -/
  moves : ∀ (k : Nat) (self : Instance) (path : ValuePath) (reference : Reference)
    (rename : Rename), elements[k]? = some (.ofInstance self) →
    (path, reference) ∈ self.references → rename ∈ report.renames →
    reference.topTarget = rename.old →
    ∃ (ended : Instance) (moved : ElementId), after[k]? = some (.ofInstance ended) ∧
      reference.target.rebase rename.old rename.new = some moved ∧
      (path, ⟨moved, reference.snapshot⟩) ∈ ended.references
  /-- The references to what is renamed are counted. -/
  counts : report.redirectedReferences =
    ((instancesOf elements).flatMap Instance.references).countP fun placed =>
      placed.2.topTarget ∈ report.renames.map Rename.old

/-! ## The renames of naming -/

namespace NamingPlan

/-- What is renamed are the instances whose final identifier is another one. -/
theorem map_old_renames (plan : NamingPlan) (instances : List Instance) :
    (plan.renames instances).map Rename.old =
      (instances.filter fun self => plan.names.finalId self ≠ self.id).map Instance.id := by
  induction instances with
  | nil => rfl
  | cons self rest ih =>
    rw [renames] at ih ⊢
    by_cases h : plan.names.finalId self = self.id <;> simp [h, ih]

end NamingPlan

namespace NamingConfig

variable {config : NamingConfig} {elements : List Element}

/-- An instance that is renamed is a candidate, and its new identifier is made of its new name. -/
theorem mem_candidates_of_finalId_ne {self : Instance} (hself : self ∈ instancesOf elements)
    (h : (config.batchOf elements).plan.names.finalId self ≠ self.id) :
    self ∈ (config.batchOf elements).candidates ∧
      ∃ name, (config.batchOf elements).plan.names.finalId self =
        .ofInstance self.id.adapter self.id.typeName name := by
  cases hname : (config.batchOf elements).plan.names[self.id]? with
  | none => exact absurd (NameTable.finalId_eq_self hname) h
  | some name =>
    obtain ⟨hid, -⟩ := Batch.isSome_getElem?_plan_names_iff.1 (hname ▸ Option.isSome_some)
    obtain ⟨other, hother, heq⟩ := List.mem_map.1 hid
    have hcandidate := Batch.plan_order_subset hother
    obtain rfl : self = other := Batch.eq_of_mem_candidates hcandidate hself heq.symm
    exact ⟨hcandidate, name, NameTable.finalId_eq_idWith hname⟩

/-- Naming makes sound renames. -/
theorem sound_renamesOf (config : NamingConfig) (elements : List Element) :
    Rename.Sound (config.renamesOf elements) where
  nodup := by
    -- What is renamed are candidates, and these have distinct identifiers.
    have hfilter : (instancesOf elements).filter (fun self =>
          (config.batchOf elements).plan.names.finalId self ≠ self.id) =
        (config.batchOf elements).candidates.filter fun self =>
          (config.batchOf elements).plan.names.finalId self ≠ self.id := by
      rw [Batch.candidates, List.filter_filter]
      refine List.filter_congr fun self hself => ?_
      by_cases hne : (config.batchOf elements).plan.names.finalId self = self.id
      · simp [hne]
      · simpa [hne] using (List.mem_filter.1 (mem_candidates_of_finalId_ne hself hne).1).2
    rw [renamesOf, NamingPlan.map_old_renames, hfilter]
    exact Batch.nodup_candidate_ids.sublist (List.filter_sublist.map _)
  new_eq rename hrename := by
    obtain ⟨self, hself, hne, rfl⟩ := NamingPlan.mem_renames_iff.1 hrename
    exact (mem_candidates_of_finalId_ne hself hne).2
  new_ne rename hrename := by
    obtain ⟨self, -, hne, rfl⟩ := NamingPlan.mem_renames_iff.1 hrename
    exact hne

/-- The steps of naming are those among all instances. -/
theorem stepsOf_eq : config.stepsOf elements =
    Rename.stepsAmong (config.renamesOf elements) (instancesOf elements) := by
  refine Rename.steps_build (fun rename hrename => ?_) _
  obtain ⟨self, hself, hne, rfl⟩ := NamingPlan.mem_renames_iff.1 hrename
  obtain ⟨-, -, hnameable⟩ := Batch.mem_candidates_iff.1 (mem_candidates_of_finalId_ne hself hne).1
  rw [Batch.nameableTargets, Std.ExtTreeSet.mem_ofList, List.contains_iff_mem]
  exact List.mem_map_of_mem (List.mem_filter.2 ⟨hself, hnameable⟩)

/-- A report lists the renames of naming. -/
theorem renames_rename_snd : (config.rename elements).2.renames = config.renamesOf elements := by
  simp only [rename, NamingReport.renames, List.map_map]
  exact List.map_id'' (fun _ => rfl) _

/-! ## How references are redirected -/

/-- The references that instances hold, each with the identifier of its instance. -/
def placesOf (instances : List Instance) : List (ElementId × ValuePath × Reference) :=
  instances.flatMap fun self => self.references.map (self.id, ·)

/-- Steps redirect references in elements as often as they redirect each reference. -/
theorem sum_follow_eq (steps : List (Rename × ReferenceSite))
    (wellFormed : ∀ self ∈ instancesOf elements, self.WellFormed) :
    (elements.map fun element => (Rename.follow steps element).2).sum =
      ((placesOf (instancesOf elements)).map fun place =>
        (Rename.followTarget place.1 place.2.1 steps place.2.2.target).2).sum := by
  induction elements with
  | nil => rfl
  | cons element rest ih =>
    cases element with
    | ofType definition =>
      rw [List.map_cons, List.sum_cons, ih wellFormed, Rename.follow_ofType, Nat.zero_add]
      rfl
    | ofInstance self =>
      obtain ⟨hself, hrest⟩ := List.forall_mem_cons.1 wellFormed
      obtain ⟨after, hfollow, -⟩ := Rename.follow_ofInstance hself steps
      rw [List.map_cons, List.sum_cons, ih hrest, hfollow]
      simp [placesOf, instancesOf, Element.asInstance?, Rename.followCount, Function.comp_def]

/-- How often the steps of naming redirect a reference. -/
def redirections (config : NamingConfig) (elements : List Element)
    (place : ElementId × ValuePath × Reference) : Nat :=
  (Rename.followTarget place.1 place.2.1 (config.stepsOf elements) place.2.2.target).2

/-- The report counts how often each reference is redirected. -/
theorem redirectedReferences_eq (wellFormed : ∀ self ∈ instancesOf elements, self.WellFormed) :
    (config.rename elements).2.redirectedReferences =
      ((placesOf (instancesOf elements)).map (config.redirections elements)).sum := by
  change (Rename.redirectAll _ _ elements).2 = _
  rw [Rename.redirectAll_eq]
  exact sum_follow_eq (config.stepsOf elements) wellFormed

/-- Naming leaves a reference at its place, with the target that the steps lead to. -/
theorem getElem?_rename_references (config : NamingConfig)
    (wellFormed : ∀ self ∈ instancesOf elements, self.WellFormed)
    {k : Nat} {self : Instance} (h : elements[k]? = some (.ofInstance self)) :
    ∃ ended, (config.rename elements).1[k]? = some (.ofInstance ended) ∧
      ended.references =
        self.references.map (Rename.followReference self.id (config.stepsOf elements)) := by
  obtain ⟨followed, hfollow, -, -, hreferences⟩ :=
    Rename.follow_ofInstance (wellFormed self (mem_instancesOf_of_getElem? h))
      (config.stepsOf elements)
  refine ⟨Rename.applyTo (config.renamesOf elements) followed, ?_, ?_⟩
  · rw [rename_fst, List.getElem?_map, h, Option.map_some, hfollow]
    rfl
  · rw [← hreferences, Rename.applyTo]
    split <;> rfl

/-- Whether a reference leads to what naming renames, or to something below it. -/
def leadsToRenamed (config : NamingConfig) (elements : List Element)
    (place : ElementId × ValuePath × Reference) : Bool :=
  place.2.2.topTarget ∈ (config.renamesOf elements).map Rename.old

/-- The references that lead to what is renamed are counted with the identifiers of their instances
or without them. -/
theorem countP_references_eq (instances : List Instance) :
    (instances.flatMap Instance.references).countP (fun placed =>
        placed.2.topTarget ∈ (config.renamesOf elements).map Rename.old) =
      (placesOf instances).countP (config.leadsToRenamed elements) := by
  have hplaces : instances.flatMap Instance.references = (placesOf instances).map Prod.snd := by
    simp [placesOf, List.map_flatMap, Function.comp_def]
  rw [hplaces, List.countP_map]
  rfl

/-- A reference that leads to what is renamed is redirected. -/
theorem redirections_pos {place : ElementId × ValuePath × Reference}
    (hplace : place ∈ placesOf (instancesOf elements))
    (hleads : config.leadsToRenamed elements place = true) :
    0 < config.redirections elements place := by
  obtain ⟨self, hself, hmem⟩ := List.mem_flatMap.1 hplace
  obtain ⟨⟨path, held⟩, hheld, rfl⟩ := List.mem_map.1 hmem
  obtain ⟨rename, hrename, htop⟩ := List.mem_map.1 (of_decide_eq_true hleads)
  rw [redirections, stepsOf_eq]
  exact Rename.followTarget_stepsAmong_pos hrename hself hheld htop.symm

/-- Without interference, references that lead to what is renamed are redirected once, and no
others. -/
theorem redirections_eq (wellFormed : ∀ self ∈ instancesOf elements, self.WellFormed)
    (h : ¬ Rename.Interferes (instancesOf elements) (config.renamesOf elements))
    {place : ElementId × ValuePath × Reference}
    (hplace : place ∈ placesOf (instancesOf elements)) :
    config.redirections elements place = if config.leadsToRenamed elements place then 1 else 0 := by
  obtain ⟨self, hself, hmem⟩ := List.mem_flatMap.1 hplace
  obtain ⟨⟨path, held⟩, hheld, rfl⟩ := List.mem_map.1 hmem
  rw [redirections, stepsOf_eq]
  split
  · next hleads =>
    obtain ⟨rename, hrename, htop⟩ := List.mem_map.1 (of_decide_eq_true hleads)
    obtain ⟨name, hnew⟩ := (sound_renamesOf config elements).new_eq rename hrename
    obtain ⟨moved, hmoved, -⟩ := Rename.exists_rebase hnew htop.symm
    rw [Rename.followTarget_stepsAmong_eq (sound_renamesOf config elements) wellFormed h hself hheld
      hrename htop.symm hmoved]
  · next hleads =>
    rw [Rename.followTarget_stepsAmong_eq_self fun hmem => hleads (decide_eq_true hmem)]

/-- Without interference references follow the renames. -/
theorem follows_of_not_interferes (wellFormed : ∀ self ∈ instancesOf elements, self.WellFormed)
    (h : ¬ Rename.Interferes (instancesOf elements) (config.renamesOf elements)) :
    FollowsRenames elements (config.rename elements).1 (config.rename elements).2 where
  moves k self path reference rename hk hreference hrename htop := by
    rw [renames_rename_snd] at hrename
    obtain ⟨ended, hended, hreferences⟩ := getElem?_rename_references config wellFormed hk
    obtain ⟨name, hnew⟩ := (sound_renamesOf config elements).new_eq rename hrename
    obtain ⟨moved, hmoved, -⟩ := Rename.exists_rebase hnew htop
    refine ⟨ended, moved, hended, hmoved, ?_⟩
    have honce := Rename.followTarget_stepsAmong_eq (sound_renamesOf config elements) wellFormed h
      (mem_instancesOf_of_getElem? hk) hreference hrename htop hmoved
    rw [hreferences, List.mem_map]
    exact ⟨(path, reference), hreference, by rw [Rename.followReference, stepsOf_eq, honce]⟩
  counts := by
    rw [redirectedReferences_eq wellFormed, renames_rename_snd, countP_references_eq]
    exact (countP_eq_sum fun place hplace => redirections_eq wellFormed h hplace).symm

/-- With interference too many redirected references are reported. -/
theorem countP_lt_redirectedReferences
    (wellFormed : ∀ self ∈ instancesOf elements, self.WellFormed)
    (h : Rename.Interferes (instancesOf elements) (config.renamesOf elements)) :
    (placesOf (instancesOf elements)).countP (config.leadsToRenamed elements) <
      (config.rename elements).2.redirectedReferences := by
  obtain ⟨self, hself, path, held, hheld, hmore⟩ :=
    h.exists_one_lt (sound_renamesOf config elements)
  have hplace : (self.id, path, held) ∈ placesOf (instancesOf elements) :=
    List.mem_flatMap.2 ⟨self, hself, List.mem_map_of_mem hheld⟩
  rw [redirectedReferences_eq wellFormed]
  refine countP_lt_sum (fun place => redirections_pos) hplace ?_
  rw [redirections, stepsOf_eq]
  exact hmore

/-- Under valid rules naming succeeds, and references follow the renames exactly if no instance
interferes with the references of another one. -/
theorem resolve_follows_iff (valid : config.check = .ok ()) (elements : List Element)
    (wellFormed : ∀ self ∈ instancesOf elements, self.WellFormed) :
    ∃ (after : List Element) (report : NamingReport),
      config.resolve elements = .ok (after, report) ∧
      (FollowsRenames elements after report ↔
        ¬ Rename.Interferes (instancesOf elements) report.renames) := by
  refine ⟨(config.rename elements).1, (config.rename elements).2, resolve_eq_ok valid elements, ?_⟩
  constructor
  · intro hfollows hinterferes
    rw [renames_rename_snd] at hinterferes
    -- Interference shows in the report: a reference is counted twice.
    have hless := countP_lt_redirectedReferences wellFormed hinterferes
    have hcounts := hfollows.counts
    rw [renames_rename_snd, countP_references_eq] at hcounts
    omega
  · intro h
    rw [renames_rename_snd] at h
    exact follows_of_not_interferes wellFormed h

/-- An instance with one well-formed value is well-formed. -/
theorem wellFormed_declare {adapter typeName name field : String} {value : Value}
    (h : value.WellFormed) : (Instance.declare adapter typeName name [(field, value)]).WellFormed
  | .value => by
    refine .map (List.nodup_singleton field) fun member hmember => ?_
    rw [List.mem_singleton.1 hmember]
    exact h
  | .annotations => .map List.nodup_nil fun member hmember => nomatch hmember

/-- Instances that are renamed from `A` to `B` and from `B` to `C`, and a reference to each of
them. -/
def chain (first second : String) : List Element :=
  [.ofInstance (.declare "a" "t" "A" [("n", .string "B")]),
    .ofInstance (.declare "a" "t" "B" [("n", .string "C")]),
    .ofInstance (.declare "a" "s" first [("r", .reference (.ofInstance "a" "t" "A") none)]),
    .ofInstance (.declare "a" "s" second [("r", .reference (.ofInstance "a" "t" "B") none)])]

/-- The instances of a chain are well-formed. -/
theorem wellFormed_chain (first second : String) :
    ∀ self ∈ instancesOf (chain first second), self.WellFormed := by
  intro self hself
  simp only [chain, instancesOf, List.filterMap_cons, Element.asInstance?, List.filterMap_nil,
    List.mem_cons, List.not_mem_nil, or_false] at hself
  rcases hself with rfl | rfl | rfl | rfl
  · exact wellFormed_declare .string
  · exact wellFormed_declare .string
  · exact wellFormed_declare (Value.wellFormed_ofTarget _)
  · exact wellFormed_declare (Value.wellFormed_ofTarget _)

/-- Instances with different identifiers do not interfere. -/
theorem resolve_follows_iff_apart :
    fieldRules.check = .ok () ∧
      (∀ self ∈ instancesOf (chain "S" "T"), self.WellFormed) ∧
      ∃ (after : List Element) (report : NamingReport),
        fieldRules.resolve (chain "S" "T") = .ok (after, report) ∧
        FollowsRenames (chain "S" "T") after report := by
  have valid : fieldRules.check = .ok () := by decide
  obtain ⟨after, report, hresolve, hiff⟩ :=
    resolve_follows_iff valid (chain "S" "T") (wellFormed_chain "S" "T")
  exact ⟨valid, wellFormed_chain "S" "T", after, report, hresolve,
    hiff.2 (Rename.not_interferes_of_nodup (by decide))⟩

/-- Of two instances with one identifier, the one with the reference to `A` has it redirected to `B`
and then to `C`, like the other one. -/
theorem not_follows_shared :
    fieldRules.check = .ok () ∧
      (∀ self ∈ instancesOf (chain "S" "S"), self.WellFormed) ∧
      ∃ (after : List Element) (report : NamingReport),
        fieldRules.resolve (chain "S" "S") = .ok (after, report) ∧
        ¬ FollowsRenames (chain "S" "S") after report := by
  have valid : fieldRules.check = .ok () := by decide
  refine ⟨valid, wellFormed_chain "S" "S", (fieldRules.rename (chain "S" "S")).1,
    (fieldRules.rename (chain "S" "S")).2, resolve_eq_ok valid _, fun h => ?_⟩
  have hrename : (⟨.ofInstance "a" "t" "A", .ofInstance "a" "t" "B"⟩ : Rename) ∈
      (fieldRules.rename (chain "S" "S")).2.renames := by
    decide +kernel
  -- The reference to `A` ends at `C`.
  have hended : ((fieldRules.rename (chain "S" "S")).1[2]?.bind Element.asInstance?).map
      (fun ended => ended.references.map (·.2.target)) = some [.ofInstance "a" "t" "C"] := by
    decide +kernel
  obtain ⟨ended, moved, hk, hmoved, hmem⟩ :=
    h.moves 2 _ _ _ _ rfl (List.mem_singleton_self _) hrename rfl
  rw [hk, Option.bind_some, Element.asInstance?, Option.map_some, Option.some.injEq] at hended
  have htarget : moved ∈ ended.references.map (·.2.target) := List.mem_map_of_mem hmem
  rw [hended, List.mem_singleton] at htarget
  subst htarget
  exact absurd hmoved (by decide)

end NamingConfig

end ElementCatalog
