import ElementCatalog.Proofs.Naming.Blank
import ElementCatalog.Proofs.Naming.Correspondence
import ElementCatalog.Proofs.Naming.Ended
import ElementCatalog.Proofs.Naming.FinalNames

/-!
# Naming elements once more

Elements that were named should keep their names when they are named once more. They do if all that
names are composed of stays the same under the renames (`Batch.Steady`): the texts of id fields, the
instances that naming references lead to, and those that they lead to in vain. Then the batch after
naming corresponds to the one before (`NamingConfig.corresponds_rename`), so every final identifier
is reached already, and nothing changes (`NamingConfig.resolve_twice`).

In general they do not: a list in an id field contributes its document, in which a reference to a
renamed instance has another text afterwards (`NamingConfig.not_idempotent_listed`).
-/

namespace ElementCatalog

namespace Composition

/-- An instance is alike to itself retargeted, if its naming references are related to the moved
ones and the texts of other values stay. -/
theorem alike_retarget {related : Reference → Reference → Prop} {rules : NamingRules}
    {self : Instance} {move : ElementId → ElementId}
    (hreference : ∀ reference ∈ references rules self,
      related reference { reference with target := move reference.target })
    (htext : ∀ value, some value ∈ fieldValues rules self → value.asReference? = none →
      ∀ placed ∈ value.references, move placed.2.target = placed.2.target) :
    Alike related rules self (self.retarget fun _ => move) := by
  rw [Instance.retarget_eq_mapReferences]
  refine alike_of_mapReferences_eq (Instance.mapReferences_id _).symm ?_ ?_
  · rintro reference hmem _ rfl
    exact hreference reference hmem
  · intro field hfield value hvalue value' hvalue' hnone
    rw [Instance.mapReferences, Value.find?_mapMemberReferences, hvalue] at hvalue'
    obtain rfl := Option.some.inj hvalue'
    have hmem : some value ∈ fieldValues rules self := List.mem_map.2 ⟨field, hfield, hvalue⟩
    rw [← Value.retarget_eq_mapReferences, Value.retarget_eq_self (htext value hmem hnone)]

end Composition

/-- The renames change nothing that names are composed of. -/
structure Batch.Steady (batch : Batch) (report : NamingReport) : Prop where
  /-- No reference to what is renamed stands in a list or map in an id field. -/
  literal : ∀ self ∈ batch.candidates, ∀ value,
    some value ∈ Composition.fieldValues (batch.rulesOf self) self → value.asReference? = none →
    ∀ placed ∈ value.references, placed.2.topTarget ∉ report.renames.map Rename.old
  /-- No instance gets the identifier of a top-level element that a name was looked for in, if no
  instance had it. -/
  present : ∀ self ∈ batch.candidates, ∀ reference ∈ batch.namingReferences self,
    reference.topTarget ∈ report.renames.map Rename.new → batch.has reference.topTarget = true
  /-- References that names depend on lead to renamed instances or below them, and not to what hangs
  off a type. -/
  movable : ∀ self ∈ batch.candidates, ∀ reference ∈ batch.namingReferences self,
    reference.topTarget ∈ report.renames.map Rename.old →
    reference.target.kind = .inst ∨ reference.target.topLevel.2 = []
  /-- If instances are suppressed, no text that names are composed of is one of dots and `_` that is
  not blank. -/
  plain : report.suppressed ≠ [] → ∀ text, batch.ComposedOf text → Plain text

namespace NamingConfig

variable {config : NamingConfig} {elements : List Element} {self : Instance}

/-- The identifier that naming moves an identifier to. -/
def movedId (config : NamingConfig) (elements : List Element) (id : ElementId) : ElementId :=
  (config.batchOf elements).plan.names.finalId ⟨id, [], []⟩

/-- The final identifier of an instance is the moved one. -/
theorem finalId_eq_movedId (config : NamingConfig) (elements : List Element) (self : Instance) :
    (config.batchOf elements).plan.names.finalId self = config.movedId elements self.id :=
  NameTable.finalId_congr rfl

/-- An instance that is held, or that no name is computed for, keeps its identifier. -/
theorem movedId_eq_self
    (h : self.id ∈ (config.batchOf elements).plan.order.map Instance.id →
      self.id ∈ (config.batchOf elements).plan.held) : config.movedId elements self.id = self.id := by
  rw [← finalId_eq_movedId]
  refine NameTable.finalId_eq_self ?_
  rw [Batch.plan_names_eq]
  exact Batch.getElem?_namesOf_eq_none h

/-- An instance whose identifier moves is renamed. -/
theorem mem_renamesOf (hself : self ∈ instancesOf elements)
    (h : config.movedId elements self.id ≠ self.id) :
    (⟨self.id, config.movedId elements self.id⟩ : Rename) ∈ config.renamesOf elements := by
  rw [← finalId_eq_movedId] at h ⊢
  exact NamingPlan.mem_renames_iff.2 ⟨self, hself, h, rfl⟩

/-- A rename moves the identifier of an instance. -/
theorem eq_of_mem_renamesOf {rename : Rename} (h : rename ∈ config.renamesOf elements) :
    (config.batchOf elements).has rename.old = true ∧
      rename.new = config.movedId elements rename.old := by
  obtain ⟨self, hself, -, rfl⟩ := NamingPlan.mem_renames_iff.1 h
  exact ⟨Batch.has_iff.2 ⟨self, hself, rfl⟩, finalId_eq_movedId config elements self⟩

/-- The targets of naming references stay the same under steady renames: those that are renamed
lead on to the renamed instances, and those that are missing stay missing. -/
theorem leadsAlike_redirected (wellFormed : ∀ self ∈ instancesOf elements, self.WellFormed)
    (steady : (config.batchOf elements).Steady (config.rename elements).2)
    (hself : self ∈ (config.batchOf elements).candidates) {reference : Reference}
    (hreference : reference ∈ (config.batchOf elements).namingReferences self) :
    Batch.LeadsAlike (config.batchOf elements) (config.batchOf (config.rename elements).1)
      (config.movedId elements) reference
      { reference with
        target := Rename.redirected (config.renamesOf elements) reference.target } := by
  have hpresent := steady.present self hself reference hreference
  have hmovable := steady.movable self hself reference hreference
  rw [renames_rename_snd] at hpresent hmovable
  by_cases hold : reference.topTarget ∈ (config.renamesOf elements).map Rename.old
  · obtain ⟨rename, hrename, htop⟩ := List.mem_map.1 hold
    obtain ⟨hhas, hnew⟩ := eq_of_mem_renamesOf hrename
    obtain ⟨name, hinstance⟩ := (sound_renamesOf config elements).new_eq rename hrename
    refine .present (htop ▸ hhas) ?_
    -- The reference is moved below the new identifier.
    have hmoved : reference.target.rebase rename.old rename.new =
        some (rename.new.nested reference.target.topLevel.2) := by
      have hbelow : reference.target.topLevel.1 = rename.old := htop.symm
      rw [ElementId.rebase, if_neg (not_not.2 hbelow), if_pos (hmovable hold)]
    have htopNew : (rename.new.nested reference.target.topLevel.2).topLevel.1 = rename.new := by
      rw [hinstance]
      rfl
    rw [Reference.topTarget, Rename.redirected_eq (sound_renamesOf config elements) hrename hmoved,
      htopNew, hnew, htop]
  · have hsame : Rename.redirected (config.renamesOf elements) reference.target =
        reference.target := Rename.redirected_eq_self hold
    rw [hsame]
    have hkept {found : Instance} (hfound : found ∈ instancesOf elements)
        (h : config.movedId elements found.id ≠ found.id) : found.id ≠ reference.topTarget :=
      fun hid => hold (List.mem_map.2 ⟨_, mem_renamesOf hfound h, hid⟩)
    cases hhas : (config.batchOf elements).has reference.topTarget with
    | true =>
      obtain ⟨found, hfound, hid⟩ := Batch.has_iff.1 hhas
      refine .present hhas ?_
      by_contra hne
      rw [← hid] at hne
      exact hkept hfound (Ne.symm hne) hid
    | false =>
      refine .missing hhas ?_ rfl rfl
      rw [Bool.eq_false_iff]
      intro hhas'
      -- The instance that is there now was there before, or it was renamed.
      obtain ⟨ended, hended, hid⟩ := Batch.has_iff.1 hhas'
      rw [batchOf, instancesOf_rename_fst wellFormed] at hended
      obtain ⟨found, hfound, rfl⟩ := List.mem_map.1 hended
      have hmoved : config.movedId elements found.id = reference.topTarget :=
        (finalId_eq_movedId config elements found).symm.trans hid
      have hthere : (config.batchOf elements).has reference.topTarget = true := by
        by_cases hsame : config.movedId elements found.id = found.id
        · exact Batch.has_iff.2 ⟨found, hfound, hsame.symm.trans hmoved⟩
        · exact hpresent (List.mem_map.2 ⟨_, mem_renamesOf hfound hsame, hmoved⟩)
      rw [hthere] at hhas
      cases hhas

/-- Where a name falls back on the last part of the identifier in some round, that part stays. -/
theorem name_movedId (steady : (config.batchOf elements).Steady (config.rename elements).2)
    (hself : self ∈ (config.batchOf elements).plan.order) {held : List ElementId}
    (hsubset : held ⊆ (config.batchOf elements).plan.held)
    (hnone : Composition.usable? (Composition.compose
      ((config.batchOf elements).referenceName
        ((config.batchOf elements).namesOf (config.batchOf elements).plan.order held))
      ((config.batchOf elements).rulesOf self) self) = none) :
    (config.movedId elements self.id).name = self.id.name := by
  by_cases hheld : self.id ∈ (config.batchOf elements).plan.held
  · rw [movedId_eq_self fun _ => hheld]
  · have hlast : Blank (Composition.compose
        ((config.batchOf elements).referenceName
          ((config.batchOf elements).namesOf (config.batchOf elements).plan.order
            (config.batchOf elements).plan.held))
        ((config.batchOf elements).rulesOf self) self) := by
      have hblank := Composition.usable?_eq_none_iff.1 hnone
      by_cases hsuppressed : (config.rename elements).2.suppressed = []
      · -- Nothing is held in the end, so there is only one round.
        have hempty : (config.batchOf elements).plan.held = [] := by
          refine List.eq_nil_iff_forall_not_mem.2 fun id hid => ?_
          have hmem : id ∈ (instancesOf elements).map Instance.id := by
            obtain ⟨found, hfound, rfl⟩ :=
              List.mem_map.1 ((Batch.settles_plan (config.batchOf elements)).subset_order hid)
            exact List.mem_map_of_mem
              (Batch.mem_candidates_iff.1 (Batch.plan_order_subset hfound)).1
          exact List.eq_nil_iff_forall_not_mem.1 hsuppressed id
            (List.mem_filter.2 ⟨hmem, decide_eq_true hid⟩)
        have hnil : held = [] := List.subset_nil.1 (hempty ▸ hsubset)
        rwa [hempty, ← hnil]
      · exact Batch.blank_compose_plan (steady.plain hsuppressed) hsubset self hself hblank
    rw [← finalId_eq_movedId, NameTable.name_finalId, Batch.plan_names_eq,
      Batch.nameOf_namesOf hself hheld, Composition.usable?_eq_none_iff.2 hlast]
    rfl

/-- Under steady renames the batch after naming corresponds to the one before. -/
theorem corresponds_rename (wellFormed : ∀ self ∈ instancesOf elements, self.WellFormed)
    (steady : (config.batchOf elements).Steady (config.rename elements).2) :
    (config.batchOf elements).Corresponds (config.batchOf (config.rename elements).1)
      (config.endedOf elements) (config.movedId elements) where
  config_eq := rfl
  instances_perm := by
    rw [batchOf, instancesOf_rename_fst wellFormed]
    exact .refl _
  id_turn self _ := finalId_eq_movedId config elements self
  eq_of_moved_eq a ha b hb heq := by
    rw [← finalId_eq_movedId, ← finalId_eq_movedId] at heq
    exact (Batch.finalId_plan_names_eq_iff ha hb).1 heq
  adapter_eq self _ := by
    rw [movedId, NameTable.finalId]
    split <;> rfl
  typeName_eq self _ := by
    rw [movedId, NameTable.finalId]
    split <;> rfl
  alike self hself := by
    obtain ⟨hmem, hshared, -⟩ := Batch.mem_candidates_iff.1 hself
    rw [endedOf_eq (wellFormed self hmem) hmem hshared]
    have halike := Composition.alike_retarget
      (fun reference hreference => leadsAlike_redirected wellFormed steady hself hreference)
      fun value hvalue hnone placed hplaced => by
        have := steady.literal self hself value hvalue hnone placed hplaced
        rw [renames_rename_snd] at this
        exact Rename.redirected_eq_self this
    exact ⟨halike.fields, halike.parents⟩
  moved_eq self hself h := by
    refine movedId_eq_self fun hid => ?_
    exact h.resolve_right fun hnot => hnot (Batch.mem_plan_order_of_id_mem hself hid)
  name_eq self hself held hsubset _ hnone := name_movedId steady hself hsubset hnone

/-- Elements whose instances all have their final identifiers stay as they are. -/
theorem rename_eq_self
    (h : ∀ self ∈ instancesOf elements,
      (config.batchOf elements).plan.names.finalId self = self.id) :
    (config.rename elements).1 = elements ∧ (config.rename elements).2.renamed = [] ∧
      (config.rename elements).2.redirectedReferences = 0 := by
  have hrenames : config.renamesOf elements = [] := by
    refine List.filterMap_eq_nil_iff.2 fun self hself => ?_
    rw [h self hself]
    exact if_pos rfl
  have hsteps : config.stepsOf elements = [] := by
    rw [stepsOf, hrenames]
    rfl
  refine ⟨?_, ?_, ?_⟩
  · rw [rename_fst, hsteps, hrenames]
    refine List.map_id'' (fun element => ?_) elements
    cases element <;> rfl
  · change (config.renamesOf elements).map _ = []
    rw [hrenames]
    rfl
  · change (Rename.redirectAll _ _ elements).2 = 0
    rw [Rename.redirectAll_eq]
    change (Rename.followAll (config.stepsOf elements) elements).2 = 0
    rw [hsteps, Rename.followAll_nil]

/-- Under valid rules naming succeeds, and under steady renames naming the resulting elements once
more renames nothing, redirects nothing and leaves the elements as they are. -/
theorem resolve_twice (valid : config.check = .ok ()) (elements : List Element)
    (wellFormed : ∀ self ∈ instancesOf elements, self.WellFormed) :
    ∃ (after : List Element) (report : NamingReport),
      config.resolve elements = .ok (after, report) ∧
      ((config.batchOf elements).Steady report →
        ∃ report', config.resolve after = .ok (after, report') ∧ report'.renamed = [] ∧
          report'.redirectedReferences = 0) := by
  refine ⟨_, _, resolve_eq_ok valid elements, fun steady => ?_⟩
  have corresponds := corresponds_rename wellFormed steady
  have hfinal : ∀ ended ∈ instancesOf (config.rename elements).1,
      (config.batchOf (config.rename elements).1).plan.names.finalId ended = ended.id := by
    intro ended hended
    rw [instancesOf_rename_fst wellFormed] at hended
    obtain ⟨self, hself, rfl⟩ := List.mem_map.1 hended
    exact corresponds.finalId_eq hself
  obtain ⟨hsame, hrenamed, hredirected⟩ := rename_eq_self hfinal
  refine ⟨(config.rename (config.rename elements).1).2, ?_, hrenamed, hredirected⟩
  rw [resolve_eq_ok valid]
  exact congrArg Except.ok (Prod.ext hsame rfl)

/-- A book and its author. -/
def library : List Element :=
  [.ofInstance book, .ofInstance author]

/-- The instances of the library. -/
theorem eq_of_mem_library (h : self ∈ instancesOf library) : self = book ∨ self = author := by
  simpa [library, instancesOf, Element.asInstance?] using h

/-- The instances of the library are well-formed. -/
theorem wellFormed_library : ∀ self ∈ instancesOf library, self.WellFormed := by
  intro self hself
  rcases eq_of_mem_library hself with rfl | rfl
  · rintro (_ | _)
    · refine .map (by decide) fun member hmember => ?_
      rcases List.mem_cons.1 hmember with rfl | hmember
      · exact Value.wellFormed_ofTarget _
      · obtain rfl := List.mem_singleton.1 hmember
        exact .string
    · exact .map List.nodup_nil fun member hmember => nomatch hmember
  · exact wellFormed_declare (Value.wellFormed_ofTarget _)

/-- The library has steady renames: the only texts are titles, the author that books refer to is
there, and no element gets the identifier of the city. -/
theorem steady_library :
    (libraryRules.batchOf library).Steady (libraryRules.rename library).2 := by
  have hfields : ∀ self ∈ (libraryRules.batchOf library).candidates, ∀ value,
      some value ∈ Composition.fieldValues ((libraryRules.batchOf library).rulesOf self) self →
      value = .reference (.ofInstance "a" "author" "1") none ∨
        value = .reference (.ofInstance "a" "city" "Padua") none ∨ value = .string "Book 1.2" := by
    intro self hself value hvalue
    rcases eq_of_mem_library (Batch.mem_candidates_iff.1 hself).1 with rfl | rfl
    · have : Composition.fieldValues ((libraryRules.batchOf library).rulesOf book) book =
          [some (.reference (.ofInstance "a" "author" "1") none), some (.string "Book 1.2")] := rfl
      rw [this] at hvalue
      simp only [List.mem_cons, Option.some.injEq, List.not_mem_nil, or_false] at hvalue
      exact hvalue.imp id .inr
    · have : Composition.fieldValues ((libraryRules.batchOf library).rulesOf author) author =
          [some (.reference (.ofInstance "a" "city" "Padua") none)] := rfl
      rw [this] at hvalue
      simp only [List.mem_cons, Option.some.injEq, List.not_mem_nil, or_false] at hvalue
      exact .inr (.inl hvalue)
  have hreferences : ∀ self ∈ (libraryRules.batchOf library).candidates,
      ∀ reference ∈ (libraryRules.batchOf library).namingReferences self,
        reference.target = .ofInstance "a" "author" "1" ∨
          reference.target = .ofInstance "a" "city" "Padua" := by
    intro self hself reference hreference
    rcases List.mem_append.1 hreference with h | h
    · obtain ⟨found, hfound, hfield⟩ := List.mem_filterMap.1 h
      obtain ⟨value, rfl, hvalue⟩ := Option.bind_eq_some_iff.1 hfield
      rcases hfields self hself value hfound with rfl | rfl | rfl
      · cases hvalue
        exact .inl rfl
      · cases hvalue
        exact .inr rfl
      · cases hvalue
    · rcases eq_of_mem_library (Batch.mem_candidates_iff.1 hself).1 with rfl | rfl <;>
        exact nomatch h
  constructor
  case literal =>
    intro self hself value hvalue hnone placed hplaced
    rcases hfields self hself value hvalue with rfl | rfl | rfl
    · cases hnone
    · cases hnone
    · exact absurd hplaced List.not_mem_nil
  case present =>
    intro self hself reference hreference hnew
    rw [Reference.topTarget] at hnew ⊢
    rcases hreferences self hself reference hreference with h | h
    · rw [h]
      decide +kernel
    · rw [h] at hnew
      exact absurd hnew (by decide +kernel)
  case movable =>
    intro self hself reference hreference _
    rcases hreferences self hself reference hreference with h | h
    · exact .inl (by rw [h]; rfl)
    · exact .inl (by rw [h]; rfl)
  case plain => exact fun h => absurd (by decide +kernel) h

/-- The library keeps its new names. -/
theorem resolve_twice_library :
    libraryRules.check = .ok () ∧ (∀ self ∈ instancesOf library, self.WellFormed) ∧
      ∃ (after : List Element) (report : NamingReport),
        libraryRules.resolve library = .ok (after, report) ∧
        (libraryRules.batchOf library).Steady report ∧ report.renamed ≠ [] ∧
        ∃ report', libraryRules.resolve after = .ok (after, report') ∧ report'.renamed = [] ∧
          report'.redirectedReferences = 0 := by
  have valid : libraryRules.check = .ok () := by decide
  obtain ⟨after, report, hresolve, htwice⟩ := resolve_twice valid library wellFormed_library
  have hreport : (libraryRules.rename library).2 = report :=
    congrArg Prod.snd (Except.ok.inj ((resolve_eq_ok valid _).symm.trans hresolve))
  have steady : (libraryRules.batchOf library).Steady report := hreport ▸ steady_library
  refine ⟨valid, wellFormed_library, after, report, hresolve, steady, ?_, htwice steady⟩
  rw [← hreport]
  decide +kernel

/-- Two instances of which the second has a list in its id field, with a reference to the first. -/
def listed : List Element :=
  [.ofInstance (.declare "a" "t" "A" [("n", .string "B")]),
    .ofInstance (.declare "a" "t" "L"
      [("n", .list [.reference (.ofInstance "a" "t" "A") none])])]

/-- An instance that is named after a list is renamed once more, because the reference in the list
has another text after it is redirected. -/
theorem not_idempotent_listed :
    fieldRules.check = .ok () ∧ (∀ self ∈ instancesOf listed, self.WellFormed) ∧
      ∃ (after after' : List Element) (report report' : NamingReport),
        fieldRules.resolve listed = .ok (after, report) ∧
        fieldRules.resolve after = .ok (after', report') ∧
        report'.renamed ≠ [] ∧ after'.map Element.id ≠ after.map Element.id := by
  have valid : fieldRules.check = .ok () := by decide
  refine ⟨valid, ?_, _, _, _, _, resolve_eq_ok valid _, resolve_eq_ok valid _, ?_, ?_⟩
  · intro self hself
    simp only [listed, instancesOf, List.filterMap_cons, Element.asInstance?, List.filterMap_nil,
      List.mem_cons, List.not_mem_nil, or_false] at hself
    rcases hself with rfl | rfl
    · exact wellFormed_declare .string
    · refine wellFormed_declare (.list fun item hitem => ?_)
      obtain rfl := List.mem_singleton.1 hitem
      exact Value.wellFormed_ofTarget _
  · decide +kernel
  · decide +kernel

end NamingConfig

end ElementCatalog
