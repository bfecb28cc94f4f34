import ElementCatalog.Proofs.Naming.References
import ElementCatalog.Proofs.Value.Retarget

/-!
# What instances become

Naming gives an instance its final identifier and moves the targets of its references, each by the
steps for its place; nothing else changes (`NamingConfig.rename_fst_eq_map`). In an instance that is
the only one with its identifier, no other instance disturbs this: each target moves with the rename
of what it lies below, wherever the reference stands (`NamingConfig.endedOf_eq`).
-/

namespace ElementCatalog

namespace Instance

variable {self after : Instance} {move move' : ValuePath → ElementId → ElementId}

/-- The instance with the targets of its references moved. -/
def retarget (move : ValuePath → ElementId → ElementId) (self : Instance) : Instance where
  id := self.id
  value := Value.retargetMembers (fun path => move ⟨.value, path⟩) self.value
  annotations := Value.retargetMembers (fun path => move ⟨.annotations, path⟩) self.annotations

/-- The instance depends only on how the targets of its own references are moved. -/
theorem retarget_congr (h : ∀ placed ∈ self.references,
    move placed.1 placed.2.target = move' placed.1 placed.2.target) :
    self.retarget move = self.retarget move' := by
  have hmembers (start : Section) :
      Value.retargetMembers (fun path => move ⟨start, path⟩) (self.valuesOf start) =
        Value.retargetMembers (fun path => move' ⟨start, path⟩) (self.valuesOf start) :=
    Value.retargetMembers_congr fun placed hplaced => h (⟨start, placed.1⟩, placed.2)
      (mem_references_iff.2 (by rwa [Value.references]))
  rw [retarget, retarget, Instance.mk.injEq]
  exact ⟨rfl, hmembers .value, hmembers .annotations⟩

/-- Nothing changes where all targets stay. -/
theorem retarget_id (self : Instance) : (self.retarget fun _ target => target) = self := by
  rw [retarget, Value.retargetMembers_id, Value.retargetMembers_id]

/-- Targets are moved twice by moving them once by both moves. -/
theorem retarget_retarget (self : Instance) (first second : ValuePath → ElementId → ElementId) :
    (self.retarget first).retarget second =
      self.retarget fun path target => second path (first path target) := by
  simp only [retarget, Value.retargetMembers_retargetMembers]

/-- Where a target depends only on the old one, each reference is changed by itself. -/
theorem retarget_eq_mapReferences (move : ElementId → ElementId) (self : Instance) :
    (self.retarget fun _ => move) = self.mapReferences (Reference.mapTarget move) := by
  simp only [retarget, mapReferences, Value.retargetMembers_eq_mapMemberReferences]

/-- An instance in which one reference has another target is the instance with this target moved. -/
theorem Replaced.eq_retarget {path : ValuePath} {target moved : ElementId} {snapshot : Option Value}
    (replaced : self.Replaced path (Reference.mk target snapshot).toValue
      (Reference.mk moved snapshot).toValue after) (wellFormed : self.WellFormed) :
    after = self.retarget fun place target => if place = path then moved else target := by
  obtain ⟨-, values, replaced, rfl⟩ := replaced
  obtain ⟨start, segments⟩ := path
  have hvalues : values = Value.retargetMembers (Value.moveAt segments moved)
      (self.valuesOf start) := by
    have := replaced.eq_retarget rfl rfl (wellFormed _)
    rwa [Value.retarget, Value.map.injEq] at this
  -- In the section of the place only the reference there moves, and in the other one none does.
  have hsame : (fun path target => if (⟨start, path⟩ : ValuePath) = ⟨start, segments⟩ then moved
      else target) = Value.moveAt segments moved := by
    funext path target
    simp [Value.moveAt]
  have hother {other : Section} (hne : other ≠ start) (values : ValueMap) :
      Value.retargetMembers (fun path target => if (⟨other, path⟩ : ValuePath) = ⟨start, segments⟩
        then moved else target) values = values :=
    Value.retargetMembers_eq_self fun placed _ =>
      if_neg fun heq => hne (congrArg ValuePath.start heq)
  subst hvalues
  cases start with
  | value => rw [retarget, hsame, hother (by decide)]; rfl
  | annotations => rw [retarget, hsame, hother (by decide)]; rfl

end Instance

namespace Rename

/-- An instance follows steps by each of its targets following them. -/
theorem follow_ofInstance_fst {self : Instance} (wellFormed : self.WellFormed)
    (steps : List (Rename × ReferenceSite)) :
    (follow steps (.ofInstance self)).1 =
      .ofInstance (self.retarget fun path target => (followTarget self.id path steps target).1) := by
  induction steps generalizing self with
  | nil =>
    simp only [follow, followTarget]
    rw [Instance.retarget_id]
  | cons step rest ih =>
    obtain ⟨rename, site⟩ := step
    rw [follow]
    split
    · next changed h =>
      obtain ⟨after, snapshot, moved, rfl, hsource, hmoved, replaced⟩ :=
        redirectElement_ofInstance_eq_some h
      obtain ⟨front, back, hself, -, hbeside⟩ := replaced.references_reference wellFormed
      rw [ih (replaced.wellFormed wellFormed fun hpart => by
        cases hpart with
        | reference held => exact .reference held), replaced.id_eq, replaced.eq_retarget wellFormed,
        Instance.retarget_retarget]
      refine congrArg Element.ofInstance (Instance.retarget_congr fun placed hplaced => ?_)
      rw [hself, List.mem_append, List.mem_cons] at hplaced
      by_cases hpath : placed.1 = site.path
      · -- The reference at the place is the one that the step redirects.
        rcases hplaced with h | rfl | h
        · exact absurd hpath (hbeside _ (List.mem_append_left _ h))
        · rw [if_pos rfl, hsource, followTarget_cons_of_eq site rest hmoved]
        · exact absurd hpath (hbeside _ (List.mem_append_right _ h))
      · rw [if_neg hpath, followTarget_cons_of_ne (Ne.symm hpath)]
    · next h =>
      -- The step redirects nothing, so no target of the instance moves.
      rw [ih wellFormed]
      refine congrArg Element.ofInstance (Instance.retarget_congr fun placed hplaced => ?_)
      rw [followTarget_cons_of_rebase_eq_none fun hsource hpath htarget =>
        rebase_eq_none_of_redirectElement_eq_none wellFormed h hsource (hpath ▸ hplaced) htarget]

/-- Only the steps for an identifier concern the targets of an instance with it. -/
theorem followTarget_filter (source : ElementId) (path : ValuePath)
    (steps : List (Rename × ReferenceSite)) (target : ElementId) :
    followTarget source path (steps.filter fun step => step.2.source = source) target =
      followTarget source path steps target := by
  induction steps generalizing target with
  | nil => rfl
  | cons step rest ih =>
    obtain ⟨rename, site⟩ := step
    by_cases hsource : site.source = source
    · rw [List.filter_cons_of_pos (by simpa using hsource), followTarget, followTarget]
      simp only [ih]
    · rw [List.filter_cons_of_neg (by simpa using hsource), ih, followTarget,
        if_neg fun h => hsource h.1]

/-- The steps for an identifier are those of the instances with it. -/
theorem filter_stepsAmong (source : ElementId) (renames : List Rename)
    (instances : List Instance) :
    (stepsAmong renames instances).filter (fun step => step.2.source = source) =
      stepsAmong renames (instances.filter (·.id = source)) := by
  have hsites (old : ElementId) :
      (instances.flatMap (ReferenceIndex.sitesTo old)).filter (·.source = source) =
        (instances.filter (·.id = source)).flatMap (ReferenceIndex.sitesTo old) := by
    induction instances with
    | nil => rfl
    | cons self rest ih =>
      have hsource : ∀ site ∈ ReferenceIndex.sitesTo old self, site.source = self.id := by
        intro site hsite
        obtain ⟨_, _, _, _, rfl⟩ := ReferenceIndex.mem_sitesTo_iff.1 hsite
        rfl
      rw [List.flatMap_cons, List.filter_append, ih]
      by_cases hid : self.id = source
      · rw [List.filter_cons_of_pos (by simpa using hid), List.flatMap_cons,
          List.filter_eq_self.2 fun site hsite => by simpa [hsource site hsite] using hid]
      · rw [List.filter_cons_of_neg (by simpa using hid),
          List.filter_eq_nil_iff.2 fun site hsite => by simpa [hsource site hsite] using hid,
          List.nil_append]
  rw [stepsAmong, List.filter_flatMap, stepsAmong]
  refine List.flatMap_congr fun rename _ => ?_
  rw [List.filter_map, ← hsites]
  rfl

/-- A target with the rename made of what it lies below, if there is one. -/
def redirected (renames : List Rename) (target : ElementId) : ElementId :=
  match renames.find? (·.old == target.topLevel.1) with
  | some rename => (target.rebase rename.old rename.new).getD target
  | none => target

/-- A target below nothing that is renamed stays. -/
theorem redirected_eq_self {renames : List Rename} {target : ElementId}
    (h : target.topLevel.1 ∉ renames.map Rename.old) : redirected renames target = target := by
  have hnone : renames.find? (·.old == target.topLevel.1) = none :=
    List.find?_eq_none.2 fun rename hrename heq =>
      h (List.mem_map.2 ⟨rename, hrename, by simpa using heq⟩)
  rw [redirected, hnone]

/-- A target below what is renamed is moved. -/
theorem redirected_eq {renames : List Rename} (sound : Sound renames) {rename : Rename}
    (hrename : rename ∈ renames) {target moved : ElementId}
    (hmoved : target.rebase rename.old rename.new = some moved) :
    redirected renames target = moved := by
  have htop : target.topLevel.1 = rename.old := by
    by_contra hne
    rw [ElementId.rebase_eq_none_iff.2 hne] at hmoved
    cases hmoved
  cases hfind : renames.find? (·.old == target.topLevel.1) with
  | none =>
    exact absurd htop.symm (by simpa using List.find?_eq_none.1 hfind rename hrename)
  | some found =>
    have hold : found.old = rename.old := (by simpa using List.find?_some hfind : _ = _).trans htop
    obtain rfl := sound.eq_of_old_eq hrename (List.mem_of_find?_eq_some hfind) hold
    rw [redirected, hfind]
    simp only [hmoved, Option.getD_some]

/-- The targets of an instance that is the only one with its identifier move with the renames of
what they lie below. -/
theorem followTarget_stepsAmong_eq_redirected {renames : List Rename} {instances : List Instance}
    {self : Instance} {path : ValuePath} {held : Reference} (sound : Sound renames)
    (wellFormed : self.WellFormed) (unique : instances.filter (·.id = self.id) = [self])
    (hheld : (path, held) ∈ self.references) :
    (followTarget self.id path (stepsAmong renames instances) held.target).1 =
      redirected renames held.target := by
  rw [← followTarget_filter, filter_stepsAmong, unique]
  by_cases h : held.target.topLevel.1 ∈ renames.map Rename.old
  · obtain ⟨rename, hrename, htop⟩ := List.mem_map.1 h
    obtain ⟨name, hnew⟩ := sound.new_eq rename hrename
    obtain ⟨moved, hmoved, -⟩ := exists_rebase hnew htop.symm
    rw [redirected_eq sound hrename hmoved,
      followTarget_stepsAmong_eq sound (by simpa using wellFormed)
        (not_interferes_of_nodup (by simp)) (List.mem_singleton_self self) hheld
        hrename htop.symm hmoved]
  · rw [redirected_eq_self h, followTarget_stepsAmong_eq_self h]

end Rename

namespace NamingConfig

variable {config : NamingConfig} {elements : List Element} {self : Instance}

/-- What naming makes of an instance. -/
def endedOf (config : NamingConfig) (elements : List Element) (self : Instance) : Instance :=
  { self.retarget (fun path target =>
      (Rename.followTarget self.id path (config.stepsOf elements) target).1) with
    id := (config.batchOf elements).plan.names.finalId self }

/-- Naming makes of each instance what it becomes, and leaves all else. -/
theorem rename_fst_eq_map (wellFormed : ∀ self ∈ instancesOf elements, self.WellFormed) :
    (config.rename elements).1 = elements.map (Element.mapInstance (config.endedOf elements)) := by
  have happly (renames : List Rename) (self : Instance) :
      Rename.applyTo renames self = { self with id := (Rename.applyTo renames self).id } := by
    rw [Rename.applyTo]
    split <;> rfl
  rw [rename_fst]
  refine List.map_congr_left fun element helement => ?_
  cases element with
  | ofType definition => rw [Rename.follow_ofType]; rfl
  | ofInstance self =>
    have hself : self ∈ instancesOf elements := List.mem_filterMap.2 ⟨_, helement, rfl⟩
    have hid : (Rename.applyTo (config.renamesOf elements) (self.retarget fun path target =>
          (Rename.followTarget self.id path (config.stepsOf elements) target).1)).id =
        (config.batchOf elements).plan.names.finalId self :=
      NamingPlan.id_applyTo_renames ⟨self, hself, rfl⟩
    rw [Rename.follow_ofInstance_fst (wellFormed self hself), Element.mapInstance,
      Element.mapInstance, happly, hid]
    rfl

/-- The instances after naming are what the instances become. -/
theorem instancesOf_rename_fst (wellFormed : ∀ self ∈ instancesOf elements, self.WellFormed) :
    instancesOf (config.rename elements).1 = (instancesOf elements).map (config.endedOf elements) := by
  rw [rename_fst_eq_map wellFormed, instancesOf, instancesOf, List.filterMap_map,
    List.map_filterMap]
  refine List.filterMap_congr fun element _ => ?_
  cases element <;> rfl

/-- In an instance that is the only one with its identifier, targets move with the renames. -/
theorem endedOf_eq (wellFormed : self.WellFormed) (hself : self ∈ instancesOf elements)
    (hshared : (config.batchOf elements).isShared self.id = false) :
    config.endedOf elements self =
      { self.retarget (fun _ => Rename.redirected (config.renamesOf elements)) with
        id := (config.batchOf elements).plan.names.finalId self } := by
  have unique : (instancesOf elements).filter (·.id = self.id) = [self] := by
    have hmem : self ∈ (instancesOf elements).filter (·.id = self.id) :=
      List.mem_filter.2 ⟨hself, decide_eq_true rfl⟩
    have hlength : ((instancesOf elements).filter (·.id = self.id)).length ≤ 1 := by
      rw [← List.countP_eq_length_filter]
      simpa [Batch.isShared, batchOf, beq_eq_decide] using hshared
    obtain ⟨found, hfound⟩ :=
      List.length_eq_one_iff.1 (Nat.le_antisymm hlength (List.length_pos_of_mem hmem))
    rw [hfound, List.mem_singleton] at hmem
    rw [hfound, hmem]
  have hretarget : self.retarget (fun path target =>
        (Rename.followTarget self.id path (config.stepsOf elements) target).1) =
      self.retarget fun _ => Rename.redirected (config.renamesOf elements) := by
    refine Instance.retarget_congr fun placed hplaced => ?_
    rw [stepsOf_eq]
    exact Rename.followTarget_stepsAmong_eq_redirected (sound_renamesOf config elements) wellFormed
      unique hplaced
  rw [endedOf, hretarget]

end NamingConfig

end ElementCatalog
