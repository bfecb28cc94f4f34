import ElementCatalog.Proofs.Naming.Redirect
import ElementCatalog.Proofs.Naming.ReferenceIndex

/-!
# Which steps redirect a reference

A step redirects a reference if it lists the path and the target of the reference for an instance
with the identifier, be it another instance than the one that holds the reference. A reference to
a renamed instance is redirected by the step for it. Whether any other step redirects it as well,
before or after it has its new target, depends on the other instances with the identifier.

## Main definitions

* `Rename.Sound`: renames as naming makes them;
* `Rename.Interferes`: an instance makes steps that redirect a reference of another one.

## Main results

* `Rename.followTarget_stepsAmong_pos`: a reference to a renamed instance is redirected;
* `Rename.followTarget_steps_eq`: without interference it is redirected once;
* `Rename.one_lt_followTarget_steps`: with interference it is redirected more than once.
-/

namespace ElementCatalog.Rename

/-! ## Any steps -/

section Steps

variable {source : ElementId} {path : ValuePath} {target moved : ElementId} {rename : Rename}
  {front back steps : List (Rename × ReferenceSite)}

/-- A target follows steps one after another. -/
theorem followTarget_append (front back : List (Rename × ReferenceSite)) (target : ElementId) :
    followTarget source path (front ++ back) target =
      ((followTarget source path back (followTarget source path front target).1).1,
        (followTarget source path front target).2 +
          (followTarget source path back (followTarget source path front target).1).2) := by
  induction front generalizing target with
  | nil => simp [followTarget]
  | cons step rest ih =>
    obtain ⟨rename, site⟩ := step
    rw [List.cons_append, followTarget, followTarget]
    split
    · split
      · next moved _ =>
        rw [ih moved]
        simp only [Prod.mk.injEq, true_and]
        omega
      · exact ih target
    · exact ih target

/-- Steps that do not list a target leave it as it is. -/
theorem followTarget_eq_self (h : ∀ step ∈ steps, step.2 ≠ ⟨source, path, target⟩) :
    followTarget source path steps target = (target, 0) := by
  induction steps with
  | nil => rfl
  | cons step rest ih =>
    obtain ⟨rename, site⟩ := step
    rw [followTarget, if_neg, ih fun step hstep => h step (List.mem_cons_of_mem _ hstep)]
    rintro ⟨rfl, rfl, rfl⟩
    exact h _ List.mem_cons_self rfl

/-- Steps that do not list a target leave it to those that follow. -/
theorem followTarget_append_of_forall_ne
    (hfront : ∀ step ∈ front, step.2 ≠ ⟨source, path, target⟩) :
    followTarget source path (front ++ back) target = followTarget source path back target := by
  simp [followTarget_append, followTarget_eq_self hfront]

/-- The first step that lists a target moves it, and the others follow. -/
theorem followTarget_append_cons (hfront : ∀ step ∈ front, step.2 ≠ ⟨source, path, target⟩)
    (hmoved : target.rebase rename.old rename.new = some moved) :
    followTarget source path (front ++ (rename, ⟨source, path, target⟩) :: back) target =
      ((followTarget source path back moved).1, (followTarget source path back moved).2 + 1) := by
  rw [followTarget_append_of_forall_ne hfront,
    followTarget_cons_of_eq ⟨source, path, target⟩ back hmoved]

/-- If some step lists a target, there is a first one. -/
theorem exists_first_step (h : (rename, ⟨source, path, target⟩) ∈ steps) :
    ∃ front first back, steps = front ++ (first, ⟨source, path, target⟩) :: back ∧
      ∀ step ∈ front, step.2 ≠ ⟨source, path, target⟩ := by
  obtain ⟨step, hfind⟩ := Option.isSome_iff_exists.1 (List.find?_isSome
    (p := fun step : Rename × ReferenceSite => step.2 == ⟨source, path, target⟩)
    |>.2 ⟨_, h, by simp⟩)
  obtain ⟨hstep, front, back, rfl, hfront⟩ := List.find?_eq_some_iff_append.1 hfind
  obtain ⟨first, site⟩ := step
  obtain rfl : site = ⟨source, path, target⟩ := by simpa using hstep
  exact ⟨front, first, back, rfl, by simpa using hfront⟩

/-- A target that some step lists is moved, if all steps can move what they list. -/
theorem followTarget_pos
    (movable : ∀ step ∈ steps, (step.2.target.rebase step.1.old step.1.new).isSome)
    (h : (rename, ⟨source, path, target⟩) ∈ steps) :
    0 < (followTarget source path steps target).2 := by
  obtain ⟨front, first, back, rfl, hfront⟩ := exists_first_step h
  obtain ⟨moved, hmoved⟩ := Option.isSome_iff_exists.1 (movable _ (List.mem_append_right _
    List.mem_cons_self))
  rw [followTarget_append_cons hfront hmoved]
  exact Nat.succ_pos _

/-- A target is moved more than once if later steps list what it was moved to. -/
theorem one_lt_followTarget {later : Rename}
    (movable : ∀ step ∈ front ++ back, (step.2.target.rebase step.1.old step.1.new).isSome)
    (h : (rename, ⟨source, path, target⟩) ∈ front)
    (hmoved : ∀ first, (first, ⟨source, path, target⟩) ∈ front →
      target.rebase first.old first.new = some moved)
    (hlater : (later, ⟨source, path, moved⟩) ∈ back) :
    1 < (followTarget source path (front ++ back) target).2 := by
  obtain ⟨before, first, after, rfl, hbefore⟩ := exists_first_step h
  have hfirst := hmoved first (List.mem_append_right _ List.mem_cons_self)
  rw [List.append_assoc, List.cons_append, followTarget_append_cons hbefore hfirst]
  refine Nat.succ_lt_succ (followTarget_pos (fun step hstep => movable step ?_)
    (List.mem_append_right after hlater))
  rw [List.append_assoc, List.cons_append]
  exact List.mem_append_right _ (List.mem_cons_of_mem _ hstep)

end Steps

/-! ## Renames -/

/-- Renames as naming makes them: each changes an identifier that no other changes, and the new
identifier is another one, that of a top-level instance of the same type. -/
structure Sound (renames : List Rename) : Prop where
  /-- No identifier is changed twice. -/
  nodup : (renames.map Rename.old).Nodup
  /-- The new identifier is that of a top-level instance of the type. -/
  new_eq : ∀ rename ∈ renames,
    ∃ name, rename.new = .ofInstance rename.old.adapter rename.old.typeName name
  /-- The new identifier is another one. -/
  new_ne : ∀ rename ∈ renames, rename.new ≠ rename.old

/-- There is one rename for an identifier. -/
theorem Sound.eq_of_old_eq {renames : List Rename} (sound : Sound renames) {rename other : Rename}
    (h : rename ∈ renames) (hother : other ∈ renames) (hold : other.old = rename.old) :
    other = rename :=
  List.inj_on_of_nodup_map sound.nodup hother h hold

/-- The type of a top-level element is that of what lies below it. -/
private theorem typeName_topLevel (id : ElementId) :
    id.topLevel.1.adapter = id.adapter ∧ id.topLevel.1.typeName = id.typeName := by
  unfold ElementId.topLevel
  split <;> exact ⟨rfl, rfl⟩

/-- A rename moves what lies below the old identifier below the new one, except for what hangs off
a type and not off an instance, which it leaves where it is. -/
theorem exists_rebase {rename : Rename} {name : String}
    (hnew : rename.new = .ofInstance rename.old.adapter rename.old.typeName name)
    {target : ElementId} (htop : target.topLevel.1 = rename.old) :
    ∃ moved, target.rebase rename.old rename.new = some moved ∧
      (moved = target ∨ moved.topLevel.1 = rename.new) := by
  rw [ElementId.rebase, if_neg (not_not.2 htop)]
  split
  · refine ⟨_, rfl, .inr ?_⟩
    rw [hnew]
    rfl
  · obtain ⟨hadapter, htype⟩ := typeName_topLevel target
    rw [htop] at hadapter htype
    refine ⟨_, rfl, .inl ?_⟩
    rw [hnew, ElementId.ofInstance, hadapter, htype]

/-! ## The steps among instances -/

/-- The steps for renames: each reference of an instance to what is renamed, for one rename after
another. -/
def stepsAmong (renames : List Rename) (instances : List Instance) :
    List (Rename × ReferenceSite) :=
  renames.flatMap fun rename =>
    (instances.flatMap (ReferenceIndex.sitesTo rename.old)).map (rename, ·)

/-- The steps by an index that is built for all that is renamed. -/
theorem steps_build {renames : List Rename} {targets : Std.ExtTreeSet ElementId}
    (h : ∀ rename ∈ renames, rename.old ∈ targets) (instances : List Instance) :
    steps renames (.build instances targets) = stepsAmong renames instances := by
  refine List.flatMap_congr fun rename hrename => ?_
  rw [ReferenceIndex.referrers_build (h rename hrename)]

variable {renames front back : List Rename} {instances : List Instance} {rename : Rename}
  {self : Instance} {path : ValuePath} {held : Reference} {moved : ElementId}

/-- There is a step for each rename and each reference to what it renames. -/
theorem mem_stepsAmong_iff {site : ReferenceSite} :
    (rename, site) ∈ stepsAmong renames instances ↔ rename ∈ renames ∧
      ∃ self ∈ instances, ∃ path reference, (path, reference) ∈ self.references ∧
        reference.topTarget = rename.old ∧ site = ⟨self.id, path, reference.target⟩ := by
  simp only [stepsAmong, List.mem_flatMap, List.mem_map, Prod.mk.injEq,
    ReferenceIndex.mem_sitesTo_iff]
  constructor
  · rintro ⟨_, hrename, _, ⟨self, hself, hsite⟩, rfl, rfl⟩
    exact ⟨hrename, self, hself, hsite⟩
  · rintro ⟨hrename, self, hself, hsite⟩
    exact ⟨rename, hrename, site, ⟨self, hself, hsite⟩, rfl, rfl⟩

/-- Steps list targets that lie below what is renamed. -/
theorem topLevel_of_mem_stepsAmong {site : ReferenceSite}
    (h : (rename, site) ∈ stepsAmong renames instances) :
    site.target.topLevel.1 = rename.old := by
  obtain ⟨-, _, -, _, _, -, htop, rfl⟩ := mem_stepsAmong_iff.1 h
  exact htop

/-- All steps that list a target are for one rename. -/
theorem Sound.eq_of_mem_stepsAmong (sound : Sound renames) (hrename : rename ∈ renames)
    {first : Rename} {source target : ElementId}
    (h : (first, ⟨source, path, target⟩) ∈ stepsAmong renames instances)
    (htop : target.topLevel.1 = rename.old) : first = rename :=
  sound.eq_of_old_eq hrename (mem_stepsAmong_iff.1 h).1
    ((topLevel_of_mem_stepsAmong h).symm.trans htop)

/-- All steps can move what they list. -/
theorem isSome_rebase_of_mem_stepsAmong {step : Rename × ReferenceSite}
    (h : step ∈ stepsAmong renames instances) :
    (step.2.target.rebase step.1.old step.1.new).isSome := by
  rw [Option.isSome_iff_ne_none, Ne, ElementId.rebase_eq_none_iff, not_not]
  exact topLevel_of_mem_stepsAmong h

/-- The steps for some renames come before those for later ones. -/
theorem stepsAmong_append (front back : List Rename) (instances : List Instance) :
    stepsAmong (front ++ back) instances =
      stepsAmong front instances ++ stepsAmong back instances :=
  List.flatMap_append

/-- A reference to something that is not renamed is left alone. -/
theorem followTarget_stepsAmong_eq_self {source target : ElementId}
    (h : target.topLevel.1 ∉ renames.map Rename.old) :
    followTarget source path (stepsAmong renames instances) target = (target, 0) := by
  refine followTarget_eq_self fun ⟨rename, site⟩ hstep hsite => h ?_
  have htop := topLevel_of_mem_stepsAmong hstep
  obtain rfl : site = ⟨source, path, target⟩ := hsite
  exact htop ▸ List.mem_map_of_mem (mem_stepsAmong_iff.1 hstep).1

/-- The step for a reference to what is renamed. -/
theorem mem_stepsAmong (hrename : rename ∈ renames) (hself : self ∈ instances)
    (hheld : (path, held) ∈ self.references) (htop : held.topTarget = rename.old) :
    (rename, ⟨self.id, path, held.target⟩) ∈ stepsAmong renames instances :=
  mem_stepsAmong_iff.2 ⟨hrename, self, hself, path, held, hheld, htop, rfl⟩

/-- A reference to what is renamed is redirected. -/
theorem followTarget_stepsAmong_pos (hrename : rename ∈ renames) (hself : self ∈ instances)
    (hheld : (path, held) ∈ self.references) (htop : held.topTarget = rename.old) :
    0 < (followTarget self.id path (stepsAmong renames instances) held.target).2 :=
  followTarget_pos (fun _ => isSome_rebase_of_mem_stepsAmong)
    (mem_stepsAmong hrename hself hheld htop)

/-! ## Interference -/

/-- Two instances with one identifier hold references at one path, a rename makes the target of the
one into that of the other, and the latter is renamed no earlier. Then the steps for the latter are
made on the former as well. -/
inductive Interferes (instances : List Instance) (renames : List Rename) : Prop
  /-- The reference `held` of `self` is redirected once more by the steps for `found`. -/
  | intro {i j : Nat} {self other : Instance} {path : ValuePath} {held found : Reference}
      {front back : List Rename} {rename later : Rename}
      (distinct : i ≠ j) (self_at : instances[i]? = some self)
      (other_at : instances[j]? = some other) (id_eq : other.id = self.id)
      (held_at : (path, held) ∈ self.references) (found_at : (path, found) ∈ other.references)
      (renames_eq : renames = front ++ rename :: back) (later_mem : later ∈ rename :: back)
      (held_top : held.topTarget = rename.old) (found_top : found.topTarget = later.old)
      (moved : held.target.rebase rename.old rename.new = some found.target) :
      Interferes instances renames

/-- Instances that share no identifier do not interfere. -/
theorem not_interferes_of_nodup (distinct : (instances.map Instance.id).Nodup) :
    ¬ Interferes instances renames := by
  rintro @⟨i, j, self, other, -, -, -, -, -, -, -, hij, hi, hj, hid, -, -, -, -, -, -, -⟩
  have hi' : (instances.map Instance.id)[i]? = some self.id := by rw [List.getElem?_map, hi]; rfl
  have hj' : (instances.map Instance.id)[j]? = some self.id := by
    rw [List.getElem?_map, hj, ← hid]
    rfl
  obtain ⟨hlt, -⟩ := List.getElem?_eq_some_iff.1 hi'
  exact hij ((List.getElem?_inj hlt distinct).1 (hi'.trans hj'.symm))

/-- The steps for other renames do not list what lies below the old identifier of a rename. -/
theorem ne_of_mem_stepsAmong (sound : Sound (front ++ rename :: back)) {source target : ElementId}
    (htop : target.topLevel.1 = rename.old) {step : Rename × ReferenceSite}
    (hstep : step ∈ stepsAmong (front ++ back) instances) : step.2 ≠ ⟨source, path, target⟩ := by
  obtain ⟨other, site⟩ := step
  rintro rfl
  have hother : other ∈ front ++ back := (mem_stepsAmong_iff.1 hstep).1
  have hold : other.old = rename.old := (topLevel_of_mem_stepsAmong hstep).symm.trans htop
  have hnodup := (List.perm_middle.map Rename.old).nodup_iff.1 sound.nodup
  exact (List.nodup_cons.1 hnodup).1 (hold ▸ List.mem_map_of_mem hother)

/-- The place of a reference is listed once for the instance that holds it. It is listed elsewhere
only for another instance. -/
theorem exists_stepsAmong_eq_append (sound : Sound (front ++ rename :: back))
    (wellFormed : self.WellFormed) (hheld : (path, held) ∈ self.references)
    (htop : held.topTarget = rename.old) (before behind : List Instance) :
    ∃ earlier later,
      stepsAmong (rename :: back) (before ++ self :: behind) =
        earlier ++ (rename, ⟨self.id, path, held.target⟩) :: later ∧
      ∀ step ∈ earlier ++ later, step.2 = ⟨self.id, path, held.target⟩ →
        ∃ other ∈ before ++ behind, step.2 ∈ ReferenceIndex.sitesTo rename.old other := by
  obtain ⟨front', back', hreferences, hbeside⟩ :=
    Instance.exists_append_of_mem_references wellFormed hheld
  have hsites := ReferenceIndex.sitesTo_eq_append hreferences
  rw [htop] at hsites
  refine ⟨(before.flatMap (ReferenceIndex.sitesTo rename.old) ++
      ReferenceIndex.sitesIn self.id rename.old front').map (rename, ·),
    (ReferenceIndex.sitesIn self.id rename.old back' ++
      behind.flatMap (ReferenceIndex.sitesTo rename.old)).map (rename, ·) ++
        stepsAmong back (before ++ self :: behind), by simp [stepsAmong, hsites], ?_⟩
  -- Neither other references of the instance nor steps for other renames list the place.
  have hown {found : List (ValuePath × Reference)} (hfound : found ⊆ front' ++ back')
      {site : ReferenceSite} (hsite : site ∈ ReferenceIndex.sitesIn self.id rename.old found) :
      site ≠ ⟨self.id, path, held.target⟩ := fun heq =>
    ReferenceIndex.path_ne_of_mem_sitesIn (fun placed hplaced => hbeside placed (hfound hplaced))
      hsite (congrArg ReferenceSite.path heq)
  have hrename {step : Rename × ReferenceSite}
      (hstep : step ∈ stepsAmong back (before ++ self :: behind)) :
      step.2 ≠ ⟨self.id, path, held.target⟩ :=
    ne_of_mem_stepsAmong sound htop
      (stepsAmong_append front back _ ▸ List.mem_append_right _ hstep)
  intro step hstep heq
  simp only [List.mem_append, List.mem_map, List.mem_flatMap] at hstep ⊢
  rcases hstep with ⟨site, ⟨other, hother, hsite⟩ | hsite, rfl⟩ |
    ⟨site, hsite | ⟨other, hother, hsite⟩, rfl⟩ | hstep
  · exact ⟨other, .inl hother, hsite⟩
  · exact absurd heq (hown (List.subset_append_left _ _) hsite)
  · exact absurd heq (hown (List.subset_append_right _ _) hsite)
  · exact ⟨other, .inr hother, hsite⟩
  · exact absurd heq (hrename hstep)

/-- A step that leaves a reference where it is is made once for each instance that has it. Without
interference there is one. -/
theorem followTarget_stepsAmong_eq_of_rebase_eq_self
    (sound : Sound (front ++ rename :: back)) (wellFormed : self.WellFormed)
    (h : ¬ Interferes instances (front ++ rename :: back)) (hself : self ∈ instances)
    (hheld : (path, held) ∈ self.references) (htop : held.topTarget = rename.old)
    (hmoved : held.target.rebase rename.old rename.new = some held.target) :
    followTarget self.id path (stepsAmong (rename :: back) instances) held.target =
      (held.target, 1) := by
  obtain ⟨i, hi⟩ := List.mem_iff_getElem?.1 hself
  obtain ⟨before, behind, rfl, rfl⟩ := exists_append_of_getElem?_eq_some hi
  obtain ⟨earlier, later, hsteps, hbeside⟩ :=
    exists_stepsAmong_eq_append sound wellFormed hheld htop before behind
  -- No other instance has the step too: it would interfere.
  have hne : ∀ step ∈ earlier ++ later, step.2 ≠ ⟨self.id, path, held.target⟩ := by
    intro step hstep heq
    obtain ⟨other, hother, hsite⟩ := hbeside step hstep heq
    obtain ⟨_, found, hfound, hfoundTop, heq'⟩ := ReferenceIndex.mem_sitesTo_iff.1 hsite
    obtain ⟨hid, rfl, htarget⟩ := ReferenceSite.mk.inj (heq.symm.trans heq')
    obtain ⟨j, hne, hj⟩ := exists_getElem?_of_mem_beside self hother
    exact h ⟨hne.symm, hi, hj, hid.symm, hheld, hfound, rfl, List.mem_cons_self, htop, hfoundTop,
      htarget ▸ hmoved⟩
  rw [hsteps, followTarget_append_cons
      (fun step hstep => hne step (List.mem_append_left _ hstep)) hmoved,
    followTarget_eq_self fun step hstep => hne step (List.mem_append_right _ hstep)]

/-- Without interference a reference to what is renamed is redirected once. -/
theorem followTarget_stepsAmong_eq (sound : Sound renames)
    (wellFormed : ∀ self ∈ instances, self.WellFormed) (h : ¬ Interferes instances renames)
    (hself : self ∈ instances) (hheld : (path, held) ∈ self.references) (hrename : rename ∈ renames)
    (htop : held.topTarget = rename.old)
    (hmoved : held.target.rebase rename.old rename.new = some moved) :
    followTarget self.id path (stepsAmong renames instances) held.target = (moved, 1) := by
  obtain ⟨front, back, rfl⟩ := List.append_of_mem hrename
  obtain ⟨name, hnew⟩ := sound.new_eq _ hrename
  obtain ⟨moved', hmoved', hcases⟩ := exists_rebase hnew htop
  obtain rfl : moved = moved' := by simpa [hmoved] using hmoved'
  have hfront : ∀ step ∈ stepsAmong front instances, step.2 ≠ ⟨self.id, path, held.target⟩ :=
    fun step hstep => ne_of_mem_stepsAmong sound htop
      (stepsAmong_append front back instances ▸ List.mem_append_left _ hstep)
  rw [stepsAmong_append, followTarget_append_of_forall_ne hfront]
  -- Either the rename leaves the target where it is, or the target is below the new identifier.
  rcases hcases with rfl | hbelow
  · rw [followTarget_stepsAmong_eq_of_rebase_eq_self sound (wellFormed _ hself) h hself hheld htop
      hmoved]
  · obtain ⟨before, first, behind, hsteps, hbefore⟩ := exists_first_step
      (mem_stepsAmong List.mem_cons_self hself hheld htop :
        (rename, _) ∈ stepsAmong (rename :: back) instances)
    obtain ⟨i, hi⟩ := List.mem_iff_getElem?.1 hself
    have hmem : (first, ⟨self.id, path, held.target⟩) ∈
        stepsAmong (front ++ rename :: back) instances := by
      rw [stepsAmong_append, hsteps]
      exact List.mem_append_right _ (List.mem_append_right _ List.mem_cons_self)
    obtain rfl := sound.eq_of_mem_stepsAmong hrename hmem htop
    -- A later step that lists the new target would be made for an instance that interferes.
    have hbehind : ∀ step ∈ behind, step.2 ≠ ⟨self.id, path, moved⟩ := by
      rintro ⟨later, site⟩ hstep rfl
      have hmem : (later, _) ∈ stepsAmong (first :: back) instances :=
        hsteps ▸ List.mem_append_right _ (List.mem_cons_of_mem _ hstep)
      obtain ⟨hlater, other, hother, _, found, hfound, hfoundTop, hsite⟩ :=
        mem_stepsAmong_iff.1 hmem
      obtain ⟨hid, rfl, rfl⟩ := ReferenceSite.mk.inj hsite
      obtain ⟨j, hj⟩ := List.mem_iff_getElem?.1 hother
      -- The same instance holds just one reference at the path, with the old target.
      have hij : i ≠ j := by
        rintro rfl
        obtain rfl : self = other := Option.some.inj (hi.symm.trans hj)
        obtain rfl := Instance.eq_of_mem_references (wellFormed _ hself) hheld hfound
        exact sound.new_ne _ hrename (hbelow.symm.trans htop)
      exact h ⟨hij, hi, hj, hid.symm, hheld, hfound, rfl, hlater, htop, hfoundTop, hmoved⟩
    rw [hsteps, followTarget_append_cons hbefore hmoved, followTarget_eq_self hbehind]

/-- A reference that a step leaves where it is is redirected more than once if a later instance
with the identifier holds the same at the path. -/
theorem one_lt_followTarget_stepsAmong_of_lt {i j : Nat} {a b : Instance} (hij : i < j)
    (ha : instances[i]? = some a) (hb : instances[j]? = some b) (hrename : rename ∈ renames)
    (sound : Sound renames) {site : ReferenceSite}
    (hsiteA : site ∈ ReferenceIndex.sitesTo rename.old a)
    (hsiteB : site ∈ ReferenceIndex.sitesTo rename.old b)
    (hmoved : site.target.rebase rename.old rename.new = some site.target) :
    1 < (followTarget site.source site.path (stepsAmong renames instances) site.target).2 := by
  obtain ⟨front, back, rfl⟩ := List.append_of_mem hrename
  obtain ⟨before, behind, rfl, rfl⟩ := exists_append_of_getElem?_eq_some ha
  have hbehind : b ∈ behind := mem_back_of_lt hb hij
  -- The step for the first instance is in one part of the steps, that for the second in the next.
  have hsteps : stepsAmong (front ++ rename :: back) (before ++ a :: behind) =
      (stepsAmong front (before ++ a :: behind) ++
        ((before ++ [a]).flatMap (ReferenceIndex.sitesTo rename.old)).map (rename, ·)) ++
      ((behind.flatMap (ReferenceIndex.sitesTo rename.old)).map (rename, ·) ++
        stepsAmong back (before ++ a :: behind)) := by
    simp [stepsAmong]
  have hfirst : (rename, site) ∈ stepsAmong front (before ++ a :: behind) ++
      ((before ++ [a]).flatMap (ReferenceIndex.sitesTo rename.old)).map (rename, ·) := by
    simp only [List.mem_append, List.mem_map, List.mem_flatMap]
    exact .inr ⟨site, ⟨a, .inr (List.mem_singleton_self a), hsiteA⟩, rfl⟩
  have hsecond : (rename, site) ∈
      (behind.flatMap (ReferenceIndex.sitesTo rename.old)).map (rename, ·) ++
        stepsAmong back (before ++ a :: behind) := by
    simp only [List.mem_append, List.mem_map, List.mem_flatMap]
    exact .inl ⟨site, ⟨b, hbehind, hsiteB⟩, rfl⟩
  have hmovable : ∀ step ∈ stepsAmong (front ++ rename :: back) (before ++ a :: behind),
      (step.2.target.rebase step.1.old step.1.new).isSome :=
    fun _ => isSome_rebase_of_mem_stepsAmong
  rw [hsteps] at hmovable ⊢
  refine one_lt_followTarget hmovable hfirst (fun first hmem => ?_) hsecond
  obtain rfl := sound.eq_of_mem_stepsAmong hrename (hsteps ▸ List.mem_append_left _ hmem)
    (ReferenceIndex.topLevel_of_mem_sitesTo hsiteA)
  exact hmoved

/-- With interference some reference to what is renamed is redirected more than once. -/
theorem Interferes.exists_one_lt (h : Interferes instances renames) (sound : Sound renames) :
    ∃ self ∈ instances, ∃ path held, (path, held) ∈ self.references ∧
      1 < (followTarget self.id path (stepsAmong renames instances) held.target).2 := by
  obtain @⟨i, j, self, other, path, held, found, front, back, rename, later, hij, hi, hj, hid,
    hheld, hfound, rfl, hlater, htop, hfoundTop, hmoved⟩ := h
  refine ⟨self, List.mem_of_getElem? hi, path, held, hheld, ?_⟩
  have hrename : rename ∈ front ++ rename :: back := List.mem_append_right _ List.mem_cons_self
  rcases List.mem_cons.1 hlater with rfl | hback
  · -- The target is below the old identifier after the step, so the step did not move it.
    obtain ⟨name, hnew⟩ := sound.new_eq _ hrename
    obtain ⟨moved, hmoved', hcases⟩ := exists_rebase hnew htop
    obtain rfl : found.target = moved := by simpa [hmoved] using hmoved'
    have hsame : found.target = held.target := by
      rcases hcases with hsame | hbelow
      · exact hsame
      · exact absurd (hbelow.symm.trans hfoundTop) (sound.new_ne _ hrename)
    have hself : (⟨self.id, path, held.target⟩ : ReferenceSite) ∈
        ReferenceIndex.sitesTo later.old self :=
      ReferenceIndex.mem_sitesTo_iff.2 ⟨path, held, hheld, htop, rfl⟩
    have hother : (⟨self.id, path, held.target⟩ : ReferenceSite) ∈
        ReferenceIndex.sitesTo later.old other :=
      ReferenceIndex.mem_sitesTo_iff.2 ⟨path, found, hfound, hfoundTop, by rw [hid, hsame]⟩
    rw [hsame] at hmoved
    rcases Nat.lt_or_gt_of_ne hij with hlt | hlt
    · exact one_lt_followTarget_stepsAmong_of_lt hlt hi hj hrename sound hself hother hmoved
    · exact one_lt_followTarget_stepsAmong_of_lt hlt hj hi hrename sound hother hself hmoved
  · -- The step for the later rename lists what the former step makes of the target.
    have hsteps : stepsAmong (front ++ rename :: back) instances =
        stepsAmong (front ++ [rename]) instances ++ stepsAmong back instances := by
      rw [← stepsAmong_append, List.append_assoc, List.singleton_append]
    have hfirst : (rename, ⟨self.id, path, held.target⟩) ∈
        stepsAmong (front ++ [rename]) instances :=
      mem_stepsAmong (List.mem_append_right _ (List.mem_singleton_self rename))
        (List.mem_of_getElem? hi) hheld htop
    have hsecond : (later, ⟨self.id, path, found.target⟩) ∈ stepsAmong back instances :=
      hid ▸ mem_stepsAmong hback (List.mem_of_getElem? hj) hfound hfoundTop
    have hmovable : ∀ step ∈ stepsAmong (front ++ rename :: back) instances,
        (step.2.target.rebase step.1.old step.1.new).isSome :=
      fun _ => isSome_rebase_of_mem_stepsAmong
    rw [hsteps] at hmovable ⊢
    refine one_lt_followTarget hmovable hfirst (fun first hmem => ?_) hsecond
    obtain rfl := sound.eq_of_mem_stepsAmong hrename (hsteps ▸ List.mem_append_left _ hmem) htop
    exact hmoved

end ElementCatalog.Rename
