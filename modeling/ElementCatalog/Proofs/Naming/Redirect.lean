import ElementCatalog.Naming.Resolve
import ElementCatalog.Proofs.Element.Place
import Mathlib.Algebra.BigOperators.Group.List.Basic
import Mathlib.Algebra.GroupWithZero.Nat

/-!
# Redirecting references

References are redirected in steps, each of which looks one place up in all elements. Seen from one
element the steps are independent of the other elements (`Rename.redirectAll_eq`), and seen from one
reference of an instance they are independent of the other references (`Rename.follow_ofInstance`).

## Main definitions

* `Rename.steps`: all steps, in the order in which they are made;
* `Rename.follow`: what the steps do to one element;
* `Rename.followTarget`: what the steps do to the target of one reference.
-/

namespace ElementCatalog.Rename

/-- The steps in which references are redirected: each place that the index lists, for one rename
after another. -/
def steps (renames : List Rename) (index : ReferenceIndex) : List (Rename × ReferenceSite) :=
  renames.flatMap fun rename => (index.referrers rename.old).map (rename, ·)

/-- An element after some steps, and how many of them redirected a reference in it. -/
def follow : List (Rename × ReferenceSite) → Element → Element × Nat
  | [], element => (element, 0)
  | (rename, site) :: rest, element =>
    match rename.redirectElement site element with
    | some changed => ((follow rest changed).1, (follow rest changed).2 + 1)
    | none => follow rest element

/-- The target of the reference at a place of an instance after some steps, and how many of them
redirected it. -/
def followTarget (source : ElementId) (path : ValuePath) :
    List (Rename × ReferenceSite) → ElementId → ElementId × Nat
  | [], target => (target, 0)
  | (rename, site) :: rest, target =>
    if site.source = source ∧ site.path = path ∧ site.target = target then
      match target.rebase rename.old rename.new with
      | some moved =>
        ((followTarget source path rest moved).1, (followTarget source path rest moved).2 + 1)
      | none => followTarget source path rest target
    else followTarget source path rest target

/-! ## One element among others -/

/-- Steps are made one after another. -/
theorem follow_append (front back : List (Rename × ReferenceSite)) (element : Element) :
    follow (front ++ back) element =
      ((follow back (follow front element).1).1,
        (follow front element).2 + (follow back (follow front element).1).2) := by
  induction front generalizing element with
  | nil => simp [follow]
  | cons step rest ih =>
    obtain ⟨rename, site⟩ := step
    rw [List.cons_append, follow, follow]
    split
    · next changed h =>
      rw [ih changed]
      simp only [Prod.mk.injEq, true_and]
      omega
    · next h => exact ih element

/-- What steps do to elements: each element follows them by itself. -/
def followAll (steps : List (Rename × ReferenceSite)) (elements : List Element) :
    List Element × Nat :=
  (elements.map fun element => (follow steps element).1,
    (elements.map fun element => (follow steps element).2).sum)

/-- Elements follow no steps by staying as they are. -/
theorem followAll_nil (elements : List Element) : followAll [] elements = (elements, 0) := by
  simp [followAll, follow]

/-- Elements follow steps one after another. -/
theorem followAll_append (front back : List (Rename × ReferenceSite)) (elements : List Element) :
    followAll (front ++ back) elements =
      ((followAll back (followAll front elements).1).1,
        (followAll front elements).2 + (followAll back (followAll front elements).1).2) := by
  simp only [followAll, follow_append, List.map_map, Function.comp_def, List.sum_map_add]

/-- Looking a place up in all elements is one step. -/
theorem redirectSite_eq (rename : Rename) (site : ReferenceSite) (elements : List Element) :
    rename.redirectSite site elements = followAll [(rename, site)] elements := by
  induction elements with
  | nil => rfl
  | cons element rest ih =>
    rw [redirectSite, ih]
    simp only [followAll, follow, List.map_cons, List.sum_cons]
    split <;> simp [*, Nat.add_comm]

/-- Work that counts what it does adds up over a list, if each part of it follows steps. -/
theorem foldl_eq_followAll {σ : Type} {work : σ → List Element → List Element × Nat}
    {stepsOf : σ → List (Rename × ReferenceSite)}
    (hwork : ∀ part elements, work part elements = followAll (stepsOf part) elements)
    (parts : List σ) (elements : List Element) (count : Nat) :
    parts.foldl
      (fun (elements, count) part =>
        let (elements, more) := work part elements
        (elements, count + more))
      (elements, count) =
    ((followAll (parts.flatMap stepsOf) elements).1,
      count + (followAll (parts.flatMap stepsOf) elements).2) := by
  induction parts generalizing elements count with
  | nil => simp [followAll_nil]
  | cons part rest ih =>
    rw [List.foldl_cons, ih, List.flatMap_cons, followAll_append, hwork]
    simp only [Nat.add_assoc]

/-- Elements are redirected by following all steps. -/
theorem redirectAll_eq (renames : List Rename) (index : ReferenceIndex) (elements : List Element) :
    redirectAll renames index elements = followAll (steps renames index) elements := by
  have hsites (rename : Rename) (elements : List Element) :
      rename.redirectSites (index.referrers rename.old) elements =
        followAll ((index.referrers rename.old).map (rename, ·)) elements := by
    rw [redirectSites, foldl_eq_followAll (rename.redirectSite_eq ·), Nat.zero_add,
      List.map_eq_flatMap]
  rw [redirectAll, foldl_eq_followAll hsites, Nat.zero_add, steps]

/-! ## One reference among others -/

/-- A change that redirects a reference finds the listed target and keeps the snapshot. -/
theorem rebaseReference_eq_some {rename : Rename} {target : ElementId} {part new : Value}
    (h : rename.rebaseReference target part = some new) :
    ∃ snapshot moved, part = (Reference.mk target snapshot).toValue ∧
      target.rebase rename.old rename.new = some moved ∧
      new = (Reference.mk moved snapshot).toValue := by
  match part with
  | .reference held snapshot =>
    rw [rebaseReference] at h
    split at h
    · next heq =>
      subst heq
      obtain ⟨moved, hmoved, rfl⟩ := Option.map_eq_some_iff.1 h
      exact ⟨snapshot, moved, rfl, hmoved, rfl⟩
    · cases h
  | .null | .bool _ | .number _ | .string _ | .list _ | .map _ => cases h

variable {self : Instance} {rename : Rename} {site : ReferenceSite}

/-- A step that redirects a reference in an element finds the listed one in an instance. -/
theorem redirectElement_ofInstance_eq_some {changed : Element}
    (h : rename.redirectElement site (.ofInstance self) = some changed) :
    ∃ after snapshot moved, changed = .ofInstance after ∧ self.id = site.source ∧
      site.target.rebase rename.old rename.new = some moved ∧
      self.Replaced site.path (Reference.mk site.target snapshot).toValue
        (Reference.mk moved snapshot).toValue after := by
  rw [redirectElement] at h
  split at h
  · next hsource =>
    obtain ⟨after, hupdate, rfl⟩ := Option.map_eq_some_iff.1 h
    obtain ⟨part, new, replaced, hchange⟩ := Instance.updateAt?_eq_some_iff.1 hupdate
    obtain ⟨snapshot, moved, rfl, hmoved, rfl⟩ := rebaseReference_eq_some hchange
    exact ⟨after, snapshot, moved, rfl, hsource, hmoved, replaced⟩
  · cases h

/-- A step that redirects no reference in an instance does not find the listed one, or cannot move
it. -/
theorem rebase_eq_none_of_redirectElement_eq_none (wellFormed : self.WellFormed)
    (h : rename.redirectElement site (.ofInstance self) = none) (hsource : site.source = self.id)
    {reference : Reference} (hmem : (site.path, reference) ∈ self.references)
    (htarget : site.target = reference.target) :
    reference.target.rebase rename.old rename.new = none := by
  rw [Option.eq_none_iff_forall_ne_some]
  intro moved hmoved
  obtain ⟨after, replaced⟩ := Instance.exists_replaced wellFormed hmem
    (Reference.mk moved reference.snapshot).toValue
  have hupdate : self.updateAt? (rename.rebaseReference site.target) site.path = some after :=
    Instance.updateAt?_eq_some_iff.2 ⟨_, _, replaced, by
      simp [Reference.toValue, rebaseReference, htarget, hmoved]⟩
  rw [redirectElement, if_pos hsource.symm, hupdate] at h
  cases h

/-- An instance stays one with its identifier whatever steps it follows. -/
theorem exists_follow_ofInstance (self : Instance) (steps : List (Rename × ReferenceSite)) :
    ∃ after, (follow steps (.ofInstance self)).1 = .ofInstance after ∧ after.id = self.id := by
  induction steps generalizing self with
  | nil => exact ⟨self, rfl, rfl⟩
  | cons step rest ih =>
    obtain ⟨rename, site⟩ := step
    rw [follow]
    split
    · next changed h =>
      obtain ⟨after, _, _, rfl, _, _, replaced⟩ := redirectElement_ofInstance_eq_some h
      obtain ⟨final, hfollow, hid⟩ := ih after
      exact ⟨final, hfollow, hid.trans replaced.id_eq⟩
    · exact ih self

/-- A step at another place does not concern a reference. -/
theorem followTarget_cons_of_ne {source : ElementId} {path : ValuePath} {target : ElementId}
    {rest : List (Rename × ReferenceSite)} (h : site.path ≠ path) :
    followTarget source path ((rename, site) :: rest) target =
      followTarget source path rest target := by
  rw [followTarget, if_neg fun hall => h hall.2.1]

/-- A step at the place of a reference with the listed target moves it. -/
theorem followTarget_cons_of_eq {moved : ElementId} (site : ReferenceSite)
    (rest : List (Rename × ReferenceSite))
    (hmoved : site.target.rebase rename.old rename.new = some moved) :
    followTarget site.source site.path ((rename, site) :: rest) site.target =
      ((followTarget site.source site.path rest moved).1,
        (followTarget site.source site.path rest moved).2 + 1) := by
  rw [followTarget, if_pos ⟨rfl, rfl, rfl⟩, hmoved]

/-- A step that cannot move the listed target does not concern a reference. -/
theorem followTarget_cons_of_rebase_eq_none {source target : ElementId} {path : ValuePath}
    {rest : List (Rename × ReferenceSite)}
    (h : site.source = source → site.path = path → site.target = target →
      target.rebase rename.old rename.new = none) :
    followTarget source path ((rename, site) :: rest) target =
      followTarget source path rest target := by
  rw [followTarget]
  split
  · next hall => rw [h hall.1 hall.2.1 hall.2.2]
  · rfl

/-- A reference with its target replaced by what steps make of it. -/
def followReference (source : ElementId) (steps : List (Rename × ReferenceSite))
    (placed : ValuePath × Reference) : ValuePath × Reference :=
  (placed.1, { placed.2 with target := (followTarget source placed.1 steps placed.2.target).1 })

/-- How many steps redirect some references. -/
def followCount (source : ElementId) (steps : List (Rename × ReferenceSite))
    (references : List (ValuePath × Reference)) : Nat :=
  (references.map fun placed => (followTarget source placed.1 steps placed.2.target).2).sum

/-- Steps that do not concern references leave them to the steps that follow. -/
theorem follow_eq_of_forall_mem (source : ElementId) (step : Rename × ReferenceSite)
    (rest : List (Rename × ReferenceSite)) (references : List (ValuePath × Reference))
    (h : ∀ placed ∈ references,
      followTarget source placed.1 (step :: rest) placed.2.target =
        followTarget source placed.1 rest placed.2.target) :
    followCount source (step :: rest) references = followCount source rest references ∧
      references.map (followReference source (step :: rest)) =
        references.map (followReference source rest) := by
  constructor
  · exact congrArg List.sum (List.map_congr_left fun placed hplaced => by rw [h placed hplaced])
  · exact List.map_congr_left fun placed hplaced => by
      rw [followReference, h placed hplaced, followReference]

/-- Each reference of an instance follows the steps by itself, and nothing else of the instance's
identifier and references changes. -/
theorem follow_ofInstance (wellFormed : self.WellFormed) (steps : List (Rename × ReferenceSite)) :
    ∃ after,
      follow steps (.ofInstance self) =
        (.ofInstance after, followCount self.id steps self.references) ∧
      after.id = self.id ∧ after.WellFormed ∧
      after.references = self.references.map (followReference self.id steps) := by
  induction steps generalizing self with
  | nil =>
    refine ⟨self, ?_, rfl, wellFormed, (List.map_id'' (fun _ => rfl) _).symm⟩
    simp [follow, followCount, followTarget]
  | cons step rest ih =>
    obtain ⟨rename, site⟩ := step
    rw [follow]
    split
    · next changed h =>
      -- The step redirects the reference at its place, and the others follow.
      obtain ⟨after, snapshot, moved, rfl, hsource, hmoved, replaced⟩ :=
        redirectElement_ofInstance_eq_some h
      obtain ⟨front, back, hself, hafter, hbeside⟩ := replaced.references_reference wellFormed
      obtain ⟨final, hfollow, hid, hwellFormed, hfinal⟩ := ih
        (replaced.wellFormed wellFormed fun hpart => by
          cases hpart with
          | reference held => exact .reference held)
      rw [replaced.id_eq] at hfollow hid hfinal
      -- Only the reference at the place is concerned.
      have hfront := follow_eq_of_forall_mem self.id (rename, site) rest front
        fun placed hplaced => followTarget_cons_of_ne fun heq =>
          hbeside placed (List.mem_append_left _ hplaced) heq.symm
      have hback := follow_eq_of_forall_mem self.id (rename, site) rest back
        fun placed hplaced => followTarget_cons_of_ne fun heq =>
          hbeside placed (List.mem_append_right _ hplaced) heq.symm
      have hplace := followTarget_cons_of_eq site rest hmoved
      rw [← hsource] at hplace
      refine ⟨final, ?_, hid, hwellFormed, ?_⟩
      · have hcount : followCount self.id ((rename, site) :: rest) self.references =
            followCount self.id rest after.references + 1 := by
          rw [hself, hafter]
          simp only [followCount, List.map_append, List.map_cons, List.sum_append, List.sum_cons,
            hplace] at hfront hback ⊢
          omega
        rw [hfollow, hcount]
      · rw [hfinal, hself, hafter]
        simp only [List.map_append, List.map_cons, hfront.2, hback.2, followReference, hplace]
    · next h =>
      -- The step redirects nothing, so no reference is concerned.
      have hskip := follow_eq_of_forall_mem self.id (rename, site) rest self.references
        fun placed hplaced => followTarget_cons_of_rebase_eq_none fun hsource hpath htarget =>
          rebase_eq_none_of_redirectElement_eq_none wellFormed h hsource (hpath ▸ hplaced) htarget
      rw [hskip.1, hskip.2]
      exact ih wellFormed

/-- A type definition follows no step. -/
theorem follow_ofType (definition : TypeDefinition) (steps : List (Rename × ReferenceSite)) :
    follow steps (.ofType definition) = (.ofType definition, 0) := by
  induction steps with
  | nil => rfl
  | cons step rest ih => exact ih

end ElementCatalog.Rename
