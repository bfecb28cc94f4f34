import ElementCatalog.Proofs.Element.RoundTrip
import ElementCatalog.Proofs.Naming.Blank
import ElementCatalog.Proofs.Naming.Ended

/-!
# Naming what was read

Naming invents identifiers and moves targets, and all of them have written forms again: names have
no dots, and what lies below an instance moves with its parts. So elements that can have been read
are named as elements that can have been read (`NamingConfig.loaded_rename`). No value becomes a map
or ceases to be one, so a map looks like a reference after naming exactly if it did before
(`NamingConfig.forall_not_holdsReferenceMap_rename`).
-/

namespace ElementCatalog

open Dotted (DotFree)

namespace ElementId

variable {id source target moved : ElementId}

/-- The last part of an identifier with a written form is one segment. -/
theorem IsWritable.dotFree_name (h : id.IsWritable) : DotFree id.name := by
  rw [name]
  cases hlast : id.parts.getLast? with
  | none => exact h.typeName_dotFree
  | some part => exact h.parts_dotFree part (List.mem_of_getLast? hlast)

/-- An instance beside one with a written form has one if its name is one segment. -/
theorem IsWritable.ofInstance (h : id.IsWritable) {name : String} (hname : DotFree name) :
    (ElementId.ofInstance id.adapter id.typeName name).IsWritable where
  adapter_ne_empty := h.adapter_ne_empty
  typeName_ne_empty := h.typeName_ne_empty
  adapter_dotFree := h.adapter_dotFree
  typeName_dotFree := h.typeName_dotFree
  parts_dotFree := by simpa [ElementId.ofInstance] using hname
  parts_eq_nil_iff := by simp [ElementId.ofInstance]

/-- What is moved below an identifier with a written form has one if it had one before. -/
theorem IsWritable.rebase (h : id.IsWritable) (htarget : target.IsWritable)
    (hmoved : id.rebase source target = some moved) : moved.IsWritable := by
  rw [ElementId.rebase] at hmoved
  split at hmoved
  · cases hmoved
  split at hmoved
  · next hinside =>
    obtain rfl := Option.some.inj hmoved
    by_cases hpath : id.topLevel.2 = []
    · rwa [hpath, nested_nil]
    · -- What lies below an instance are its further parts.
      have hinst : id.kind = .inst := hinside.resolve_right hpath
      obtain ⟨first, rest, hfirst⟩ : ∃ first rest, id.parts = first :: rest :=
        List.ne_nil_iff_exists_cons.1 fun hparts =>
          absurd (hinst.symm.trans (h.parts_eq_nil_iff.1 hparts)) (by decide)
      have hrest : id.topLevel.2 = rest := by
        rw [topLevel, hinst, hfirst]
      refine ⟨htarget.adapter_ne_empty, htarget.typeName_ne_empty, htarget.adapter_dotFree,
        htarget.typeName_dotFree, fun part hpart => ?_, ?_⟩
      · rcases List.mem_append.1 hpart with hpart | hpart
        · exact htarget.parts_dotFree part hpart
        · exact h.parts_dotFree part (hfirst ▸ List.mem_cons_of_mem first (hrest ▸ hpart))
      · by_cases htype : target.kind = .type <;> simp [nested, hpath, htype]
  · obtain rfl := Option.some.inj hmoved
    exact ⟨htarget.adapter_ne_empty, htarget.typeName_ne_empty, htarget.adapter_dotFree,
      htarget.typeName_dotFree, h.parts_dotFree, h.parts_eq_nil_iff⟩

end ElementId

/-- The name of an instance is one segment if the last part of its identifier is. -/
theorem Composition.dotFree_name {nameOf : Reference → String} {rules : NamingRules}
    {self : Instance} (h : DotFree self.id.name) : DotFree (name nameOf rules self) := by
  rw [name]
  cases husable : usable? (compose nameOf rules self) with
  | none => exact h
  | some name => exact separator_not_mem_of_usable?_eq_some husable

/-- A target with a written form is moved to one by steps whose renames lead to such
identifiers. -/
theorem Rename.isWritable_followTarget {source : ElementId} {path : ValuePath}
    {steps : List (Rename × ReferenceSite)} (hsteps : ∀ step ∈ steps, step.1.new.IsWritable)
    {target : ElementId} (h : target.IsWritable) :
    (followTarget source path steps target).1.IsWritable := by
  induction steps generalizing target with
  | nil => exact h
  | cons step rest ih =>
    obtain ⟨hstep, hrest⟩ := List.forall_mem_cons.1 hsteps
    rw [followTarget]
    split
    · split
      · next moved hmoved => exact ih hrest (h.rebase hstep hmoved)
      · exact ih hrest h
    · exact ih hrest h

namespace NamingConfig

variable {config : NamingConfig} {elements : List Element} {self : Instance}

/-- The final identifier of an instance has a written form if the one before it has. -/
theorem isWritable_finalId (hself : self ∈ instancesOf elements) (h : self.id.IsWritable) :
    ((config.batchOf elements).plan.names.finalId self).IsWritable := by
  cases hname : (config.batchOf elements).plan.names[self.id]? with
  | none => rwa [NameTable.finalId_eq_self hname]
  | some name =>
    obtain ⟨horder, hheld⟩ :=
      Batch.isSome_getElem?_plan_names_iff.1 (Option.isSome_iff_exists.2 ⟨name, hname⟩)
    have hgiven := Batch.getElem?_plan_names_eq_some
      (Batch.mem_plan_order_of_id_mem hself horder) hheld
    obtain rfl := Option.some.inj (hname.symm.trans hgiven)
    rw [NameTable.finalId_eq_idWith hname]
    exact h.ofInstance (Composition.dotFree_name h.dotFree_name)

/-- The new identifiers of renames have written forms if the instances' identifiers have. -/
theorem isWritable_of_mem_renamesOf
    (writable : ∀ self ∈ instancesOf elements, self.id.IsWritable) {rename : Rename}
    (h : rename ∈ config.renamesOf elements) : rename.new.IsWritable := by
  obtain ⟨self, hself, -, rfl⟩ := NamingPlan.mem_renames_iff.1 h
  exact isWritable_finalId hself (writable self hself)

/-- The steps of naming move targets with written forms to targets with written forms. -/
theorem isWritable_followTarget_stepsOf
    (writable : ∀ self ∈ instancesOf elements, self.id.IsWritable) (source : ElementId)
    (path : ValuePath) {target : ElementId} (h : target.IsWritable) :
    (Rename.followTarget source path (config.stepsOf elements) target).1.IsWritable := by
  refine Rename.isWritable_followTarget (fun step hstep => ?_) h
  rw [stepsOf_eq] at hstep
  exact isWritable_of_mem_renamesOf writable (Rename.mem_stepsAmong_iff.1 hstep).1

variable {room : Nat}

/-- A loaded instance among loaded ones becomes a loaded one. -/
theorem loaded_endedOf (loaded : ∀ self ∈ instancesOf elements, self.Loaded room)
    (hself : self ∈ instancesOf elements) : (config.endedOf elements self).Loaded room := by
  -- Targets are moved by the steps, and these know new identifiers of instances only.
  have moves (start : Section) : Value.MovesReadable fun path target =>
      (Rename.followTarget self.id ⟨start, path⟩ (config.stepsOf elements) target).1 := by
    intro path target htarget
    rw [ElementId.parse_fullName_iff] at htarget ⊢
    exact isWritable_followTarget_stepsOf (fun self hself => (loaded self hself).isWritable)
      self.id ⟨start, path⟩ htarget
  exact ⟨isWritable_finalId hself (loaded self hself).isWritable,
    (loaded self hself).value.retarget (moves .value),
    (loaded self hself).annotations.retarget (moves .annotations)⟩

/-- In what an instance becomes a map looks like a reference exactly if one does in the instance. -/
theorem forall_not_holdsReferenceMap_endedOf :
    (∀ value ∈ (Element.ofInstance (config.endedOf elements self)).values,
        ¬ value.HoldsReferenceMap) ↔
      ∀ value ∈ (Element.ofInstance self).values, ¬ value.HoldsReferenceMap := by
  have hsplit (contents : Instance) :
      (∀ value ∈ (Element.ofInstance contents).values, ¬ value.HoldsReferenceMap) ↔
        ¬ (∃ member ∈ contents.value, member.2.HoldsReferenceMap) ∧
          ¬ ∃ member ∈ contents.annotations, member.2.HoldsReferenceMap := by
    simp only [Element.values, List.forall_mem_map, List.forall_mem_append, not_exists, not_and]
  rw [hsplit, hsplit]
  exact and_congr (not_congr (Value.exists_holdsReferenceMap_retargetMembers _ _))
    (not_congr (Value.exists_holdsReferenceMap_retargetMembers _ _))

/-- Loaded elements are loaded after naming. -/
theorem loaded_rename (loaded : ∀ element ∈ elements, element.Loaded room) :
    ∀ element ∈ (config.rename elements).1, element.Loaded room := by
  have hinstances : ∀ self ∈ instancesOf elements, self.Loaded room := by
    intro self hself
    obtain ⟨element, hmem, hinstance⟩ := List.mem_filterMap.1 hself
    cases element with
    | ofType definition => cases hinstance
    | ofInstance contents => exact Option.some.inj hinstance ▸ loaded _ hmem
  -- All renames together change each element by itself.
  rw [rename_fst_eq_map fun self hself => (hinstances self hself).wellFormed]
  refine List.forall_mem_map.2 fun element helement => ?_
  cases element with
  | ofType definition => exact loaded _ helement
  | ofInstance contents =>
    exact loaded_endedOf hinstances (List.mem_filterMap.2 ⟨_, helement, rfl⟩)

/-- After naming, a map in a value looks like a reference exactly if one did before. -/
theorem forall_not_holdsReferenceMap_rename
    (wellFormed : ∀ self ∈ instancesOf elements, self.WellFormed) :
    (∀ element ∈ (config.rename elements).1, ∀ value ∈ element.values,
        ¬ value.HoldsReferenceMap) ↔
      ∀ element ∈ elements, ∀ value ∈ element.values, ¬ value.HoldsReferenceMap := by
  rw [rename_fst_eq_map wellFormed, List.forall_mem_map]
  refine forall₂_congr fun element _ => ?_
  cases element with
  | ofType definition => rfl
  | ofInstance contents => exact forall_not_holdsReferenceMap_endedOf

end NamingConfig

end ElementCatalog
