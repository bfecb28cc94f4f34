import ElementCatalog.Naming.ReferenceIndex
import ElementCatalog.Proofs.Lookup
import Mathlib.Data.List.Induction

/-!
# What a reference index lists

An index groups the places of references by what they refer to (`ReferenceIndex.buckets_build`). For
each of the targets that it is built for, it lists the places of all references to the target or to
something below it, in the order in which instances hold them (`ReferenceIndex.referrers_build`).
-/

namespace ElementCatalog.ReferenceIndex

/-- The places of those among some references of an instance that refer to a target or to something
below it. -/
def sitesIn (source target : ElementId) (found : List (ValuePath × Reference)) :
    List ReferenceSite :=
  (found.filter (·.2.topTarget == target)).map fun (path, reference) =>
    ⟨source, path, reference.target⟩

/-- The places of an instance that refer to a target or to something below it. -/
def sitesTo (target : ElementId) (self : Instance) : List ReferenceSite :=
  sitesIn self.id target self.references

/-! ## Grouping -/

/-- Places grouped by targets, which come in the order in which they were first seen. -/
def grouped (entries : List (ElementId × ReferenceSite)) : List (ElementId × List ReferenceSite) :=
  (entries.map Prod.fst).eraseDups.map fun target =>
    (target, (entries.filter (·.1 == target)).map Prod.snd)

/-- No entry has a target that was not seen. -/
theorem filter_eq_nil_of_not_mem {entries : List (ElementId × ReferenceSite)} {target : ElementId}
    (h : target ∉ entries.map Prod.fst) : entries.filter (·.1 == target) = [] := by
  refine List.filter_eq_nil_iff.2 fun entry hentry heq => h ?_
  exact List.mem_map.2 ⟨entry, hentry, by simpa using heq⟩

/-- One more place stands behind the others of its target, in a new bucket if there are none. -/
theorem addSite_map (target : ElementId) (site : ReferenceSite)
    (places : ElementId → List ReferenceSite) {targets : List ElementId}
    (distinct : targets.Nodup) :
    addSite target site (targets.map fun other => (other, places other)) =
      (targets.map fun other => (other, places other ++ if target = other then [site] else [])) ++
        if target ∈ targets then [] else [(target, [site])] := by
  induction targets with
  | nil => rfl
  | cons first rest ih =>
    obtain ⟨hfirst, hrest⟩ := List.nodup_cons.1 distinct
    rw [List.map_cons, List.map_cons, addSite]
    by_cases heq : first = target
    · subst heq
      -- No other bucket is that of the target.
      have hothers : (rest.map fun other =>
          (other, places other ++ if first = other then [site] else [])) =
            rest.map fun other => (other, places other) := by
        refine List.map_congr_left fun other hother => ?_
        rw [if_neg (fun heq : first = other => hfirst (heq ▸ hother)), List.append_nil]
      simp [hothers]
    · rw [if_neg heq, ih hrest]
      simp [Ne.symm heq]

/-- One more entry adds its place to the groups. -/
theorem grouped_concat (entries : List (ElementId × ReferenceSite)) (target : ElementId)
    (site : ReferenceSite) :
    grouped (entries ++ [(target, site)]) = addSite target site (grouped entries) := by
  have hplaces (other : ElementId) :
      ((entries ++ [(target, site)]).filter (·.1 == other)).map Prod.snd =
        (entries.filter (·.1 == other)).map Prod.snd ++ if target = other then [site] else [] := by
    by_cases heq : target = other <;> simp [heq]
  rw [grouped, grouped, addSite_map _ _ _ (nodup_eraseDups _)]
  simp only [hplaces, List.map_append, List.map_cons, List.map_nil, List.eraseDups_append,
    List.cons_removeAll, List.nil_removeAll, List.mem_eraseDups]
  by_cases hmem : target ∈ entries.map Prod.fst
  · simp [hmem]
  · -- The target is seen for the first time, so it has no other place.
    simp [hmem, filter_eq_nil_of_not_mem hmem, List.eraseDups_cons]

/-- An index groups the places of the references that instances hold to its targets. -/
theorem buckets_build (instances : List Instance) (targets : Std.ExtTreeSet ElementId) :
    (build instances targets).buckets =
      grouped ((instances.flatMap sitesOf).filter (·.1 ∈ targets)) := by
  have hfoldl (entries : List (ElementId × ReferenceSite)) :
      entries.foldl (fun buckets entry => addSite entry.1 entry.2 buckets) [] =
        grouped entries := by
    induction entries using List.reverseRecOn with
    | nil => rfl
    | append_singleton entries entry ih =>
      rw [List.foldl_concat, ih, grouped_concat]
  rw [← hfoldl, List.foldl_filter]
  simp only [build, decide_eq_true_eq]

/-- The places that are found in groups under a target are those of its entries. -/
theorem lookup_grouped (entries : List (ElementId × ReferenceSite)) (target : ElementId) :
    ((grouped entries).lookup target).getD [] =
      (entries.filter (·.1 == target)).map Prod.snd := by
  by_cases hmem : target ∈ entries.map Prod.fst
  · have distinct : ((grouped entries).map Prod.fst).Nodup := by
      simpa [grouped, Function.comp_def] using
        nodup_eraseDups (entries.map Prod.fst)
    have hbucket : (target, (entries.filter (·.1 == target)).map Prod.snd) ∈ grouped entries :=
      List.mem_map.2 ⟨target, List.mem_eraseDups.2 hmem, rfl⟩
    rw [lookup_eq_some_of_mem distinct hbucket, Option.getD_some]
  · have hnone : (grouped entries).lookup target = none := by
      rw [List.lookup_eq_none_iff]
      intro bucket hbucket
      obtain ⟨other, hother, rfl⟩ := List.mem_map.1 hbucket
      apply bne_iff_ne.2
      rintro rfl
      exact hmem (List.mem_eraseDups.1 hother)
    rw [hnone, filter_eq_nil_of_not_mem hmem]
    rfl

/-! ## The places of a target -/

/-- An index lists the places of all references to one of its targets, instance after instance. -/
theorem referrers_build {targets : Std.ExtTreeSet ElementId} {target : ElementId}
    (h : target ∈ targets) (instances : List Instance) :
    (build instances targets).referrers target = instances.flatMap (sitesTo target) := by
  have hsites (self : Instance) :
      ((sitesOf self).filter (·.1 == target)).map Prod.snd = sitesTo target self := by
    rw [sitesOf, List.filter_map, List.map_map, sitesTo, sitesIn]
    rfl
  have htargets : ((instances.flatMap sitesOf).filter (·.1 ∈ targets)).filter (·.1 == target) =
      (instances.flatMap sitesOf).filter (·.1 == target) := by
    rw [List.filter_filter]
    refine List.filter_congr fun entry _ => ?_
    by_cases heq : entry.1 = target <;> simp [heq, h]
  rw [referrers, buckets_build, lookup_grouped, htargets, List.filter_flatMap, List.map_flatMap]
  simp only [hsites]

/-- The places that refer to a target are those of references to it or to something below it. -/
theorem mem_sitesTo_iff {target : ElementId} {self : Instance} {site : ReferenceSite} :
    site ∈ sitesTo target self ↔ ∃ path reference, (path, reference) ∈ self.references ∧
      reference.topTarget = target ∧ site = ⟨self.id, path, reference.target⟩ := by
  simp only [sitesTo, sitesIn, List.mem_map, List.mem_filter, Prod.exists, beq_iff_eq, and_assoc,
    eq_comm (a := site)]

/-- A place that refers to a target lists it or something below it. -/
theorem topLevel_of_mem_sitesTo {target : ElementId} {self : Instance} {site : ReferenceSite}
    (h : site ∈ sitesTo target self) : site.target.topLevel.1 = target := by
  obtain ⟨_, _, -, htop, rfl⟩ := mem_sitesTo_iff.1 h
  exact htop

/-- A reference to a target has its place in front of those of later references and behind those of
earlier ones. -/
theorem sitesTo_eq_append {self : Instance} {front back : List (ValuePath × Reference)}
    {path : ValuePath} {reference : Reference}
    (h : self.references = front ++ (path, reference) :: back) :
    sitesTo reference.topTarget self =
      sitesIn self.id reference.topTarget front ++
        ⟨self.id, path, reference.target⟩ :: sitesIn self.id reference.topTarget back := by
  simp [sitesTo, sitesIn, h]

/-- References with other paths have their places at other paths. -/
theorem path_ne_of_mem_sitesIn {source target : ElementId} {path : ValuePath}
    {found : List (ValuePath × Reference)} (h : ∀ placed ∈ found, placed.1 ≠ path)
    {site : ReferenceSite} (hsite : site ∈ sitesIn source target found) : site.path ≠ path := by
  obtain ⟨placed, hplaced, rfl⟩ := List.mem_map.1 hsite
  exact h placed (List.mem_filter.1 hplaced).1

end ElementCatalog.ReferenceIndex
