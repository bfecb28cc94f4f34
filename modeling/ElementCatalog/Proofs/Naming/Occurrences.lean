import ElementCatalog.Element.Graph
import ElementCatalog.Proofs.Element.Walk
import ElementCatalog.Proofs.Naming.ReferenceIndex

/-!
# What a reference index says of instances

An index says of instances where they refer to its targets: all of the places, each once, and in the
order of the instances and of the places in each (`ReferenceIndex.indexes_build`). Instances can
share an identifier, so an occurrence of a reference is known by the position of its instance.

## Main definitions

* `Occurrence`: a reference at a place in one of several instances;
* `Occurrence.Lists`: all occurrences of references to wanted targets, each once and in order;
* `ReferenceIndex.Indexes`: what an index says of instances.
-/

namespace ElementCatalog

/-- A reference at a place in one of several instances. -/
structure Occurrence where
  /-- The position of the instance. -/
  position : Nat
  /-- The instance. -/
  holder : Instance
  /-- The place in the instance. -/
  path : ValuePath
  /-- The reference. -/
  reference : Reference

namespace Occurrence

variable {instances : List Instance} {wanted : ElementId → Prop}

/-- The top-level element that the reference leads into. -/
def target (o : Occurrence) : ElementId :=
  o.reference.topTarget

/-- The instance is the one at its position, and it holds the reference at the place. -/
def IsAmong (instances : List Instance) (o : Occurrence) : Prop :=
  instances[o.position]? = some o.holder ∧ o.holder.Holds o.path o.reference

/-- One occurrence comes before another: its instance does, or its place in the same instance. -/
def Before (a b : Occurrence) : Prop :=
  a.position < b.position ∨ a.position = b.position ∧ a.holder.Precedes a.path b.path

/-- What an index notes of an occurrence. -/
def site (o : Occurrence) : ReferenceSite :=
  ⟨o.holder.id, o.path, o.reference.target⟩

/-- The occurrences of references to wanted targets are listed. -/
structure Lists (instances : List Instance) (wanted : ElementId → Prop) (found : List Occurrence) :
    Prop where
  /-- Exactly these occurrences are listed. -/
  mem_iff : ∀ o, o ∈ found ↔ o.IsAmong instances ∧ wanted o.target
  /-- No occurrence is listed twice. -/
  nodup : found.Nodup
  /-- The occurrences come in their order. -/
  ordered : found.Pairwise Before

/-! ## All occurrences -/

/-- The occurrences of all references, instance after instance. -/
def all (instances : List Instance) : List Occurrence :=
  instances.zipIdx.flatMap fun (holder, position) =>
    holder.references.map fun (path, reference) => ⟨position, holder, path, reference⟩

/-- All occurrences are those among the instances. -/
theorem mem_all_iff {o : Occurrence} : o ∈ all instances ↔ o.IsAmong instances := by
  obtain ⟨position, holder, path, reference⟩ := o
  simp only [all, IsAmong, List.mem_flatMap, List.mem_map, Prod.exists, mk.injEq,
    List.mem_zipIdx_iff_getElem?, ← Instance.mem_references_iff_holds]
  constructor
  · rintro ⟨_, _, hholder, _, _, hmem, rfl, rfl, rfl, rfl⟩
    exact ⟨hholder, hmem⟩
  · rintro ⟨hholder, hmem⟩
    exact ⟨holder, position, hholder, path, reference, hmem, rfl, rfl, rfl, rfl⟩

/-- All occurrences come in their order. -/
theorem pairwise_all (instances : List Instance) : (all instances).Pairwise Before := by
  refine List.pairwise_flatMap.2 ⟨?_, ?_⟩
  · -- In one instance the places come in order.
    rintro ⟨holder, position⟩ -
    exact List.pairwise_map.2 (holder.pairwise_references.imp fun h => .inr ⟨rfl, h⟩)
  · have hpositions : (instances.zipIdx.map Prod.snd).Pairwise (· < ·) := by
      rw [List.zipIdx_map_snd]
      exact List.pairwise_lt_range'
    refine (List.pairwise_map.1 hpositions).imp fun {a b} hlt x hx y hy => .inl ?_
    obtain ⟨_, -, rfl⟩ := List.mem_map.1 hx
    obtain ⟨_, -, rfl⟩ := List.mem_map.1 hy
    exact hlt

/-- Among well-formed instances no occurrence comes before itself. -/
theorem IsAmong.not_before_self (wellFormed : ∀ self ∈ instances, self.WellFormed) {o : Occurrence}
    (h : o.IsAmong instances) : ¬ o.Before o := by
  rintro (hlt | ⟨-, hbefore⟩)
  · exact Nat.lt_irrefl _ hlt
  · exact hbefore.asymm (wellFormed _ (List.mem_of_getElem? h.1)) hbefore

/-- The occurrences of references to wanted targets, out of all of them, are listed. -/
theorem lists_filter (wellFormed : ∀ self ∈ instances, self.WellFormed) [DecidablePred wanted] :
    Lists instances wanted ((all instances).filter fun o => wanted o.target) := by
  have hordered := (pairwise_all instances).filter fun o => decide (wanted o.target)
  constructor
  · intro o
    rw [List.mem_filter, mem_all_iff, decide_eq_true_eq]
  · refine hordered.imp_of_mem fun {a b} ha hb hbefore heq => ?_
    subst heq
    exact (mem_all_iff.1 (List.mem_filter.1 ha).1).not_before_self wellFormed hbefore
  · exact hordered

/-- The places of instances are those of all occurrences. -/
theorem flatMap_sitesOf (instances : List Instance) :
    instances.flatMap ReferenceIndex.sitesOf = (all instances).map fun o => (o.target, o.site) := by
  calc instances.flatMap ReferenceIndex.sitesOf
      = (instances.zipIdx.map Prod.fst).flatMap ReferenceIndex.sitesOf := by
        rw [List.zipIdx_map_fst]
    _ = (all instances).map fun o => (o.target, o.site) := by
        rw [all, List.map_flatMap, List.flatMap_map]
        simp only [List.map_map]
        rfl

/-- There are as many occurrences as the instances have references. -/
theorem length_all (instances : List Instance) :
    (all instances).length = (instances.flatMap Instance.references).length := by
  have hlengths := congrArg List.length (flatMap_sitesOf instances)
  simpa [ReferenceIndex.sitesOf, List.length_flatMap] using hlengths.symm

end Occurrence

namespace ReferenceIndex

open Occurrence (Lists)

variable {instances : List Instance} {targets : Std.ExtTreeSet ElementId}

/-- An index says where instances refer to targets. -/
structure Indexes (instances : List Instance) (targets : Std.ExtTreeSet ElementId)
    (index : ReferenceIndex) : Prop where
  /-- The index has exactly the targets that instances refer to. -/
  mem_targets_iff : ∀ target, target ∈ index.targets ↔
    target ∈ targets ∧ ∃ o : Occurrence, o.IsAmong instances ∧ o.target = target
  /-- Under a target the places of all references to it are listed, each once and in their order. At
  its place each reference is found. -/
  bucket : ∀ target sites, (target, sites) ∈ index.buckets →
    ∃ found, Lists instances (· = target) found ∧ sites = found.map Occurrence.site ∧
      ∀ o ∈ found, o.holder.valueAt? o.path = some o.reference.toValue
  /-- The targets come in the order of the first references to them, each once, and there are as
  many places as references to the targets. -/
  order : ∃ found, Lists instances (· ∈ targets) found ∧
    index.targets = (found.map Occurrence.target).eraseDups ∧ index.siteCount = found.length
  /-- If all references lead to the targets, then all references of the graph have their place. -/
  siteCount_eq : ∀ graph : ElementGraph, graph.instances = instances →
    (∀ o : Occurrence, o.IsAmong instances → o.target ∈ targets) →
    index.siteCount = graph.referenceCount

/-- The entries that an index groups are those of the occurrences of references to its targets. -/
theorem filter_flatMap_sitesOf (instances : List Instance) (targets : Std.ExtTreeSet ElementId) :
    (instances.flatMap sitesOf).filter (·.1 ∈ targets) =
      ((Occurrence.all instances).filter fun o => o.target ∈ targets).map fun o =>
        (o.target, o.site) := by
  rw [Occurrence.flatMap_sitesOf, List.filter_map]
  rfl

/-- One more place is counted. -/
theorem length_flatMap_addSite (target : ElementId) (site : ReferenceSite)
    (buckets : List (ElementId × List ReferenceSite)) :
    ((addSite target site buckets).flatMap Prod.snd).length =
      (buckets.flatMap Prod.snd).length + 1 := by
  induction buckets with
  | nil => rfl
  | cons bucket rest ih =>
    rw [addSite]
    split
    · simp only [List.flatMap_cons, List.length_append, List.length_singleton]
      omega
    · simp only [List.flatMap_cons, List.length_append, ih]
      omega

/-- The groups have as many places as there are entries. -/
theorem length_flatMap_grouped (entries : List (ElementId × ReferenceSite)) :
    ((grouped entries).flatMap Prod.snd).length = entries.length := by
  induction entries using List.reverseRecOn with
  | nil => rfl
  | append_singleton entries entry ih =>
    rw [grouped_concat, length_flatMap_addSite, ih, List.length_append, List.length_singleton]

/-- Under a target an index lists the places of all references to it. -/
theorem sites_eq_of_mem_buckets {target : ElementId} {sites : List ReferenceSite}
    (h : (target, sites) ∈ (build instances targets).buckets) :
    sites =
      ((Occurrence.all instances).filter fun o => o.target = target).map Occurrence.site := by
  rw [buckets_build, grouped, filter_flatMap_sitesOf] at h
  obtain ⟨_, hseen, heq⟩ := List.mem_map.1 h
  obtain ⟨rfl, rfl⟩ := Prod.mk.inj heq
  -- Some reference to the target was seen, so the index is built for it.
  rw [List.mem_eraseDups, List.map_map, List.mem_map] at hseen
  obtain ⟨first, hfirst, rfl⟩ := hseen
  have htarget : first.target ∈ targets := by simpa using (List.mem_filter.1 hfirst).2
  have hboth (o : Occurrence) : (o.target == first.target && decide (o.target ∈ targets)) =
      decide (o.target = first.target) := by
    by_cases heq : o.target = first.target <;> simp [heq, htarget]
  rw [List.filter_map, List.map_map, List.filter_filter]
  exact congrArg (List.map Occurrence.site) (List.filter_congr fun o _ => hboth o)

/-- The targets of an index come in the order of the references to them. -/
theorem targets_build (instances : List Instance) (targets : Std.ExtTreeSet ElementId) :
    (build instances targets).targets =
      (((Occurrence.all instances).filter fun o => o.target ∈ targets).map
        Occurrence.target).eraseDups := by
  rw [ReferenceIndex.targets, buckets_build, grouped, filter_flatMap_sitesOf, List.map_map,
    List.map_map]
  exact List.map_id _

/-- An index has as many places as there are references to its targets. -/
theorem siteCount_build (instances : List Instance) (targets : Std.ExtTreeSet ElementId) :
    (build instances targets).siteCount =
      ((Occurrence.all instances).filter fun o => o.target ∈ targets).length := by
  rw [siteCount, buckets_build, length_flatMap_grouped, filter_flatMap_sitesOf, List.length_map]

/-- An index of well-formed instances says where these refer to its targets. -/
theorem indexes_build (wellFormed : ∀ self ∈ instances, self.WellFormed)
    (targets : Std.ExtTreeSet ElementId) : Indexes instances targets (build instances targets) := by
  constructor
  case mem_targets_iff =>
    intro target
    rw [targets_build, List.mem_eraseDups, List.mem_map]
    constructor
    · rintro ⟨o, ho, rfl⟩
      have hlisted := ((Occurrence.lists_filter wellFormed).mem_iff o).1 ho
      exact ⟨hlisted.2, o, hlisted.1, rfl⟩
    · rintro ⟨htarget, o, ho, rfl⟩
      exact ⟨o, ((Occurrence.lists_filter wellFormed).mem_iff o).2 ⟨ho, htarget⟩, rfl⟩
  case bucket =>
    intro target sites hbucket
    have hlists := @Occurrence.lists_filter instances (· = target) wellFormed _
    refine ⟨_, hlists, sites_eq_of_mem_buckets hbucket, fun o ho => ?_⟩
    obtain ⟨hholder, holds⟩ := ((hlists.mem_iff o).1 ho).1
    exact holds.valueAt?_eq (wellFormed _ (List.mem_of_getElem? hholder))
  case order =>
    exact ⟨_, Occurrence.lists_filter wellFormed, targets_build instances targets,
      siteCount_build instances targets⟩
  case siteCount_eq =>
    intro graph hgraph hall
    have hfilter : ((Occurrence.all instances).filter fun o => o.target ∈ targets) =
        Occurrence.all instances :=
      List.filter_eq_self.2 fun o ho => decide_eq_true (hall o (Occurrence.mem_all_iff.1 ho))
    rw [siteCount_build, hfilter, Occurrence.length_all, ElementGraph.referenceCount, hgraph]

/-- Two instances with one identifier. Both refer to one parent, the first one to another instance
and the second one to a part of that. -/
def repeated : List Instance :=
  [.nested, { Instance.nested with
    value := [("n", .ofTarget ((ElementId.ofInstance "a" "u" "z").nested ["part"]))] }]

/-- No map of the instances has a key twice. -/
theorem wellFormed_repeated : ∀ self ∈ repeated, self.WellFormed := by
  simp only [repeated, List.forall_mem_cons, List.not_mem_nil, IsEmpty.forall_iff, implies_true,
    and_true]
  refine ⟨Instance.wellFormed_nested, fun start => ?_⟩
  cases start with
  | value =>
    refine .map (List.nodup_singleton _) fun member hmember => ?_
    rw [List.mem_singleton.1 hmember]
    exact Value.wellFormed_ofTarget _
  | annotations => exact Instance.wellFormed_nested .annotations

/-- The parent and the other instance. -/
def sharedTargets : Std.ExtTreeSet ElementId :=
  .ofList [ElementId.ofInstance "a" "s" "p", ElementId.ofInstance "a" "u" "z"]

/-- An index for the parent and the other instance lists all references but the one to a third
instance. The other instance comes first, and the reference to its part is among those to it. -/
theorem indexes_build_repeated :
    (∀ self ∈ repeated, self.WellFormed) ∧
      Indexes repeated sharedTargets (build repeated sharedTargets) ∧
      (build repeated sharedTargets).targets =
        [.ofInstance "a" "u" "z", .ofInstance "a" "s" "p"] ∧
      (build repeated sharedTargets).siteCount = 4 :=
  ⟨wellFormed_repeated, indexes_build wellFormed_repeated sharedTargets, by decide +kernel,
    by decide +kernel⟩

end ReferenceIndex

end ElementCatalog
