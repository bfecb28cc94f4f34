import ElementCatalog.Element.Basic
import ElementCatalog.Value.Document
import Std.Data.ExtTreeSet

/-!
# The reference index

A reference index lists, for each of a set of top-level elements, the places where instances refer
to it or to something below it. The elements stand in the order in which references to them were
first seen, and the places in the order of the instances and of the references in each.
-/

namespace ElementCatalog

/-- A place that holds a reference. -/
structure ReferenceSite where
  /-- Identifier of the instance that holds the reference. -/
  source : ElementId
  /-- Where in the instance the reference stands. -/
  path : ValuePath
  /-- Identifier that the reference points at. -/
  target : ElementId
deriving DecidableEq, Repr

/-- Places by the top-level element that they refer to. -/
structure ReferenceIndex where
  /-- The elements that are referred to, each with its places. -/
  buckets : List (ElementId × List ReferenceSite)

namespace ReferenceIndex

/-- The buckets with one more place. -/
def addSite (target : ElementId) (site : ReferenceSite) :
    List (ElementId × List ReferenceSite) → List (ElementId × List ReferenceSite)
  | [] => [(target, [site])]
  | (held, sites) :: rest =>
    if held = target then (held, sites ++ [site]) :: rest
    else (held, sites) :: addSite target site rest

/-- The places of an instance, each with the top-level element that it refers to. -/
def sitesOf (self : Instance) : List (ElementId × ReferenceSite) :=
  self.references.map fun (path, reference) =>
    (reference.topTarget, ⟨self.id, path, reference.target⟩)

/-- The index of the references that instances hold to the given targets. -/
def build (instances : List Instance) (targets : Std.ExtTreeSet ElementId) : ReferenceIndex :=
  ⟨(instances.flatMap sitesOf).foldl
    (fun buckets (target, site) =>
      if target ∈ targets then addSite target site buckets else buckets) []⟩

/-- The places that refer to a target. -/
def referrers (index : ReferenceIndex) (target : ElementId) : List ReferenceSite :=
  (index.buckets.lookup target).getD []

/-- The elements that are referred to, in the order in which they were first seen. -/
def targets (index : ReferenceIndex) : List ElementId :=
  index.buckets.map Prod.fst

/-- How many elements are referred to. -/
def size (index : ReferenceIndex) : Nat :=
  index.buckets.length

/-- How many places there are. -/
def siteCount (index : ReferenceIndex) : Nat :=
  (index.buckets.flatMap Prod.snd).length

/-- The document tree of a place. -/
def siteToJson (site : ReferenceSite) : Json :=
  .object [("source", site.source.toJson), ("path", site.path.toJson),
    ("target", site.target.toJson)]

/-- The document tree of an index. -/
def toJson (index : ReferenceIndex) : Json :=
  .object [("buckets", .object (index.buckets.map fun (target, sites) =>
    (target.fullName, .list (sites.map siteToJson))))]

end ReferenceIndex

end ElementCatalog
