import ElementCatalog.Naming.Plan
import ElementCatalog.Naming.ReferenceIndex

/-!
# Naming elements after what they refer to

`NamingConfig.resolve` renames the instances among elements, and redirects all references to them
or to something below them. It adds and removes no element. It fails only on rules that cannot be
followed; instances that cannot be renamed are reported.

References are redirected one rename after another, at the places that the reference index lists
for the old identifier. A place is known by the identifier of its instance, so it is looked up in
every instance with that identifier, and left alone where it does not hold the listed reference.
-/

namespace ElementCatalog

/-- The outcome of naming. -/
structure NamingReport where
  /-- The renamed instances, with their old and their new identifier. -/
  renamed : List (ElementId × ElementId)
  /-- The instances that are not renamed because their new identifier is taken. -/
  suppressed : List ElementId
  /-- The identifiers that more than one instance has. -/
  duplicates : List ElementId
  /-- The instances whose names depend on themselves. -/
  cyclic : List ElementId
  /-- The top-level elements that names depend on and that are not there. -/
  missingTargets : List ElementId
  /-- How many references were redirected. -/
  redirectedReferences : Nat
deriving DecidableEq, Repr

namespace NamingReport

/-- The document tree of a report. -/
def toJson (report : NamingReport) : Json :=
  let ids (list : List ElementId) : Json := .list (list.map ElementId.toJson)
  .object [
    ("renamed", .list (report.renamed.map fun (old, new) => .list [old.toJson, new.toJson])),
    ("suppressed", ids report.suppressed),
    ("duplicates", ids report.duplicates),
    ("cyclic", ids report.cyclic),
    ("missing_targets", ids report.missingTargets),
    ("rewritten_references", Json.ofNat report.redirectedReferences)]

end NamingReport

/-- The change of an instance's identifier. -/
structure Rename where
  /-- The identifier before. -/
  old : ElementId
  /-- The identifier after. -/
  new : ElementId
deriving DecidableEq, Repr

namespace Rename

/-- A reference moved from the old to the new identifier, if it has the given target. -/
def rebaseReference (rename : Rename) (target : ElementId) : Value → Option Value
  | .reference held snapshot =>
    if held = target then
      (held.rebase rename.old rename.new).map fun moved => .reference moved snapshot
    else none
  | _ => none

/-- An element with the reference at a place redirected, if it has the place. -/
def redirectElement (rename : Rename) (site : ReferenceSite) : Element → Option Element
  | .ofType _ => none
  | .ofInstance contents =>
    if contents.id = site.source then
      (contents.updateAt? (rename.rebaseReference site.target) site.path).map .ofInstance
    else none

/-- Elements with the reference at a place redirected, and how many had the place. -/
def redirectSite (rename : Rename) (site : ReferenceSite) : List Element → List Element × Nat
  | [] => ([], 0)
  | element :: rest =>
    let (redirected, count) := rename.redirectSite site rest
    match rename.redirectElement site element with
    | some changed => (changed :: redirected, count + 1)
    | none => (element :: redirected, count)

/-- Elements with the references at several places redirected, and how many were. -/
def redirectSites (rename : Rename) (sites : List ReferenceSite) (elements : List Element) :
    List Element × Nat :=
  sites.foldl
    (fun (elements, count) site =>
      let (elements, more) := rename.redirectSite site elements
      (elements, count + more))
    (elements, 0)

/-- Elements with the references to renamed instances redirected, one rename after another, and
how many were. -/
def redirectAll (renames : List Rename) (index : ReferenceIndex) (elements : List Element) :
    List Element × Nat :=
  renames.foldl
    (fun (elements, count) rename =>
      let (elements, more) := rename.redirectSites (index.referrers rename.old) elements
      (elements, count + more))
    (elements, 0)

/-- An instance with the identifier that the renames give it. -/
def applyTo (renames : List Rename) (self : Instance) : Instance :=
  match renames.find? (·.old == self.id) with
  | some rename => { self with id := rename.new }
  | none => self

end Rename

namespace NamingPlan

/-- The renames of a plan, in the order of the instances. An instance whose new identifier is the
old one is not renamed. -/
def renames (plan : NamingPlan) (instances : List Instance) : List Rename :=
  instances.filterMap fun self =>
    let new := plan.names.finalId self
    if new = self.id then none else some ⟨self.id, new⟩

end NamingPlan

namespace Batch

/-- The top-level elements that names were looked for in and that no element is. Elements that are
no instances count by their identifiers, unless these are identifiers of instances. -/
def missingTargets (batch : Batch) (plan : NamingPlan) (elements : List Element) :
    Std.ExtTreeSet ElementId :=
  let others := (elements.filter fun element => !element.hasInstanceId).map Element.id
  let targets := plan.order.flatMap fun self =>
    (batch.namingReferences self).map Reference.topTarget
  .ofList (targets.filter fun target => !batch.has target && !others.contains target)

end Batch

namespace NamingConfig

/-- The elements after naming, and the report. -/
def rename (config : NamingConfig) (elements : List Element) : List Element × NamingReport :=
  let batch : Batch := ⟨config, instancesOf elements⟩
  let plan := batch.plan
  let renames := plan.renames batch.instances
  let index := ReferenceIndex.build batch.instances batch.nameableTargets
  let (redirected, count) := Rename.redirectAll renames index elements
  -- The report is about the elements as they were.
  let ids := batch.instances.map Instance.id
  (redirected.map (Element.mapInstance (Rename.applyTo renames)),
    { renamed := renames.map fun rename => (rename.old, rename.new)
      suppressed := ids.filter (· ∈ plan.held)
      duplicates := batch.sharedIds.toList
      cyclic := ids.filter (· ∈ plan.cyclic)
      missingTargets := (batch.missingTargets plan elements).toList
      redirectedReferences := count })

/-- The elements after naming and the report, if the rules can be followed. -/
def resolve (config : NamingConfig) (elements : List Element) :
    Except NamingError (List Element × NamingReport) := do
  config.check
  return config.rename elements

end NamingConfig

/-- A step that fetched elements go through before they are stored. It adds and removes none. -/
structure FetchFilter where
  /-- The name of the step. -/
  name : String
  /-- What the step does. -/
  description : String
  /-- The elements after the step. -/
  onFetch : List Element → Except NamingError (List Element)

namespace FetchFilter

/-- The step that names instances. -/
def referencedInstanceNames (config : NamingConfig) : FetchFilter where
  name := "referenced_instance_names"
  description := "Name instances after the instances they reference"
  onFetch elements := Prod.fst <$> config.resolve elements

end FetchFilter

end ElementCatalog
