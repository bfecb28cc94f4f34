import ElementCatalog.Element.Graph
import ElementCatalog.Naming.Composition
import ElementCatalog.Naming.Dependency
import Std.Data.ExtTreeMap
import Std.Data.ExtTreeSet

/-!
# Which instances get which names

An instance keeps the identifier it was fetched with if it shares that identifier with another
instance, if the rules of its type do not depend on other instances, or if its name depends on
itself. All others are named, those first whose names the names of others depend on.

Two instances must not end up with one identifier. When a new identifier is that of another
instance, the instance that it was meant for keeps its old one, and naming starts again, since
other names can depend on that. This is repeated until no new identifier collides.
-/

namespace ElementCatalog

/-- New names of instances under their old identifiers. Other instances keep their identifier. -/
abbrev NameTable := Std.ExtTreeMap ElementId String

namespace NameTable

/-- The name that an instance with the given identifier has. -/
def nameOf (names : NameTable) (id : ElementId) : String :=
  names[id]?.getD id.name

/-- The identifier that an instance has. -/
def finalId (names : NameTable) (self : Instance) : ElementId :=
  match names[self.id]? with
  | some name => Composition.idWith self name
  | none => self.id

end NameTable

/-- The instances that are named together, and the rules. -/
structure Batch where
  /-- The naming rules. -/
  config : NamingConfig
  /-- All instances in order. -/
  instances : List Instance

namespace Batch

variable (batch : Batch)

/-- The rules that an instance is named by. -/
def rulesOf (self : Instance) : NamingRules :=
  batch.config.rulesFor self.typeName

/-- Whether some instance has an identifier. -/
def has (id : ElementId) : Bool :=
  batch.instances.any (·.id == id)

/-- Whether more than one instance has an identifier. -/
def isShared (id : ElementId) : Bool :=
  1 < batch.instances.countP (·.id == id)

/-- Whether an instance is to be named at all. -/
def isCandidate (self : Instance) : Bool :=
  !batch.isShared self.id && batch.config.isNameable self.typeName

/-- The instances that are to be named. -/
def candidates : List Instance :=
  batch.instances.filter batch.isCandidate

/-- The references that the name of an instance depends on. -/
def namingReferences (self : Instance) : List Reference :=
  Composition.references (batch.rulesOf self) self

/-- The identifiers of candidates, each with those of the candidates that its name depends on. -/
def dependencies : List (ElementId × List ElementId) :=
  let candidates := batch.candidates
  let ids := candidates.map Instance.id
  candidates.map fun self =>
    (self.id, ((batch.namingReferences self).map Reference.topTarget).filter (· ∈ ids))

/-- The identifiers of candidates, with the needed ones first and those on cycles apart. -/
def namingOrder : DependencyOrder ElementId :=
  let dependencies := batch.dependencies
  DependencyOrder.of (fun id => (dependencies.lookup id).getD []) (dependencies.map Prod.fst)

/-- The name that a reference contributes: that of the instance it refers to or into, or the last
part of its own target if there is no such instance. -/
def referenceName (names : NameTable) (reference : Reference) : String :=
  if batch.has reference.topTarget then names.nameOf reference.topTarget
  else reference.target.name

/-- The name that an instance gets, given the names that others have. -/
def nameFor (names : NameTable) (self : Instance) : String :=
  Composition.name (batch.referenceName names) (batch.rulesOf self) self

/-- The candidates with the given identifiers, in the order of the identifiers. -/
def candidatesWith (ids : List ElementId) : List Instance :=
  let candidates := batch.candidates
  ids.filterMap fun id => candidates.find? (·.id == id)

/-- The names of instances that come in naming order, except for those that are held. -/
def namesOf (order : List Instance) (held : List ElementId) : NameTable :=
  order.foldl
    (fun names self =>
      if self.id ∈ held then names else names.insert self.id (batch.nameFor names self)) ∅

/-- Whether the new identifier of an instance is that of another instance. -/
def collides (names : NameTable) (self : Instance) : Bool :=
  batch.instances.any fun other =>
    other.id != self.id && names.finalId other == names.finalId self

/-- The identifiers of instances that have a new identifier and collide. -/
def collisions (names : NameTable) (order : List Instance) : List ElementId :=
  ((order.filter fun self => names[self.id]?.isSome).filter (batch.collides names)).map Instance.id

/-- The instances held in the end, given those held so far, and the names of the others. A round
that holds no further instance is the last one. -/
def settle (order : List Instance) : Nat → List ElementId → List ElementId × NameTable
  | 0, held => (held, batch.namesOf order held)
  | rounds + 1, held =>
    let names := batch.namesOf order held
    -- What is held keeps its old identifier, so the names of the next round can differ.
    match batch.collisions names order with
    | [] => (held, names)
    | more => settle order rounds (held ++ more)

end Batch

/-- What naming is going to do with the instances of a batch. -/
structure NamingPlan where
  /-- The new names. -/
  names : NameTable
  /-- Identifiers of the instances that are not renamed because they would collide. -/
  held : List ElementId
  /-- Identifiers of the instances whose names depend on themselves. -/
  cyclic : List ElementId
  /-- The instances that names were computed for. -/
  order : List Instance

namespace Batch

variable (batch : Batch)

/-- The plan for a batch. Each round but the last holds a further instance, so there are at most as
many as there are instances in the naming order, and one more. -/
def plan : NamingPlan :=
  let naming := batch.namingOrder
  let order := batch.candidatesWith naming.order
  let (held, names) := batch.settle order order.length []
  { names := names, held := held, cyclic := naming.cyclic, order := order }

/-- The identifiers that more than one instance has. -/
def sharedIds : Std.ExtTreeSet ElementId :=
  .ofList ((batch.instances.map Instance.id).filter batch.isShared)

/-- The identifiers of instances whose types' rules depend on other instances. -/
def nameableTargets : Std.ExtTreeSet ElementId :=
  .ofList ((batch.instances.filter fun self => batch.config.isNameable self.typeName).map
    Instance.id)

end Batch

end ElementCatalog
