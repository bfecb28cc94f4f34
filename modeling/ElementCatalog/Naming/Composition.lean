import ElementCatalog.Element.Basic
import ElementCatalog.Naming.Rules
import ElementCatalog.Value.Document

/-!
# Composed names

The rules of its type compose the name of an instance from its id fields, given the names of the
instances that it refers to. A field that holds a reference, declared as one or not, contributes
the name of what it refers to; any other value contributes its text, and a missing one the empty
text. The contributions are joined by `_`. If the rules extend the parent and there is one, the
name of the first parent comes in front, with `__` between.

A name can be used if it has some character other than `_`. Its dots are turned into `_`, so that
it can stand as one part of an identifier.
-/

namespace ElementCatalog

namespace Composition

/-- What joins the contributions of id fields. -/
def joiner : Char := '_'

/-- What joins a parent's name to the name of its child. -/
def parentJoiner : String := "__"

/-- The values that the id fields of an instance hold, where there are. -/
def fieldValues (rules : NamingRules) (self : Instance) : List (Option Value) :=
  rules.idFields.map fun field => ValueMap.find? self.value field.path

/-- The first parent, if the rules ask for it. -/
def parent? (rules : NamingRules) (self : Instance) : Option Reference :=
  if rules.extendsParent then self.parents.head? else none

/-- The references that the name of an instance depends on. -/
def references (rules : NamingRules) (self : Instance) : List Reference :=
  ((fieldValues rules self).filterMap fun value => value.bind Value.asReference?) ++
    (parent? rules self).toList

/-- What a field contributes to the name. -/
def contribution (nameOf : Reference → String) : Option Value → String
  | none => ""
  | some (.reference target snapshot) => nameOf ⟨target, snapshot⟩
  | some value => value.nameFragment

/-- The composed name of an instance, given the names of what it refers to. -/
def compose (nameOf : Reference → String) (rules : NamingRules) (self : Instance) : String :=
  let own := String.ofList
    ([joiner].intercalate ((fieldValues rules self).map fun value =>
      (contribution nameOf value).toList))
  match parent? rules self with
  | none => own
  | some parent => nameOf parent ++ parentJoiner ++ own

/-- The composed name as a part of an identifier, if it can be used. -/
def usable? (composed : String) : Option String :=
  if composed.toList.all (· = joiner) then none
  else
    some (String.ofList (composed.toList.map fun c => if c = Dotted.separator then joiner else c))

/-- The name of an instance: the composed one if it can be used, and else the last part of its
identifier. -/
def name (nameOf : Reference → String) (rules : NamingRules) (self : Instance) : String :=
  (usable? (compose nameOf rules self)).getD self.id.name

/-- The identifier of an instance with a name. -/
def idWith (self : Instance) (name : String) : ElementId :=
  ElementId.ofInstance self.id.adapter self.id.typeName name

end Composition

end ElementCatalog
