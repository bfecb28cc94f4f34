import ElementCatalog.Naming.Rules
import ElementCatalog.Reading.Record

/-!
# Naming rules in documents

A configuration is written with the rules of types under their names, and the default rules. What
is left out takes its default: no rules for types, the field `id` as the only contribution for the
default rules, and rules without fields that do not extend the parent.
-/

namespace ElementCatalog

open Json (Draft)

namespace IdField

/-- The field that a draft stands for. -/
def ofDraft (_room : Nat) (draft : Draft) : Read IdField :=
  ofText <$> draft.string

end IdField

namespace NamingRules

/-- The parts of rules that are being read. -/
structure Parts where
  /-- The fields, once read. -/
  idFields : Option (List IdField)
  /-- Whether the parent's name comes in front, once read. -/
  extendsParent : Option Bool

/-- Rules as a record with the given room inside. -/
def record (room : Nat) : Record Parts Draft DocumentError NamingRules where
  fields := [
    .slot "idFields" Parts.idFields (fun parts fields => { parts with idFields := some fields })
      (Draft.items IdField.ofDraft room),
    .slot "extendsParentId" Parts.extendsParent
      (fun parts flag => { parts with extendsParent := some flag }) Draft.bool]
  start := ⟨none, none⟩
  complete _ parts := .ok ⟨parts.idFields.getD [], parts.extendsParent.getD false⟩

/-- The rules that a draft stands for. -/
def ofDraft (room : Nat) : Draft → Read NamingRules :=
  Record.ofDraft record room

/-- The document tree of rules. -/
def toJson (rules : NamingRules) : Json :=
  .object [
    ("idFields", .list (rules.idFields.map fun field => .string field.text)),
    ("extendsParentId", .bool rules.extendsParent)]

end NamingRules

namespace NamingConfig

/-- The parts of a configuration that is being read. -/
structure Parts where
  /-- The rules of types, once read. -/
  types : Option (Std.ExtTreeMap String NamingRules)
  /-- The default rules, once read. -/
  defaults : Option NamingRules

/-- The rules of types that a draft stands for. Of repeated names the last rules count. -/
def typesOfDraft (room : Nat) (draft : Draft) : Read (Std.ExtTreeMap String NamingRules) := do
  return .ofList (← draft.members NamingRules.ofDraft room)

/-- A configuration as a record with the given room inside. -/
def record (room : Nat) : Record Parts Draft DocumentError NamingConfig where
  fields := [
    .slot "types" Parts.types (fun parts types => { parts with types := some types })
      (typesOfDraft room),
    .slot "typeDefaults" Parts.defaults
      (fun parts rules => { parts with defaults := some rules }) (NamingRules.ofDraft room)]
  start := ⟨none, none⟩
  complete _ parts := .ok ⟨parts.types.getD ∅, parts.defaults.getD .standard⟩

/-- The configuration that a draft stands for. -/
def ofDraft (room : Nat) : Draft → Read NamingConfig :=
  Record.ofDraft record room

/-- The configuration that a text stands for. -/
def ofText : String → Read NamingConfig :=
  Json.Document.read ofDraft

end NamingConfig

end ElementCatalog
