import ElementCatalog.Text.Dotted
import ElementCatalog.Text.Quoted
import Std.Data.ExtTreeMap

/-!
# Naming rules

The name of an instance is composed of the values of the id fields of its type, and of its
parent's name if the type's rules say so. A type without rules of its own has the default rules.

Rules that cannot be followed have a defect (`NamingRules.defect?`). A configuration is valid if no
rules of it have one (`NamingConfig.check`); otherwise the default rules are reported first, and
then the first type in ascending order of names.
-/

namespace ElementCatalog

/-- A field that contributes to the names of a type's instances. -/
structure IdField where
  /-- Whether the field is declared to hold a reference. -/
  isReference : Bool
  /-- The dotted path of the field. -/
  path : String
deriving DecidableEq, Repr

namespace IdField

/-- The mark in front of a field that is declared to hold a reference. -/
def marker : Char := '&'

/-- The field that a text stands for. -/
def ofText (text : String) : IdField :=
  match text.toList with
  | [] => ⟨false, ""⟩
  | c :: rest => if c = marker then ⟨true, String.ofList rest⟩ else ⟨false, text⟩

/-- The field as text. -/
def text (field : IdField) : String :=
  if field.isReference then String.ofList (marker :: field.path.toList) else field.path

/-- A field as text is the text that it was read from. -/
@[simp]
theorem text_ofText (text : String) : (ofText text).text = text := by
  unfold ofText
  split
  · next h =>
    have : text = String.ofList [] := by rw [← h, String.ofList_toList]
    simp [IdField.text, this]
  · next c rest h =>
    split
    · next hc =>
      subst hc
      simp only [IdField.text, if_true, String.toList_ofList]
      rw [← h, String.ofList_toList]
    · rfl

end IdField

/-- Why rules cannot be followed. -/
inductive RuleDefect where
  /-- Nothing contributes to the name. -/
  | noFields
  /-- A field has an empty path. -/
  | noPath (field : IdField)
  /-- The path of a field has an empty segment. -/
  | emptySegment (field : IdField)
deriving DecidableEq, Repr

namespace RuleDefect

/-- The reason shown for the defect. -/
def reason : RuleDefect → String
  | noFields => "idFields is empty"
  | noPath field => "id field " ++ Quoted.quote field.text ++ " names no field"
  | emptySegment field => "id field " ++ Quoted.quote field.path ++ " has an empty path segment"

end RuleDefect

namespace IdField

/-- What is wrong with a field. -/
def defect? (field : IdField) : Option RuleDefect :=
  if field.path = "" then some (.noPath field)
  else if "" ∈ Dotted.split field.path then some (.emptySegment field)
  else none

end IdField

/-- How instances of a type are named. -/
structure NamingRules where
  /-- The fields that contribute to the name, in order. -/
  idFields : List IdField
  /-- Whether the name of the first parent comes in front. -/
  extendsParent : Bool
deriving DecidableEq, Repr

namespace NamingRules

/-- Whether names under these rules depend on other instances. -/
def dependsOnReferences (rules : NamingRules) : Bool :=
  rules.extendsParent || rules.idFields.any IdField.isReference

/-- The first defect of the rules. -/
def defect? (rules : NamingRules) : Option RuleDefect :=
  if rules.idFields = [] ∧ rules.extendsParent = false then some .noFields
  else rules.idFields.findSome? IdField.defect?

/-- The rules of types that have none: the name is the field `id`. -/
def standard : NamingRules :=
  ⟨[⟨false, "id"⟩], false⟩

end NamingRules

/-- Why a configuration cannot be used: the named rules have a defect. -/
structure NamingError where
  /-- The type that the rules are for, or what stands for the default rules. -/
  typeName : String
  /-- What is wrong with the rules. -/
  defect : RuleDefect
deriving DecidableEq, Repr

namespace NamingError

/-- The message shown for the error. -/
def message (error : NamingError) : String :=
  "invalid naming config for " ++ error.typeName ++ ": " ++ error.defect.reason

end NamingError

/-- The naming rules of all types. -/
structure NamingConfig where
  /-- The rules of types that have rules of their own, in ascending order of names. -/
  types : Std.ExtTreeMap String NamingRules
  /-- The rules of all other types. -/
  defaults : NamingRules

namespace NamingConfig

/-- The configuration without rules for any type. -/
def standard : NamingConfig :=
  ⟨∅, .standard⟩

/-- The configuration with rules for one more type. -/
def withType (typeName : String) (rules : NamingRules) (config : NamingConfig) : NamingConfig :=
  { config with types := config.types.insert typeName rules }

/-- The rules of a type. -/
def rulesFor (config : NamingConfig) (typeName : String) : NamingRules :=
  config.types[typeName]?.getD config.defaults

/-- Whether instances of a type are renamed. All others keep their name. -/
def isNameable (config : NamingConfig) (typeName : String) : Bool :=
  (config.rulesFor typeName).dependsOnReferences

/-- What stands for the default rules in errors. -/
def defaultsName : String := "<typeDefaults>"

/-- All rules with their names: first the default rules, then those of types in ascending order. -/
def namedRules (config : NamingConfig) : List (String × NamingRules) :=
  (defaultsName, config.defaults) :: config.types.toList

/-- The first rules that cannot be followed. -/
def error? (config : NamingConfig) : Option NamingError :=
  config.namedRules.findSome? fun (typeName, rules) => rules.defect?.map (⟨typeName, ·⟩)

/-- Succeeds if all rules can be followed. -/
def check (config : NamingConfig) : Except NamingError Unit :=
  match config.error? with
  | some error => .error error
  | none => .ok ()

end NamingConfig

end ElementCatalog
