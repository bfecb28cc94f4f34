/-!
# Command lines

A command line consists of levels: options and operands of the program itself, then a command with
options and operands of its own, and so on. A `Level` describes one of them. Options have a long
name, and some a letter; they can stand anywhere in their level, and letters can be joined. What
begins with a minus sign and is longer than that is never taken for an operand or for the value of
an option, unless it comes after `--` or is attached to its option.

The command `help` asks for help on the commands named behind it, and is understood if they lead
from one level to the next.

`Request.parse` reads a command line as a request. It fails without telling why: a command line is
either understood or not.
-/

namespace ElementCatalog

/-- What a value on a command line is. -/
inductive ValueKind where
  /-- A path, which is not empty. -/
  | path
  /-- Any text. -/
  | text
deriving DecidableEq, Repr

namespace ValueKind

/-- Whether a text can be such a value. -/
def allows (kind : ValueKind) (value : String) : Bool :=
  kind = text ∨ value ≠ ""

end ValueKind

/-- An option of a level. -/
structure OptionSpec where
  /-- The long name, which follows two minus signs. -/
  name : String
  /-- The letter, which follows one. -/
  letter : Option Char
  /-- The value that the option takes. Without one the option is given or not. -/
  value : Option ValueKind
deriving DecidableEq, Repr

/-- The commands of a level, by their names, each with the commands of the level that it opens. -/
inductive Commands where
  /-- Names with the commands behind them. -/
  | named (entries : List (String × Commands))

namespace Commands

/-- No commands. -/
def empty : Commands := named []

/-- The names of the commands. -/
def names : Commands → List String
  | named entries => entries.map Prod.fst

/-- Whether names lead from one level to the next. -/
def leads : Commands → List String → Bool
  | _, [] => true
  | named entries, name :: rest =>
    match entries.lookup name with
    | some inner => leads inner rest
    | none => false

/-- The commands of a level that goes on with one of them, or with a call for help. -/
def withHelp (entries : List (String × Commands)) : Commands :=
  named (("help", empty) :: entries)

end Commands

/-- What can stand on one level of a command line. -/
structure Level where
  /-- The options. -/
  options : List OptionSpec
  /-- The operands, all of which have to be there. -/
  operands : List ValueKind
  /-- The commands that open the next level. -/
  commands : Commands

/-- What was found on one level of a command line. -/
structure Found where
  /-- The options with their values; the value of an option that takes none is empty. -/
  options : List (String × String)
  /-- The operands in order. -/
  operands : List String

/-- Why a command line is no request for something to be done. -/
inductive Refusal where
  /-- The command line is not understood. -/
  | usage
  /-- The command line asks for help. -/
  | help
  /-- The command line asks for the version. -/
  | version
deriving DecidableEq, Repr

/-- The option that asks for help, on every level. -/
def helpOption : OptionSpec := ⟨"help", some 'h', none⟩

/-- The option that asks for the version, on the first level. -/
def versionOption : OptionSpec := ⟨"version", some 'V', none⟩

namespace Found

/-- Nothing found so far. -/
def empty : Found := ⟨[], []⟩

/-- Whether an option was given. -/
def has (found : Found) (name : String) : Bool :=
  (found.options.lookup name).isSome

/-- The value of an option. -/
def value? (found : Found) (name : String) : Option String :=
  found.options.lookup name

/-- The level with an option found. An option can be given once only. -/
def take (found : Found) (option : OptionSpec) (value : String) : Except Refusal Found :=
  if option.name = helpOption.name then .error .help
  else if option.name = versionOption.name then .error .version
  else if found.has option.name then .error .usage
  else if option.value.any fun kind => !kind.allows value then .error .usage
  else .ok { found with options := found.options ++ [(option.name, value)] }

/-- The level with an operand found. -/
def operand (found : Found) (text : String) : Found :=
  { found with operands := found.operands ++ [text] }

end Found

namespace Level

/-- The option with a long name. -/
def named? (level : Level) (name : String) : Option OptionSpec :=
  level.options.find? (·.name == name)

/-- The option with a letter. -/
def lettered? (level : Level) (letter : Char) : Option OptionSpec :=
  level.options.find? (·.letter == some letter)

/-- What is found in joined letters, and the option whose value is still to come. The letters
behind an option with a value are its value, also after an equals sign. -/
def takeLetters (level : Level) (found : Found) :
    List Char → Except Refusal (Found × Option OptionSpec)
  | [] => .ok (found, none)
  | letter :: rest =>
    match level.lettered? letter with
    | none => .error .usage
    | some option =>
      if option.value.isNone then do
        level.takeLetters (← found.take option "") rest
      else
        match rest with
        | [] => .ok (found, some option)
        | '=' :: value => do return (← found.take option (String.ofList value), none)
        | value => do return (← found.take option (String.ofList value), none)

/-- What is found in a long option, and the option whose value is still to come. -/
def takeLong (level : Level) (found : Found) (text : List Char) :
    Except Refusal (Found × Option OptionSpec) :=
  let name := text.takeWhile (· ≠ '=')
  let attached := match text.dropWhile (· ≠ '=') with
    | [] => none
    | _ :: value => some (String.ofList value)
  match level.named? (String.ofList name) with
  | none => .error .usage
  | some option =>
    match option.value, attached with
    | none, none => do return (← found.take option "", none)
    | none, some _ => .error .usage
    | _, some value => do return (← found.take option value, none)
    | _, none => .ok (found, some option)

/-- Whether a text can only be an option. -/
def isOption (text : String) : Bool :=
  match text.toList with
  | '-' :: _ :: _ => true
  | _ => false

/-- Whether a text can be the operand at a position. -/
def takesOperand (level : Level) (position : Nat) (text : String) : Bool :=
  level.operands[position]?.any (·.allows text)

/-- What is found on a level, and the command that opens the next one with what follows it. The
given option, if any, is waiting for its value. -/
def scan (level : Level) (found : Found) (waiting : Option OptionSpec) :
    List String → Except Refusal (Found × Option (String × List String))
  | [] => if waiting.isSome then .error .usage else .ok (found, none)
  | text :: rest =>
    match waiting with
    | some option =>
      if isOption text then .error .usage
      else do level.scan (← found.take option text) none rest
    | none =>
      -- A command opens the next level wherever it stands.
      if text ∈ level.commands.names then .ok (found, some (text, rest))
      else if text = "--" then .ok (rest.foldl Found.operand found, none)
      else
        match text.toList with
        | '-' :: '-' :: long => do
          let (found, waiting) ← level.takeLong found long
          level.scan found waiting rest
        | '-' :: c :: letters => do
          let (found, waiting) ← level.takeLetters found (c :: letters)
          level.scan found waiting rest
        | _ =>
          if level.takesOperand found.operands.length text then
            level.scan (found.operand text) none rest
          else .error .usage

/-- What is found on the last level of a command line. -/
def last (level : Level) (arguments : List String) : Except Refusal Found := do
  let (found, next) ← level.scan .empty none arguments
  if next.isSome ∨ found.operands.length ≠ level.operands.length then throw .usage
  -- Operands behind `--` were not looked at before.
  if found.operands.zipIdx.all fun (text, position) => level.takesOperand position text then
    return found
  throw .usage

/-- The command that opens the next level, with what follows it. -/
def next (level : Level) (arguments : List String) : Except Refusal (String × List String) := do
  let (_, next) ← level.scan .empty none arguments
  match next with
  | some (command, rest) =>
    if command = "help" then throw (if level.commands.leads rest then .help else .usage)
    return (command, rest)
  | none => throw .usage

end Level

/-- What a command line asks for. -/
inductive Request where
  /-- Name the instances of a graph, and write or print the result. -/
  | resolve (graph : String) (naming output : Option String)
  /-- Print the reference index of a graph. -/
  | references (graph : String) (naming : Option String) (asDocument : Bool)
  /-- Apply changes to the changed-at index. -/
  | applyChanges (changes graph : String) (invalidCache : Bool) (store : Option String)
  /-- Print entries of the changed-at index. -/
  | query (lowest highest store : Option String)
  /-- Print the settings. -/
  | showSettings
  /-- Change a setting. -/
  | changeSetting (key value : String)
  /-- Print a setting. -/
  | printSetting (key : String)
  /-- Give all settings their defaults. -/
  | resetSettings
  /-- Print where the settings are kept. -/
  | printSettingsPath
deriving DecidableEq, Repr

namespace Request

/-- The options of every level. -/
def commonOptions : List OptionSpec :=
  [⟨"verbose", some 'v', none⟩, ⟨"quiet", some 'q', none⟩, ⟨"log-json", none, none⟩, helpOption]

/-- A level that ends the command line. -/
def leaf (operands : List ValueKind) (options : List OptionSpec) : Level :=
  ⟨commonOptions ++ options, operands, .empty⟩

/-- A level that goes on with a command. -/
def branch (commands : Commands) (options : List OptionSpec) : Level :=
  ⟨commonOptions ++ options, [], commands⟩

/-- The commands behind `index`. -/
def indexCommands : Commands :=
  .withHelp [("apply", .empty), ("query", .empty)]

/-- The commands behind `config`. -/
def configCommands : Commands :=
  .withHelp [("show", .empty), ("set", .empty), ("get", .empty), ("reset", .empty),
    ("path", .empty)]

/-- The commands of the first level. -/
def firstCommands : Commands :=
  .withHelp [("resolve", .empty), ("refs", .empty), ("index", indexCommands),
    ("config", configCommands)]

/-- The option for a naming configuration. -/
def namingOption : OptionSpec := ⟨"naming", some 'n', some .path⟩

/-- The option for the root directory of the stores. -/
def storeOption : OptionSpec := ⟨"store", some 's', some .path⟩

/-- The request of a command line behind `index`. -/
def parseIndex (arguments : List String) : Except Refusal Request := do
  match ← (branch indexCommands []).next arguments with
  | ("apply", rest) =>
    let found ← (leaf [.path] [⟨"graph", some 'g', some .path⟩, ⟨"invalid-cache", none, none⟩,
      storeOption]).last rest
    match found.operands, found.value? "graph" with
    | [changes], some graph =>
      return applyChanges changes graph (found.has "invalid-cache") (found.value? "store")
    | _, _ => throw .usage
  | (_, rest) =>
    let found ← (leaf [] [⟨"from", none, some .text⟩, ⟨"to", none, some .text⟩,
      storeOption]).last rest
    return query (found.value? "from") (found.value? "to") (found.value? "store")

/-- The request of a command line behind `config`. -/
def parseConfig (arguments : List String) : Except Refusal Request := do
  match ← (branch configCommands []).next arguments with
  | ("set", rest) =>
    match (← (leaf [.text, .text] []).last rest).operands with
    | [key, value] => return changeSetting key value
    | _ => throw .usage
  | ("get", rest) =>
    match (← (leaf [.text] []).last rest).operands with
    | [key] => return printSetting key
    | _ => throw .usage
  | (command, rest) =>
    let _ ← (leaf [] []).last rest
    return if command = "show" then showSettings
      else if command = "reset" then resetSettings
      else printSettingsPath

/-- The request of a command line. -/
def parse (arguments : List String) : Except Refusal Request := do
  match ← (branch firstCommands [versionOption]).next arguments with
  | ("resolve", rest) =>
    let found ← (leaf [.path] [namingOption, ⟨"output", some 'o', some .path⟩]).last rest
    match found.operands with
    | [graph] => return resolve graph (found.value? "naming") (found.value? "output")
    | _ => throw .usage
  | ("refs", rest) =>
    let found ← (leaf [.path] [namingOption, ⟨"json", none, none⟩]).last rest
    match found.operands with
    | [graph] => return references graph (found.value? "naming") (found.has "json")
    | _ => throw .usage
  | ("index", rest) => parseIndex rest
  | (_, rest) => parseConfig rest

end Request

end ElementCatalog
