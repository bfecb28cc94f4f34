import ElementCatalog.Command.Environment
import ElementCatalog.Files.Basic
import ElementCatalog.Json.Printer
import ElementCatalog.Reading.Record

/-!
# Settings

Settings are kept in a file in the user's configuration directory. What the file does not give has
a default, and environment variables take precedence over both.

`Settings.load` and `Settings.save` read and write the file; `Settings.override` applies the
variables.
-/

namespace ElementCatalog

open Json (Draft)

/-- The settings of the program. -/
structure Settings where
  /-- The root directory of the index stores. -/
  storeDir : String
  /-- The naming configuration that is used where no other is given. -/
  namingConfig : Option String
deriving DecidableEq, Repr

/-- The surroundings that the program starts in. -/
structure Surroundings where
  /-- The environment variables. -/
  environment : Environment
  /-- The working directory, as an absolute path. -/
  workingDirectory : String
  /-- The home directory of the user's account, if it has one. -/
  accountHome : Option String

namespace Surroundings

/-- The user's home directory: the one that the environment gives, or else that of the account. -/
def home? (self : Surroundings) : Option String :=
  match self.environment.get? "HOME" with
  | none => self.accountHome
  | some home => if home = "" then self.accountHome else some home

/-- The user's directory for configurations. There is none without a home directory. -/
def configDirectory? (self : Surroundings) : Option String := do
  let home ← self.home?
  match self.environment.get? "XDG_CONFIG_HOME" with
  | some directory =>
    return if Path.isAbsolute directory then directory else Path.join home ".config"
  | none => return Path.join home ".config"

/-- The directory of the settings file. -/
def settingsDirectory? (self : Surroundings) : Option String :=
  self.configDirectory?.map (Path.join · "eg")

/-- The settings file. -/
def settingsFile? (self : Surroundings) : Option String :=
  self.settingsDirectory?.map (Path.join · "config.json")

end Surroundings

namespace Settings

/-- The settings of someone who has set nothing. -/
def standard : Settings := ⟨".", none⟩

/-- The parts of settings that are being read. -/
structure Parts where
  /-- The store directory, once read. -/
  storeDir : Option String
  /-- The naming configuration, once read. -/
  namingConfig : Option (Option String)

/-- Settings as a record. -/
def record (_room : Nat) : Record Parts Draft DocumentError Settings where
  fields := [
    .slot "store_dir" Parts.storeDir (fun parts path => { parts with storeDir := some path })
      Draft.string,
    .slot "naming_config" Parts.namingConfig
      (fun parts path => { parts with namingConfig := some path }) (Draft.optional Draft.string)]
  start := ⟨none, none⟩
  complete _ parts :=
    .ok ⟨parts.storeDir.getD standard.storeDir, parts.namingConfig.getD standard.namingConfig⟩

/-- The settings that a text stands for. -/
def ofText : String → Read Settings :=
  Json.Document.read (Record.ofDraft record)

/-- The document tree of settings. -/
def toJson (settings : Settings) : Json :=
  .object [("store_dir", .string settings.storeDir),
    ("naming_config", Json.ofOption .string settings.namingConfig)]

/-- The settings with those that variables give. -/
def override (environment : Environment) (settings : Settings) : Settings :=
  { storeDir := (environment.get? "EG_STORE_DIR").getD settings.storeDir
    namingConfig := (environment.get? "EG_NAMING_CONFIG").or settings.namingConfig }

/-- The setting with a key, as text. -/
def value? (settings : Settings) : String → Option String
  | "store-dir" => some settings.storeDir
  | "naming-config" => some (settings.namingConfig.getD "(not set)")
  | "naming" => some (settings.namingConfig.getD "(not set)")
  | _ => none

/-- The settings with another value for a key. -/
def change? (settings : Settings) (value : String) : String → Option Settings
  | "store-dir" => some { settings with storeDir := value }
  | "naming-config" => some { settings with namingConfig := some value }
  | "naming" => some { settings with namingConfig := some value }
  | _ => none

variable {m : Type → Type} [Monad m] [FileSystem m]

/-- The settings in the file, or the default ones if there is no file. -/
def ofFile (surroundings : Surroundings) : ExceptT String m Settings := do
  match surroundings.settingsFile? with
  | none => return standard
  | some path =>
    match ← FileSystem.kindOf path with
    -- What cannot be looked at counts as not there.
    | .error _ => return standard
    | .ok _ =>
      match ← FileSystem.readText path with
      | .error _ => throw ("Failed to read config from " ++ path)
      | .ok text =>
        match ofText text with
        | .error _ => throw ("Failed to parse config file " ++ path)
        | .ok settings => return settings

/-- The settings in the file with those that variables give. -/
def load (surroundings : Surroundings) : ExceptT String m Settings :=
  override surroundings.environment <$> ofFile surroundings

/-- Writes settings to the file. Without a configuration directory nothing happens. -/
def save (surroundings : Surroundings) (settings : Settings) : ExceptT String m Unit := do
  match surroundings.settingsDirectory?, surroundings.settingsFile? with
  | some directory, some path =>
    match ← FileSystem.createDirectories directory with
    | .error _ => throw ("Failed to create config directory: " ++ directory)
    | .ok () => pure ()
    match ← FileSystem.writeText path settings.toJson.pretty with
    | .error _ => throw ("Failed to write config to " ++ path)
    | .ok () => pure ()
  | _, _ => return ()

end Settings

namespace Surroundings

variable {m : Type → Type} [Monad m] [FileSystem m]

/-- The first variables file of the given directories, if looking for it does not fail. -/
def findEnvironmentFile : List String → m (Option String)
  | [] => return none
  | directory :: outer => do
    let path := Path.join directory ".env"
    match ← FileSystem.kindOf path with
    | .ok .file => return some path
    | .ok .directory => findEnvironmentFile outer
    | .error .notFound => findEnvironmentFile outer
    | .error .failed => return none

/-- The surroundings with the variables of the nearest variables file, in the working directory or
further out, if they can hold their values. -/
def withEnvironmentFile (self : Surroundings) : m (Option Surroundings) := do
  match ← findEnvironmentFile (Path.ancestors self.workingDirectory) with
  | none => return self
  | some path =>
    match ← FileSystem.readText path with
    | .error _ => return self
    | .ok text =>
      return (EnvironmentFile.addTo? self.environment text).map fun environment =>
        { self with environment := environment }

end Surroundings

end ElementCatalog
