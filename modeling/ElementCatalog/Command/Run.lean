import ElementCatalog.ChangedAt.OnFile
import ElementCatalog.Command.Arguments
import ElementCatalog.Command.Settings
import ElementCatalog.Element.Graph
import ElementCatalog.Naming.Document
import ElementCatalog.Naming.Resolve

/-!
# Running commands

`run` does what a command line asks for, on a file system and in given surroundings, and returns
what is to be printed and the exit code: 0 on success, 1 on failure, 2 if the command line is not
understood, and 101 if there is no environment to run in.
-/

namespace ElementCatalog

/-- What a run leaves to be printed, and its exit code. -/
structure Outcome where
  /-- The exit code. -/
  code : Nat
  /-- The text for the standard output. -/
  output : String
  /-- The text for the standard error output. -/
  errors : String
deriving DecidableEq, Repr

/-- What a request that succeeded prints. -/
structure Printed where
  /-- The text for the standard output. -/
  output : String
  /-- The text for the standard error output. -/
  errors : String

namespace Printed

/-- Lines for the standard output. -/
def lines (texts : List String) : Printed :=
  ⟨String.join (texts.map (· ++ "\n")), ""⟩

end Printed

/-- A number as text. -/
def count (n : Nat) : String :=
  String.ofList (Number.digitsOf n)

namespace NamingReport

/-- The report in one line. -/
def summary (report : NamingReport) : String :=
  String.join [
    "Renamed ", count report.renamed.length, " instances, rewrote ",
    count report.redirectedReferences, " references (",
    count report.suppressed.length, " suppressed, ",
    count report.cyclic.length, " cyclic, ",
    count report.duplicates.length, " duplicate ids, ",
    count report.missingTargets.length, " missing targets)"]

end NamingReport

namespace Settings

/-- The lines that show settings. -/
def shown (settings : Settings) (file : Option String) : List String :=
  ["elemgraph CLI Configuration",
    String.ofList (List.replicate 40 '-'),
    "Store Directory:     " ++ settings.storeDir,
    "Naming Config:       " ++ settings.namingConfig.getD "(defaults)"] ++
  match file with
  | some path => ["", "Config file: " ++ path]
  | none => []

end Settings

namespace ReferenceIndex

/-- The lines that show an index, given how many references there are in all. -/
def shown (index : ReferenceIndex) (references : Nat) : List String :=
  let siteLine (site : ReferenceSite) : String :=
    String.join ["  <- ", site.source.fullName, " at ", site.path.text]
  index.buckets.flatMap (fun (target, sites) =>
    String.join [target.fullName, " (", count sites.length, ")"] :: sites.map siteLine) ++
  [String.join [count index.size, " targets, ", count index.siteCount, " references (",
    count references, " references in graph)"]]

end ReferenceIndex

namespace Request

variable {m : Type → Type} [Monad m] [FileSystem m]

/-- The value that the text of a file stands for. -/
def readDocument {α : Type} (reader : Nat → Json.Draft → Read α) (path : String) :
    ExceptT String m α := do
  match ← FileSystem.readText path with
  | .error _ => throw ("Failed to read " ++ path)
  | .ok text =>
    match Json.Document.read reader text with
    | .error _ => throw ("Failed to parse " ++ path)
    | .ok value => return value

/-- The naming configuration in the given file, or else in the one that the settings give. -/
def loadNaming (settings : Settings) (path : Option String) : ExceptT String m NamingConfig := do
  match path.or settings.namingConfig with
  | none => return .standard
  | some path =>
    match ← FileSystem.readText path with
    | .error _ => throw ("Failed to load naming config " ++ path)
    | .ok text =>
      match NamingConfig.ofText text with
      | .error _ => throw ("Failed to load naming config " ++ path)
      | .ok config => return config

/-- Names the instances of a graph, and writes or prints the result. -/
def runResolve (settings : Settings) (graph : String) (naming output : Option String) :
    ExceptT String m Printed := do
  let config ← loadNaming settings naming
  let loaded ← readDocument ElementGraph.ofDraft graph
  match config.resolve loaded.elements with
  | .error error => throw error.message
  | .ok (elements, report) =>
    let text := ({ loaded with elements := elements } : ElementGraph).toJson.pretty
    match output with
    | none => return ⟨text ++ "\n", report.summary ++ "\n"⟩
    | some path =>
      match ← FileSystem.writeText path text with
      | .error _ => throw ("Failed to write " ++ path)
      | .ok () =>
        let renamed := report.renamed.map fun (old, new) =>
          String.join [old.fullName, " -> ", new.fullName]
        return .lines (renamed ++ [report.summary, "Wrote " ++ path])

/-- Prints the references to instances of types that are named after others. -/
def runReferences (settings : Settings) (graph : String) (naming : Option String)
    (asDocument : Bool) : ExceptT String m Printed := do
  let config ← loadNaming settings naming
  let loaded ← readDocument ElementGraph.ofDraft graph
  let batch : Batch := ⟨config, loaded.instances⟩
  let index := ReferenceIndex.build loaded.instances batch.nameableTargets
  if asDocument then return .lines [index.toJson.pretty]
  return .lines (index.shown loaded.referenceCount)

/-- Runs an index operation, and reports a failure with the given message. -/
def withIndex {α : Type} (failure : String) (action : IndexAction m α) : ExceptT String m α := do
  match ← ExceptT.lift (action.run.run' .empty) with
  | .ok value => return value
  | .error _ => throw failure

/-- Applies changes to the changed-at index. -/
def runApplyChanges (settings : Settings) (changes graph : String) (invalidCache : Bool)
    (store : Option String) : ExceptT String m Printed := do
  let root := store.getD settings.storeDir
  let batch ← readDocument (Json.Draft.items Change.ofDraft) changes
  let loaded ← readDocument ElementGraph.ofDraft graph
  let update ← withIndex "Failed to update changed-at index"
    ((IndexStores.onFiles root).update (pure loaded.elements) batch (!invalidCache))
  let done :=
    if update.rebuilt then
      String.join ["Rebuilt index from ", count loaded.elements.length, " elements"]
    else String.join ["Applied ", count batch.length, " changes"]
  return .lines [done,
    String.join [count update.keysSet, " keys written, ", count update.keysDeleted,
      " keys deleted (", (IndexStores.indexFile root).path, ")"]]

/-- Prints entries of the changed-at index. -/
def runQuery (settings : Settings) (lowest highest store : Option String) :
    ExceptT String m Printed := do
  let root := store.getD settings.storeDir
  let entries ← withIndex "Failed to read changed-at index"
    ((IndexStores.onFiles root).range lowest highest)
  if entries.isEmpty then return .lines ["(no entries)"]
  return .lines (entries.map fun (key, ids) =>
    String.join [key, ": ", ", ".intercalate (ids.map ElementId.fullName)])

/-- Changes a setting. -/
def runChangeSetting (surroundings : Surroundings) (settings : Settings) (key value : String) :
    ExceptT String m Printed := do
  match settings.change? value key with
  | none =>
    throw (String.join ["Unknown config key: ", key, ". Valid keys: store-dir, naming-config"])
  | some changed =>
    changed.save surroundings
    return .lines [String.join ["Set ", key, " to: ", value]]

/-- Does what a request asks for. -/
def run (surroundings : Surroundings) (settings : Settings) : Request → ExceptT String m Printed
  | resolve graph naming output => runResolve settings graph naming output
  | references graph naming asDocument => runReferences settings graph naming asDocument
  | applyChanges changes graph invalidCache store =>
    runApplyChanges settings changes graph invalidCache store
  | query lowest highest store => runQuery settings lowest highest store
  | showSettings => return .lines (settings.shown surroundings.settingsFile?)
  | changeSetting key value => runChangeSetting surroundings settings key value
  | printSetting key =>
    match settings.value? key with
    | some value => return .lines [value]
    | none => throw ("Unknown config key: " ++ key)
  | resetSettings => do
    Settings.standard.save surroundings
    return .lines ["Configuration reset to defaults"]
  | printSettingsPath =>
    return .lines [surroundings.settingsFile?.getD "(no config file path available)"]

/-- Loads the settings and does what a request asks for. -/
def perform (surroundings : Surroundings) (request : Request) : ExceptT String m Printed := do
  let settings ← Settings.load surroundings
  request.run surroundings settings

end Request

namespace Refusal

/-- What is printed for a command line that asks for nothing to be done. -/
def outcome : Refusal → Outcome
  | usage => ⟨2, "", "error: the command line is not understood\n"⟩
  | help => ⟨0, "Usage: eg [OPTIONS] <COMMAND>\n", ""⟩
  | version => ⟨0, "eg 0.1.0\n", ""⟩

end Refusal

/-- Does what a command line asks for. -/
def run {m : Type → Type} [Monad m] [FileSystem m] (surroundings : Surroundings)
    (arguments : List String) : m Outcome := do
  match Request.parse arguments with
  | .error refusal => return refusal.outcome
  | .ok request =>
    match ← surroundings.withEnvironmentFile with
    | none => return ⟨101, "", "the environment cannot hold the variables of its file\n"⟩
    | some surroundings =>
      match ← (request.perform surroundings).run with
      | .ok printed => return ⟨0, printed.output, printed.errors⟩
      | .error message => return ⟨1, "", String.join ["Error: ", message, "\n"]⟩

end ElementCatalog
