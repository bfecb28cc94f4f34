import ElementCatalog.Command.Account
import ElementCatalog.Command.Run

/-!
# The command line

The program `eg` works on the files and the environment that it is started with. Everything that
it does is decided by `run`; this module gives it access to the machine.
-/

namespace ElementCatalog

namespace FileError

/-- What a failure of the machine counts as. -/
def ofFailure : IO.Error → FileError
  | .noFileOrDirectory .. => notFound
  | _ => failed

end FileError

/-- The outcome of a file operation on the machine. -/
def attempted {α : Type} (action : IO α) : IO (Except FileError α) := do
  try return .ok (← action)
  catch failure => return .error (.ofFailure failure)

/-- The file system of the machine. What leads to a directory can be followed by another step. -/
instance : FileSystem IO where
  readText path := attempted <| IO.FS.readFile path
  writeText path text := attempted <| IO.FS.writeFile path text
  createDirectories path := attempted <| IO.FS.createDirAll path
  rename source target := attempted <| IO.FS.rename source target
  kindOf path := do
    match ← attempted <| IO.FS.realPath path with
    | .error failure => return .error failure
    | .ok _ =>
      -- Only a directory has an entry for itself.
      match ← attempted <| IO.FS.realPath (path ++ "/.") with
      | .error _ => return .ok .file
      | .ok _ => return .ok .directory

/-- The environment variables that the program itself looks at. -/
def knownNames : List String :=
  ["HOME", "XDG_CONFIG_HOME", "EG_STORE_DIR", "EG_NAMING_CONFIG"]

/-- The environment variables. A machine that does not list them is asked for the known ones. -/
def machineEnvironment : IO Environment := do
  match ← attempted <| IO.FS.readFile "/proc/self/environ" with
  | .ok text => return Environment.ofEntries ((text.splitOn "\x00").filter (· ≠ ""))
  | .error _ =>
    knownNames.filterMapM fun name => do
      return (← IO.getEnv name).map (name, ·)

/-- The home directory of the account that the program runs for. -/
def machineHome : IO (Option String) := do
  let status ← attempted <| IO.FS.readFile "/proc/self/status"
  let accounts ← attempted <| IO.FS.readFile "/etc/passwd"
  match status, accounts with
  | .ok status, .ok accounts => return (Account.numberOf? status).bind (Account.homeOf? accounts)
  | _, _ => return none

/-- What the program is started in. -/
def startingSurroundings : IO Surroundings := do
  return ⟨← machineEnvironment, (← IO.currentDir).toString, ← machineHome⟩

end ElementCatalog

open ElementCatalog in
/-- Does what the command line asks for. -/
def main (arguments : List String) : IO UInt32 := do
  let outcome ← run (← startingSurroundings) arguments
  IO.print outcome.output
  IO.eprint outcome.errors
  return outcome.code.toUInt32
