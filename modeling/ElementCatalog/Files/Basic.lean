/-!
# File systems

What a program asks of a file system, as operations of a monad. An operation can fail; it then
tells whether something was not found or whether it failed in another way.

`Path.join` and `Path.ancestors` work on paths as text.
-/

namespace ElementCatalog

/-- Why a file operation failed. -/
inductive FileError where
  /-- A file or a directory on the way to it does not exist. -/
  | notFound
  /-- Any other failure. -/
  | failed
deriving DecidableEq, Repr

/-- What a path can lead to. -/
inductive FileKind where
  /-- A file. -/
  | file
  /-- A directory. -/
  | directory
deriving DecidableEq, Repr

/-- The operations of a file system. Paths are texts. -/
class FileSystem (m : Type → Type) where
  /-- The text of a file. -/
  readText : String → m (Except FileError String)
  /-- Gives a file a text. The directory of the file has to exist. -/
  writeText : String → String → m (Except FileError Unit)
  /-- Makes a directory, and those on the way to it, unless they exist. -/
  createDirectories : String → m (Except FileError Unit)
  /-- Gives a file another path, in place of a file that may be there. -/
  rename : String → String → m (Except FileError Unit)
  /-- What a path leads to. -/
  kindOf : String → m (Except FileError FileKind)

namespace FileSystem

variable {m : Type → Type} [Monad m] [FileSystem m]

instance {σ : Type} : FileSystem (StateT σ m) where
  readText path := StateT.lift (readText path)
  writeText path text := StateT.lift (writeText path text)
  createDirectories path := StateT.lift (createDirectories path)
  rename source target := StateT.lift (rename source target)
  kindOf path := StateT.lift (kindOf path)

instance {ε : Type} : FileSystem (ExceptT ε m) where
  readText path := ExceptT.lift (readText path)
  writeText path text := ExceptT.lift (writeText path text)
  createDirectories path := ExceptT.lift (createDirectories path)
  rename source target := ExceptT.lift (rename source target)
  kindOf path := ExceptT.lift (kindOf path)

end FileSystem

namespace Path

/-- The character between the components of a path. -/
def separator : Char := '/'

/-- Whether a path does not depend on the working directory. -/
def isAbsolute (path : String) : Bool :=
  path.toList.head? = some separator

/-- A path relative to a directory. An absolute path stays as it is. -/
def join (directory path : String) : String :=
  if isAbsolute path then path
  else if directory = "" ∨ directory.toList.getLast? = some separator then directory ++ path
  else directory ++ "/" ++ path

/-- The path without its last name, if it is one below the root. -/
def parent? (path : String) : Option String :=
  match (path.toList.reverse.dropWhile (· ≠ separator)) with
  | [] => none
  | [_] => if path = "/" then none else some "/"
  | _ :: rest => some (String.ofList rest.reverse)

/-- A directory and those that it lies in, given how many there can be. -/
def upward : Nat → String → List String
  | 0, _ => []
  | count + 1, directory =>
    directory ::
      match parent? directory with
      | none => []
      | some outer => upward count outer

/-- An absolute directory and those that it lies in, the innermost first. -/
def ancestors (directory : String) : List String :=
  upward (directory.toList.length + 1) directory

end Path

end ElementCatalog
