import ElementCatalog.Files.Basic
import Std.Data.ExtTreeMap

/-!
# A file system as a value

A `Disk` is a tree of directories and text files, with a working directory that relative paths
start from. Its operations are pure, so a program that asks only for a `FileSystem` can be run
and reasoned about on a value.

A path is followed step by step. Each step, also one that stays in place, asks for a directory to
start from, so a path that goes through a file fails, and a path that ends with a slash leads to
no file. Names have at most 255 bytes and paths at most 4095, and neither holds a character zero.
-/

namespace ElementCatalog

/-- What a directory holds under a name. -/
inductive FileNode where
  /-- A directory. -/
  | directory
  /-- A file with its text. -/
  | file (text : String)
deriving DecidableEq, Repr

/-- A place on a disk: the names on the way from the root. -/
abbrev Location := List String

/-- Directories and files, and a working directory. -/
structure Disk where
  /-- What lies at a location. The root is a directory of its own. -/
  nodes : Std.ExtTreeMap Location FileNode
  /-- The location that relative paths start from. -/
  workingDirectory : Location

namespace Disk

/-- How many bytes a name can have. -/
def nameLimit : Nat := 255

/-- How many bytes a path can have. -/
def pathLimit : Nat := 4095

/-- Succeeds if a path is not too long and can be written. -/
def requirePath (path : String) : Except FileError Unit :=
  if path.utf8ByteSize ≤ pathLimit ∧ '\x00' ∉ path.toList then .ok () else .error .failed

/-- Succeeds if a name is not too long. -/
def requireName (name : String) : Except FileError Unit :=
  if name.utf8ByteSize ≤ nameLimit then .ok () else .error .failed

/-- What lies at a location. -/
def node? (disk : Disk) (location : Location) : Option FileNode :=
  if location = [] then some .directory else disk.nodes[location]?

/-- The disk with something at a location. -/
def place (location : Location) (node : FileNode) (disk : Disk) : Disk :=
  { disk with nodes := disk.nodes.insert location node }

/-- Succeeds if a directory lies at a location. -/
def requireDirectory (disk : Disk) (location : Location) : Except FileError Unit :=
  match disk.node? location with
  | some .directory => .ok ()
  | some (.file _) => .error .failed
  | none => .error .notFound

/-- The location one step away. -/
def move (location : Location) (step : String) : Location :=
  if step = "" ∨ step = "." then location
  else if step = ".." then location.dropLast
  else location ++ [step]

/-- The components of a path, between slashes. -/
def components : List Char → List (List Char)
  | [] => [[]]
  | c :: rest =>
    if c = Path.separator then [] :: components rest
    else (components rest).modifyHead (c :: ·)

/-- The steps of a path and the location they start from. -/
def stepsOf (disk : Disk) (path : String) : Location × List String :=
  match path.toList with
  | [] => (disk.workingDirectory, [])
  | c :: rest =>
    if c = Path.separator then ([], (components rest).map String.ofList)
    else (disk.workingDirectory, (components (c :: rest)).map String.ofList)

/-- The location at the end of steps. Nothing needs to lie there. -/
def follow (disk : Disk) (location : Location) : List String → Except FileError Location
  | [] => .ok location
  | step :: rest => do
    disk.requireDirectory location
    requireName step
    disk.follow (move location step) rest

/-- The location that a path leads to. The empty path leads nowhere. -/
def locate (disk : Disk) (path : String) : Except FileError Location := do
  requirePath path
  if path = "" then throw .notFound
  let (start, steps) := disk.stepsOf path
  disk.follow start steps

/-- What lies where a path leads to. -/
def find (disk : Disk) (path : String) : Except FileError FileNode := do
  match disk.node? (← disk.locate path) with
  | some node => return node
  | none => throw .notFound

/-- The text of a file. -/
def readText (disk : Disk) (path : String) : Except FileError String := do
  match ← disk.find path with
  | .file text => return text
  | .directory => throw .failed

/-- The disk with a text in a file. -/
def writeText (path text : String) (disk : Disk) : Except FileError Disk := do
  let location ← disk.locate path
  match disk.node? location with
  | some .directory => throw .failed
  | _ => return disk.place location (.file text)

/-- Makes all directories on the way to the end of steps. Those that were made before a step
failed stay. -/
def createAlong (location : Location) : List String → Disk → Except FileError Unit × Disk
  | [], disk => (.ok (), disk)
  | step :: rest, disk =>
    let next := move location step
    match disk.node? next, requireName step with
    | some .directory, _ => createAlong next rest disk
    | some (.file _), _ => (.error .failed, disk)
    | none, .ok () => createAlong next rest (disk.place next .directory)
    | none, .error error => (.error error, disk)

/-- Makes a directory and those on the way to it. -/
def createDirectories (path : String) (disk : Disk) : Except FileError Unit × Disk :=
  match requirePath path with
  | .error error => (.error error, disk)
  | .ok () =>
    let (start, steps) := disk.stepsOf path
    createAlong start steps disk

/-- The disk with a file at another path. -/
def rename (source target : String) (disk : Disk) : Except FileError Disk := do
  let held ← disk.find source
  let oldLocation ← disk.locate source
  let newLocation ← disk.locate target
  match disk.node? newLocation with
  | some .directory => throw .failed
  -- The file at the new path gives way.
  | _ => return ({ disk with nodes := disk.nodes.erase oldLocation }).place newLocation held

/-- What a path leads to. -/
def kindOf (disk : Disk) (path : String) : Except FileError FileKind := do
  match ← disk.find path with
  | .file _ => return .file
  | .directory => return .directory

/-- The disk with a file at a location and the directories on the way to it. -/
def withFile (location : Location) (text : String) (disk : Disk) : Disk :=
  let directories := (List.range location.length).map location.take
  let made := directories.foldl
    (fun disk directory =>
      if directory = [] then disk else disk.place directory .directory) disk
  made.place location (.file text)

/-- A change of the disk, which stays as it was if the change fails. -/
def attempt (change : Disk → Except FileError Disk) : StateM Disk (Except FileError Unit) :=
  fun disk =>
    match change disk with
    | .ok changed => (.ok (), changed)
    | .error error => (.error error, disk)

instance : FileSystem (StateM Disk) where
  readText path := fun disk => (disk.readText path, disk)
  writeText path text := attempt (writeText path text)
  createDirectories path := createDirectories path
  rename source target := attempt (rename source target)
  kindOf path := fun disk => (disk.kindOf path, disk)

end Disk

end ElementCatalog
