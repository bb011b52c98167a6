import TensorEngine.CommandLine.Dialogue
import TensorEngine.Text.Path

/-!
# File systems in memory

The files of a working directory, and as much of what lies around it as paths can rely on: the
directories above it, the root, and the directories that every system has there. Only files are
made, so no directory lies in the working directory.

A path is walked segment by segment. Every segment but the last has to lead to a directory, and the
first that does not is the fault, so a name that is not there, one that is too long and one behind a
file are told apart by which of them comes first. A slash at the end asks for a directory.

## Main definitions

* `Place`, `FileSystem`, `FileSystem.entry?`: directories, their files, and what has a name in them
* `FileSystem.locate`: what a path leads to
* `FileSystem.read`, `FileSystem.write`: files under paths
* `Dialogue.hold`: what a dialogue prints, how it ends, and the file system after it
-/

namespace TensorEngine.CommandLine

open Text

/-- A directory. -/
inductive Place
  | working
  /-- A directory above the working directory; the nearest has level zero. -/
  | above (level : Nat)
  | root
  /-- A directory in the root. -/
  | system (name : String)
  deriving DecidableEq, Repr

/-- The directory that a directory lies in. The root lies in itself. -/
def Place.parent : Place → Place
  | .working => .above 0
  | .above level => .above (level + 1)
  | .root => .root
  | .system _ => .root

/-- The directories that every system has in its root. -/
def systemDirectories : List String :=
  ["bin", "boot", "dev", "etc", "lib", "media", "mnt", "opt", "run", "sbin", "srv", "tmp", "usr",
    "var"]

/-- What has a name in a directory. -/
inductive Entry
  | directory (place : Place)
  | file (content : Bytes)
  /-- The device that reads as empty and keeps nothing of what is written. -/
  | null
  deriving DecidableEq, Repr

/-- What a path leads to. -/
inductive Target
  | directory
  /-- A name in a directory, and whether a slash stands behind it. -/
  | name (place : Place) (name : String) (slash : Bool)
  deriving DecidableEq, Repr

/-- Files under the directories and names that they have. -/
abbrev FileSystem := List ((Place × String) × Bytes)

namespace FileSystem

/-- The longest name, in bytes. -/
def nameLimit : Nat := 255

/-- The longest path, in bytes. -/
def pathLimit : Nat := 4095

/-- Files in the working directory. -/
def ofWorking (files : List (String × Bytes)) : FileSystem :=
  files.map fun (name, content) => ((.working, name), content)

/-- The files in the working directory. -/
def working (system : FileSystem) : List (String × Bytes) :=
  system.filterMap fun ((place, name), content) =>
    if place = .working then some (name, content) else none

/-- What has a name in a directory. -/
def entry? (system : FileSystem) (place : Place) (name : String) : Option Entry :=
  if place = .root ∧ systemDirectories.contains name then some (.directory (.system name))
  else if place = .system "dev" ∧ name = "null" then some .null
  else (system.lookup (place, name)).map .file

/-- The directory that a segment of a path leads to from a directory. -/
def enter (system : FileSystem) (place : Place) (segment : String) : Except FileFault Place :=
  if segment = "." then .ok place
  else if segment = ".." then .ok place.parent
  else if nameLimit < segment.utf8ByteSize then .error .nameTooLong
  else
    match system.entry? place segment with
    | none => .error .notFound
    | some (.directory place) => .ok place
    | some _ => .error .notADirectory

/-- What a path leads to. -/
def locate (system : FileSystem) (path : String) : Except FileFault Target := do
  if pathLimit < path.utf8ByteSize then throw .nameTooLong
  if path = "" then throw .notFound
  let start := if Path.isAbsolute path then .root else .working
  let segments := Path.segments path
  match segments.getLast? with
  -- A path of slashes is the root.
  | none => return .directory
  | some last =>
    let place ← segments.dropLast.foldlM system.enter start
    if last = "." ∨ last = ".." then return .directory
    else return .name place last (Path.endsInSlash path)

/-- The bytes of a file. -/
def read (system : FileSystem) (path : String) : Except FileFault Bytes := do
  match ← system.locate path with
  | .directory => throw .isDirectory
  | .name place name slash =>
    if nameLimit < name.utf8ByteSize then throw .nameTooLong
    match system.entry? place name with
    | none => throw .notFound
    | some (.directory _) => throw .isDirectory
    | some (.file content) => if slash then throw .notADirectory else return content
    | some .null => if slash then throw .notADirectory else return []

/-- The file system with a file under a name, in place of one that was there. -/
def put (system : FileSystem) (place : Place) (name : String) (content : Bytes) : FileSystem :=
  system.filter (·.1 != (place, name)) ++ [((place, name), content)]

/-- Writes a file. -/
def write (system : FileSystem) (path : String) (content : Bytes) :
    Except FileFault FileSystem := do
  match ← system.locate path with
  | .directory => throw .isDirectory
  | .name place name slash =>
    -- A slash asks for a directory, and there is no file to be made, whatever has the name.
    if slash then throw .isDirectory
    if nameLimit < name.utf8ByteSize then throw .nameTooLong
    match system.entry? place name with
    | some (.directory _) => throw .isDirectory
    | some .null => return system
    | some (.file _) => return system.put place name content
    | none => return system.put place name content

end FileSystem

/-- What a dialogue prints, how it ends, and the file system after it. -/
def Dialogue.hold {α : Type} :
    Dialogue α → FileSystem → List String × Except Report α × FileSystem
  | .done result, system => ([], .ok result, system)
  | .fail report, system => ([], .error report, system)
  | .say line next, system =>
    let (lines, result, system) := next.hold system
    (line :: lines, result, system)
  | .read path next, system => (next (system.read path)).hold system
  | .write path content next, system =>
    match system.write path content with
    | .ok system => (next (.ok ())).hold system
    | .error fault => (next (.error fault)).hold system

end TensorEngine.CommandLine
