import TensorEngine.CommandLine.Transcript

/-!
# The program

Holds the dialogue of a command with the file system and the terminal.
-/

namespace TensorEngine.CommandLine

/-- The fault that an error of the file system is. -/
def faultOf : IO.Error → FileFault
  | .noFileOrDirectory .. => .notFound
  | .inappropriateType _ code _ => if code = 20 then .notADirectory else .isDirectory
  | error@(.invalidArgument _ code _) =>
    if code = 36 then .nameTooLong else .other (toString error)
  | error => .other (toString error)

/-- A result of the file system, or its fault. -/
def attempted {α : Type} (action : IO α) : IO (Except FileFault α) := do
  match ← action.toBaseIO with
  | .ok result => return .ok result
  | .error error => return .error (faultOf error)

/-- Holds a dialogue with the file system. -/
def converse : Dialogue Unit → IO (Except Report Unit)
  | .done () => return .ok ()
  | .fail report => return .error report
  | .say line next => do
    IO.println line
    converse next
  | .read path next => do
    let content ← attempted (IO.FS.readBinFile path)
    converse (next (content.map (·.data.toList)))
  | .write path content next => do
    let result ← attempted (IO.FS.writeBinFile path ⟨content.toArray⟩)
    converse (next result)

end TensorEngine.CommandLine

open TensorEngine.CommandLine

/-- Runs the program and returns its exit status. -/
def main (arguments : List String) : IO UInt32 := do
  match reply arguments with
  | .usage =>
    IO.eprintln usageText
    return 2
  | .version text =>
    IO.println text
    return 0
  | .dialogue dialogue =>
    match ← converse dialogue with
    | .ok () => return 0
    | .error report =>
      IO.eprintln report.text
      return 1
