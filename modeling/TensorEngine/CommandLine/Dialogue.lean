import TensorEngine.Bytes
import TensorEngine.CommandLine.Report

/-!
# Dialogues

What a command does to the world: it prints lines, reads files and writes files, and goes on with
what it was answered. A dialogue is a finite tree of such steps; it can be held with the file system
of a machine, or with one in memory.

## Main definitions

* `Dialogue`: dialogues and how they are put together
* `FileFault`: why a file cannot be read or written
-/

namespace TensorEngine.CommandLine

/-- Why a file cannot be read or written. -/
inductive FileFault
  | notFound
  | isDirectory
  | notADirectory
  | nameTooLong
  | other (text : String)
  deriving DecidableEq, Repr

/-- The wording of a file fault. -/
def FileFault.message : FileFault → String
  | .notFound => "No such file or directory (os error 2)"
  | .isDirectory => "Is a directory (os error 21)"
  | .notADirectory => "Not a directory (os error 20)"
  | .nameTooLong => "File name too long (os error 36)"
  | .other text => text

/-- A dialogue that ends with a result or with a report. -/
inductive Dialogue (α : Type) : Type
  | done (result : α)
  | fail (report : Report)
  /-- Prints a line. -/
  | say (line : String) (next : Dialogue α)
  /-- Reads a file. -/
  | read (path : String) (next : Except FileFault Bytes → Dialogue α)
  /-- Writes a file. -/
  | write (path : String) (content : Bytes) (next : Except FileFault Unit → Dialogue α)

namespace Dialogue

variable {α β ε : Type}

/-- Goes on with the result. -/
def andThen (dialogue : Dialogue α) (next : α → Dialogue β) : Dialogue β :=
  match dialogue with
  | .done result => next result
  | .fail report => .fail report
  | .say line rest => .say line (rest.andThen next)
  | .read path k => .read path fun answer => (k answer).andThen next
  | .write path content k => .write path content fun answer => (k answer).andThen next

instance : Monad Dialogue where
  pure := .done
  bind := andThen

/-- Prints a line. -/
def print (line : String) : Dialogue Unit :=
  .say line (.done ())

/-- Ends with the report of an error. -/
def require (report : ε → Report) : Except ε α → Dialogue α
  | .ok result => .done result
  | .error error => .fail (report error)

/-- Ends with a report when there is no result. -/
def requireSome (report : Report) : Option α → Dialogue α
  | some result => .done result
  | none => .fail report

/-- The bytes of a file. -/
def readFile (path : String) : Dialogue Bytes :=
  .read path (require fun fault => ⟨s!"failed to read {path}", [fault.message]⟩)

/-- The bytes of a file that has to be text. -/
def readText (path : String) : Dialogue Bytes := do
  let content ← readFile path
  if (Bytes.toString? content).isSome then return content
  else .fail ⟨s!"failed to read {path}", ["stream did not contain valid UTF-8"]⟩

/-- Writes a file. -/
def writeFile (path : String) (content : Bytes) : Dialogue Unit :=
  .write path content (require fun fault => ⟨s!"failed to write {path}", [fault.message]⟩)

end Dialogue

end TensorEngine.CommandLine
