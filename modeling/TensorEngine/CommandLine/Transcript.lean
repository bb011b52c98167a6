import TensorEngine.CommandLine.Commands
import TensorEngine.CommandLine.FileSystem

/-!
# Transcripts

What a run of the program leaves behind: its exit status, what it printed, what it complained
about, and the files.

## Main definitions

* `Transcript`, `runIn`, `runsIn`: runs of the program in a file system
-/

namespace TensorEngine.CommandLine

/-- What a run of the program leaves behind. -/
structure Transcript where
  status : Nat
  output : String
  complaint : String
  files : FileSystem
  deriving DecidableEq, Repr

/-- The text of lines, each with a line break. -/
def linesText (lines : List String) : String :=
  String.join (lines.map (· ++ "\n"))

/-- What the program prints when its arguments break the grammar. -/
def usageText : String := "Usage: [OPTIONS] <COMMAND>"

/-- A run of the program in a file system. -/
def runIn (arguments : List String) (files : FileSystem) : Transcript :=
  match reply arguments with
  | .usage => ⟨2, "", linesText [usageText], files⟩
  | .version text => ⟨0, linesText [text], "", files⟩
  | .dialogue dialogue =>
    match dialogue.hold files with
    | (lines, .ok (), files) => ⟨0, linesText lines, "", files⟩
    | (lines, .error report, files) => ⟨1, linesText lines, linesText [report.text], files⟩

/-- Runs of the program in one file system, one after the other. -/
def runsIn (runs : List (List String)) (files : FileSystem) : List Transcript :=
  match runs with
  | [] => []
  | arguments :: rest =>
    let transcript := runIn arguments files
    transcript :: runsIn rest transcript.files

end TensorEngine.CommandLine
