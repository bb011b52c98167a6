import TensorEngine.Build.Builder
import TensorEngine.Device.CapabilityText
import TensorEngine.Engine.Error
import TensorEngine.File.Graph

/-!
# Error reports

What the program prints about an error: its wording, and under a heading of their own the wordings
of its causes, indented, and numbered if there are several.

## Main definitions

* `Report`: an error and its causes
* `Report.text`: the text of a report
-/

namespace TensorEngine.CommandLine

/-- The wording of an error, and the wordings of its causes, outermost first. -/
structure Report where
  message : String
  causes : List String
  deriving DecidableEq, Repr

/-- The lines of a cause: `first` stands in front of the first one, `others` of the others. -/
def hang (first others cause : String) : String :=
  first ++ (("\n" ++ others).intercalate (cause.splitOn "\n"))

/-- The number of a cause, right aligned. -/
def causeNumber (number : Nat) : String :=
  let digits := toString number
  String.ofList (List.replicate (5 - digits.length) ' ') ++ digits ++ ": "

namespace Report

/-- A report without causes. -/
def plain (message : String) : Report :=
  ⟨message, []⟩

/-- The report of these wordings. -/
def ofMessages : List String → Report
  | [] => plain ""
  | message :: causes => ⟨message, causes⟩

/-- The texts of the causes. -/
def causeTexts (report : Report) : List String :=
  match report.causes with
  | [cause] => [hang "    " "    " cause]
  | causes => causes.zipIdx.map fun (cause, number) => hang (causeNumber number) "       " cause

/-- The text of a report. -/
def text (report : Report) : String :=
  let heading := s!"Error: {report.message}"
  if report.causes.isEmpty then heading
  else "\n".intercalate (heading :: "" :: "Caused by:" :: report.causeTexts)

/-- The report of a lowering error. Errors of the graph and of the network are named again. -/
def ofLowering (error : LoweringError) : Report :=
  match error with
  | .graph cause => ⟨error.message, [cause.message]⟩
  | .network cause => ⟨error.message, [cause.message]⟩
  | .unsupportedOperation _ | .rule _ _ => plain error.message

/-- The report of a compile error. The error of a build is named again. -/
def ofCompile (error : CompileError) : Report :=
  match error with
  | .lowering cause => ofLowering cause
  | .build cause => ⟨error.message, [cause.message]⟩

/-- The report of an engine error. A malformed record is named again. -/
def ofEngine (error : EngineError) : Report :=
  match error with
  | .malformedDeviceRecord cause => ⟨error.message, [cause.message]⟩
  | _ => plain error.message

end Report

end TensorEngine.CommandLine
