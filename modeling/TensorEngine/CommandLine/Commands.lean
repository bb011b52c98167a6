import TensorEngine.CommandLine.Arguments
import TensorEngine.CommandLine.Dialogue
import TensorEngine.Device.List
import TensorEngine.Engine.Table
import TensorEngine.Json.Pretty
import TensorEngine.Text.Path

/-!
# Commands

What each command of the program does, as a dialogue: listing devices, compiling a graph file into
an engine file, describing an engine file, and running one.

## Main definitions

* `Invocation.dialogue`: what an invocation does
* `reply`: what the program answers to its arguments
-/

namespace TensorEngine.CommandLine

open Dialogue

/-- The report of a text that is not of the form that is asked for. -/
def malformedText : Report :=
  .plain malformedTextMessage

/-- The driver of devices with the given capabilities. -/
def driverOf (devices : List String) : Dialogue SimulatedDriver := do
  let capabilities ← require (fun fault : CapabilityFault => Report.ofMessages fault.messages)
    (devices.mapM Capability.parse)
  return .ofCapabilities capabilities

/-- Prints one line for each line of a text that ends in a line break. -/
def printLines (text : String) : Dialogue Unit :=
  if text = "" then .done () else print (String.ofList (text.toList.dropLast))

/-- Lists the devices. -/
def listDevices (driver : SimulatedDriver) : Dialogue Unit := do
  let list := DeviceList.enumerate driver
  print s!"{list.size} device(s), active: {driver.activeId.toInt}"
  printLines list.text

/-- The configuration of a file, the standard one when there is no file. -/
def readConfig : Option String → Dialogue BuildConfig
  | none => .done .standard
  | some path => do
    let text ← readText path
    requireSome ⟨"invalid build config", [malformedTextMessage]⟩ (BuildConfig.parse? text)

/-- Compiles a graph file into an engine file. -/
def compileFile (driver : SimulatedDriver) (graph output : String) (config : Option String)
    (target : Int32) (dynamicShape : Bool) : Dialogue Unit := do
  let text ← readText graph
  let file ← requireSome malformedText (GraphFile.parse? text)
  let graph ← require (fun e : GraphFileError => Report.ofMessages e.messages) file.toGraph
  -- Names are resolved before the configuration is read, and that before the device is looked up.
  let config ← readConfig config
  let device ← require (fun e : DeviceError => Report.plain e.message)
    (DeviceDriver.properties driver target)
  let artifact ← require Report.ofCompile
    (TensorEngine.compile .builtin ⟨dynamicShape, device⟩ referenceBuilder config graph)
  writeFile output artifact.toPayload.toFile

/-- The payload of an engine file. -/
def readPayload (path : String) : Dialogue EnginePayload := do
  let content ← readFile path
  require (fun e : PayloadError => Report.plain e.message) (EnginePayload.ofFile content)

/-- The engine of an engine file. -/
def restoreEngine (driver : SimulatedDriver) (path : String) (payload : EnginePayload) :
    Dialogue Engine :=
  require Report.ofEngine
    (Engine.restore driver referenceBackend (Text.Path.moduleName path) payload).2

/-- The line about the recorded device. -/
def recordLine (payload : EnginePayload) : Dialogue String :=
  if payload.deviceRecord.isEmpty then .done "device: none recorded (legacy form)"
  else do
    let device ← require (fun e : MalformedDeviceRecord => Report.plain e.message)
      (DeviceDescriptor.decode payload.deviceRecord)
    return s!"device: {device.text}"

/-- The line about a slot. -/
def slotLine (slot : Nat) (spec : BindingSpec) : String :=
  let kind := if spec.isInput then "input" else "output"
  s!"  slot {slot}: {kind} {spec.name.text} {spec.dtype} {Dims.text spec.dims}"

/-- The lines about an engine. -/
def engineLines (engine : Engine) : List String :=
  let (inputs, outputs) := engine.counts
  let heading := s!"engine: {engine.name} ({inputs} inputs, {outputs} outputs)"
  let capability := engine.loaded.builtFor.toList.map fun c => s!"built for: {c.text}"
  let slots := (List.range engine.loaded.slotCount).filterMap fun slot =>
    (engine.loaded.binding? slot).map (slotLine slot)
  heading :: capability ++ slots

/-- Describes an engine file. -/
def inspectFile (driver : SimulatedDriver) (path : String) : Dialogue Unit := do
  let payload ← readPayload path
  let line ← recordLine payload
  print line
  let engine ← restoreEngine driver path payload
  (engineLines engine).forM print

/-- The tensors of an inputs file. -/
def readInputs (path : String) : Dialogue (List Tensor) := do
  let text ← readText path
  let records ← requireSome ⟨"invalid inputs file", [malformedTextMessage]⟩
    (TensorRecord.parseList? text)
  require (fun e : TensorError => Report.plain e.message) (records.mapM TensorRecord.toTensor)

/-- What a run answers. Times are not measured. -/
def runReport (outputs : List TensorRecord) : Json :=
  .ofMembers [("outputs", .ofList TensorRecord.toJson outputs),
    ("timings", .ofMembers [("backend_us", .ofNat 0), ("queued_us", .ofNat 0)])]

/-- Runs an engine file. -/
def runFile (driver : SimulatedDriver) (path inputs : String) : Dialogue Unit := do
  let payload ← readPayload path
  -- Both files are read before anything is restored.
  let inputs ← readInputs inputs
  let engine ← restoreEngine driver path payload
  let outputs ← require Report.ofEngine ((Worker.start engine).answer inputs)
  let records ← require (fun e : TensorError => Report.plain e.message)
    (outputs.mapM TensorRecord.ofTensor)
  print ((Bytes.toString? (runReport records).pretty).getD "")

/-- What an invocation does. -/
def Invocation.dialogue (invocation : Invocation) : Dialogue Unit := do
  let driver ← driverOf invocation.devices
  match invocation.command with
  | .devices => listDevices driver
  | .compile graph output config target dynamicShape =>
    compileFile driver graph output config target dynamicShape
  | .inspect engine => inspectFile driver engine
  | .run engine inputs => runFile driver engine inputs

/-- What the program answers to its arguments at once, or the dialogue it enters. -/
inductive Reply
  | usage
  | version (text : String)
  | dialogue (dialogue : Dialogue Unit)

/-- The name and the version of the program. -/
def versionText : String := "engineport 0.1.0"

/-- What the program answers to its arguments. -/
def reply (arguments : List String) : Reply :=
  match parse arguments with
  | .error .usage => .usage
  | .error .version => .version versionText
  | .ok invocation => .dialogue invocation.dialogue

end TensorEngine.CommandLine
