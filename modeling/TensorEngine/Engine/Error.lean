import TensorEngine.Backend.Error
import TensorEngine.Device.Driver

/-!
# Engine errors

Why an engine is not restored, or does not answer.
-/

namespace TensorEngine

/-- Why the logical indices of bindings are refused. -/
inductive IndexFault
  | pastCount
  | usedTwice
  deriving DecidableEq, Repr

/-- The wording of an index fault. -/
def IndexFault.message : IndexFault → String
  | .pastCount => "index is past the binding count"
  | .usedTwice => "index is used twice"

/-- Why an engine is not restored, or does not answer. -/
inductive EngineError
  | deviceMismatch (device : DeviceDescriptor) (builtFor : Capability)
  | malformedBindingName (error : MalformedBindingName)
  | malformedDeviceRecord (error : MalformedDeviceRecord)
  | device (error : DeviceError)
  | backend (error : BackendError)
  | bindingIndex (name : BindingName) (index : Nat) (reason : IndexFault)
  | inputCount (expected got : Nat)
  | missingOutput (index : Nat)
  | workerClosed
  deriving DecidableEq, Repr

/-- The wording of an engine error. -/
def EngineError.message : EngineError → String
  | .deviceMismatch active builtFor =>
    s!"engine was built for {builtFor.text}, which {active.text} cannot run"
  | .malformedBindingName error => error.message
  | .malformedDeviceRecord error => s!"invalid engine device metadata: {error.message}"
  | .device error => error.message
  | .backend error => error.message
  | .bindingIndex name index reason =>
    s!"binding `{name.text}` has logical index {index}: {reason.message}"
  | .inputCount expected got => s!"engine expects {expected} inputs, got {got}"
  | .missingOutput index => s!"engine produced no tensor for output {index}"
  | .workerClosed => "engine worker has shut down"

end TensorEngine
