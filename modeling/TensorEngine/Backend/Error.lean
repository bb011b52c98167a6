import TensorEngine.Binding
import TensorEngine.Network.Inference
import TensorEngine.Tensor.Basic

/-!
# Backend errors

What a backend reports when an engine cannot be loaded or executed. A backend other than the
reference one gives its reasons as texts.

## Main definitions

* `DeserializeFault`, `ExecutionFault`: why an engine is not loaded, and why it fails
* `BackendError`: errors of a backend by the stage they belong to
-/

namespace TensorEngine

/-- Why bytes are not loaded as an engine. -/
inductive DeserializeFault
  /-- The bytes are not the text of a plan. -/
  | notAPlan
  | formatVersion (got expected : Nat)
  | missingTensor (binding : BindingName)
  | arity (layer : String) (got expected : Nat)
  | unready (layer : String) (tensor : TensorId)
  | missingTarget (layer : String)
  | noBinding (slot : Nat)
  | other (reason : String)
  deriving DecidableEq, Repr

/-- The wording of a fault in the text of a file, which does not go into details. -/
def malformedTextMessage : String := "<json>"

/-- The wording of a deserialization fault. -/
def DeserializeFault.message : DeserializeFault → String
  | .notAPlan => malformedTextMessage
  | .formatVersion got expected => s!"plan format {got} is not supported (expected {expected})"
  | .missingTensor binding => s!"binding `{binding.text}` refers to a missing tensor"
  | .arity layer got expected => s!"layer `{layer}` has {got} inputs, expected {expected}"
  | .unready layer tensor => s!"layer `{layer}` reads tensor {tensor.index} before it is produced"
  | .missingTarget layer => s!"layer `{layer}` writes a missing tensor"
  | .noBinding slot => s!"engine reports no binding at slot {slot}"
  | .other reason => reason

/-- Why an execution fails. -/
inductive ExecutionFault
  | slotCount (expected got : Nat)
  | inputMissing (name : BindingName)
  | inputMismatch (spec : BindingSpec) (dtype : DType) (shape : Shape)
  | unknownTensor (id : TensorId)
  | missingOperand (position : Nat)
  | neverComputed (name : BindingName)
  | unsupportedType (dtype : DType)
  | reshapeNotConcrete (dims : Dims)
  | outputNotConcrete (dims : Dims)
  | network (error : NetworkError)
  | tensor (error : TensorError)
  | layer (name : String) (cause : ExecutionFault)
  | fault (fault : Fault)
  | other (reason : String)
  deriving DecidableEq, Repr

instance : HasFault ExecutionFault := ⟨.fault⟩

/-- The wording of an execution fault. -/
def ExecutionFault.message : ExecutionFault → String
  | .slotCount expected got => s!"expected {expected} binding slots, got {got}"
  | .inputMissing name => s!"input `{name.text}` was not provided"
  | .inputMismatch spec dtype shape =>
    s!"input `{spec.name.text}` expects {spec.dtype} {Dims.text spec.dims}, " ++
      s!"got {dtype} {Shape.text shape}"
  | .unknownTensor id => s!"plan references unknown tensor {id.index}"
  | .missingOperand position => s!"missing input {position}"
  | .neverComputed name => s!"output `{name.text}` was never computed"
  | .unsupportedType dtype => s!"{dtype} compute is not supported"
  | .reshapeNotConcrete dims => s!"reshape target {Dims.text dims} is not concrete"
  | .outputNotConcrete dims => s!"output dims {Dims.text dims} are not concrete"
  | .network error => error.message
  | .tensor error => error.message
  | .layer name cause => s!"layer `{name}`: {cause.message}"
  | .fault cause => cause.message
  | .other reason => reason

/-- An error of a backend. -/
inductive BackendError
  | deserialize (fault : DeserializeFault)
  | context (reason : String)
  | execution (fault : ExecutionFault)
  deriving DecidableEq, Repr

/-- The wording of a backend error. -/
def BackendError.message : BackendError → String
  | .deserialize fault => s!"failed to deserialize engine: {fault.message}"
  | .context reason => s!"failed to create execution context: {reason}"
  | .execution fault => s!"execution failed: {fault.message}"

end TensorEngine
