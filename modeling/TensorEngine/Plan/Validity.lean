import TensorEngine.Backend.Error
import TensorEngine.Plan.Text

/-!
# Valid plans

A plan is checked when it is loaded: its bindings refer to tensors of the network, and every layer
has as many operands as it computes from, reads only tensors that are inputs or were written by
layers before it, and writes a tensor of the network.

## Main definitions

* `EnginePlan.validate`: the check of a plan
* `EnginePlan.load`: the valid plan that engine bytes write
-/

namespace TensorEngine

/-- The number of operands of a layer. -/
def LayerKind.arity : LayerKind → Nat
  | .constant _ => 0
  | .shuffle _ => 1
  | .matrixMultiply _ _ | .elementWise _ => 2

/-- Every layer reads only what is available before it; `count` is the number of tensors. -/
def checkReads (count : Nat) : (available : List TensorId) → List Layer →
    Except DeserializeFault Unit
  | _, [] => .ok ()
  | available, layer :: rest => do
    if layer.inputs.length ≠ layer.kind.arity then
      throw (.arity layer.name layer.inputs.length layer.kind.arity)
    match layer.inputs.find? fun id => id ∉ available with
    | some id => throw (.unready layer.name id)
    | none =>
      if count ≤ layer.output.index then throw (.missingTarget layer.name)
      -- What a layer writes can be read by the layers behind it.
      checkReads count (layer.output :: available) rest

namespace EnginePlan

/-- The tensors that are given from outside. -/
def inputTensors (plan : EnginePlan) : List TensorId :=
  (plan.bindings.filter (·.spec.isInput)).map (·.tensor)

/-- The check of a plan when it is loaded. -/
def validate (plan : EnginePlan) : Except DeserializeFault Unit :=
  let count := plan.network.tensors.length
  match plan.bindings.find? fun b => count ≤ b.tensor.index with
  | some b => .error (.missingTensor b.spec.name)
  | none => checkReads count plan.inputTensors plan.network.layers

/-- The valid plan that engine bytes write. -/
def load (engine : Bytes) : Except DeserializeFault EnginePlan := do
  match parse? engine with
  | none => throw .notAPlan
  | some plan =>
    if plan.formatVersion ≠ planFormatVersion then
      throw (.formatVersion plan.formatVersion planFormatVersion)
    plan.validate
    return plan

end EnginePlan

end TensorEngine
