import TensorEngine.Execution.Kernels
import TensorEngine.Plan.Basic

/-!
# Executing plans

A plan is executed over numbered slots. Inputs are taken out of their slots and become values of
tensors of the network, the layers compute further values one after the other, and the values of
outputs are put into their slots. An error leaves the slots as they are at that point.

## Main definitions

* `Values`, `runLayers`: the values known so far, and what layers add to them
* `EnginePlan.execute`: the slots after an execution, and whether it succeeded
-/

namespace TensorEngine

/-- The values of the tensors of a network as far as they are known. -/
abbrev Values := List (Option Tensor)

/-- What the slots of an engine hold. -/
abbrev Slots := List (Option Tensor)

/-- The value of a tensor, if it is known. -/
def Values.get? (values : Values) (id : TensorId) : Option Tensor :=
  values[id.index]?.join

/-- The values with one more known. -/
def Values.store (values : Values) (id : TensorId) (t : Tensor) : Except ExecutionFault Values :=
  if id.index < values.length then .ok (values.set id.index (some t))
  else .error (.unknownTensor id)

/-- The operand of a layer at a position. -/
def Layer.operand (layer : Layer) (values : Values) (position : Nat) :
    Except ExecutionFault Tensor :=
  match layer.inputs[position]?.bind values.get? with
  | some t => .ok t
  | none => .error (.missingOperand position)

/-- What a layer computes from the values before it. -/
def Layer.compute (layer : Layer) (values : Values) : Except ExecutionFault Tensor :=
  match layer.kind with
  | .constant weights => .ok weights
  | .shuffle spec => do
    let t ← layer.operand values 0
    t.shuffle spec
  | .matrixMultiply op0 op1 => do
    let a ← layer.operand values 0
    let b ← layer.operand values 1
    a.matrixMultiply op0 b op1
  | .elementWise op => do
    let a ← layer.operand values 0
    let b ← layer.operand values 1
    a.elementWise b op

/-- The values after a layer. -/
def Layer.run (layer : Layer) (values : Values) : Except ExecutionFault Values := do
  let t ← (layer.compute values).mapError (.layer layer.name)
  values.store layer.output t

/-- The values after the layers, up to the first one that fails. -/
def runLayers : List Layer → Values → Values × Except ExecutionFault Unit
  | [], values => (values, .ok ())
  | layer :: rest, values =>
    match layer.run values with
    | .ok values => runLayers rest values
    | .error e => (values, .error e)

/-- The tensor fits what is bound to the slot. -/
def BindingSpec.fits (spec : BindingSpec) (t : Tensor) : Bool :=
  t.dtype = spec.dtype && Dims.describes spec.dims t.shape

/-- Takes one input, which becomes the value of its tensor. -/
def PlanBinding.takeInput (binding : PlanBinding) (slot : Option Tensor) (values : Values) :
    Except ExecutionFault Values :=
  match slot with
  | none => .error (.inputMissing binding.spec.name)
  | some t =>
    if binding.spec.fits t then values.store binding.tensor t
    else .error (.inputMismatch binding.spec t.dtype t.shape)

/-- Takes the inputs out of the slots that belong to the bindings. -/
def takeInputs : List PlanBinding → Slots → Values → Slots × Values × Except ExecutionFault Unit
  | binding :: bindings, slot :: slots, values =>
    if binding.spec.isInput then
      match binding.takeInput slot values with
      -- The slot is emptied even when its tensor does not fit.
      | .error e => (none :: slots, values, .error e)
      | .ok values =>
        let (slots, values, result) := takeInputs bindings slots values
        (none :: slots, values, result)
    else
      let (slots, values, result) := takeInputs bindings slots values
      (slot :: slots, values, result)
  | _, slots, values => (slots, values, .ok ())

/-- Puts the outputs into the slots that belong to the bindings. -/
def fillOutputs (values : Values) :
    List PlanBinding → Slots → Slots × Except ExecutionFault Unit
  | binding :: bindings, slot :: slots =>
    if binding.spec.isInput then
      let (slots, result) := fillOutputs values bindings slots
      (slot :: slots, result)
    else
      match values.get? binding.tensor with
      | none => (slot :: slots, .error (.neverComputed binding.spec.name))
      | some t =>
        let (slots, result) := fillOutputs values bindings slots
        (some t :: slots, result)
  | _, slots => (slots, .ok ())

namespace EnginePlan

/-- The values before anything is known. -/
def noValues (plan : EnginePlan) : Values :=
  List.replicate plan.network.tensors.length none

/-- The slots after an execution, and whether it succeeded. -/
def execute (plan : EnginePlan) (slots : Slots) : Slots × Except ExecutionFault Unit :=
  if slots.length ≠ plan.bindings.length then
    (slots, .error (.slotCount plan.bindings.length slots.length))
  else
    match takeInputs plan.bindings slots plan.noValues with
    | (slots, _, .error e) => (slots, .error e)
    | (slots, values, .ok ()) =>
      match runLayers plan.network.layers values with
      | (_, .error e) => (slots, .error e)
      | (values, .ok ()) => fillOutputs values plan.bindings slots

end EnginePlan

end TensorEngine
