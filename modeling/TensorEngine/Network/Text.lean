import TensorEngine.Network.Basic
import TensorEngine.Tensor.Text

/-!
# Networks as JSON

A network is a record of its tensors, layers, inputs and outputs. What a layer computes is a choice
with one alternative for each kind of layer.

## Main definitions

* `Network.toJson`, `Network.ofJson?`: networks as values, and back
-/

namespace TensorEngine

/-- The value of dimensions. -/
def Dims.toJson (dims : Dims) : Json :=
  .ofList Json.ofInt dims

/-- The dimensions that a value lists. -/
def Dims.ofJson? : Json → Option Dims :=
  Json.list? Json.int64?

/-- The value of a tensor id. -/
def TensorId.toJson (id : TensorId) : Json :=
  .ofNat id.index

/-- The tensor id that a value is. -/
def TensorId.ofJson? (value : Json) : Option TensorId :=
  value.size?.map .mk

namespace ShuffleSpec

/-- The names of the fields of a shuffle. -/
def fieldNames : List String :=
  ["first_transpose", "reshape", "second_transpose"]

/-- The value of a shuffle. -/
def toJson (spec : ShuffleSpec) : Json :=
  .ofMembers [("first_transpose", Json.ofOption (.ofList Json.ofNat) spec.firstTranspose),
    ("reshape", Json.ofOption Dims.toJson spec.reshape),
    ("second_transpose", Json.ofOption (.ofList Json.ofNat) spec.secondTranspose)]

/-- The shuffle that a value describes. -/
def ofJson? (value : Json) : Option ShuffleSpec := do
  let [first, target, second] ← value.record? fieldNames | none
  let firstTranspose ← Json.optionalField? (Json.list? Json.size?) first
  let reshape ← Json.optionalField? Dims.ofJson? target
  let secondTranspose ← Json.optionalField? (Json.list? Json.size?) second
  return ⟨firstTranspose, reshape, secondTranspose⟩

end ShuffleSpec

namespace MatrixOp

/-- The name of an operand's treatment. -/
def name : MatrixOp → String
  | .none => "None"
  | .transpose => "Transpose"

/-- The treatment with this name. -/
def ofName? : String → Option MatrixOp
  | "None" => some .none
  | "Transpose" => some .transpose
  | _ => .none

/-- The value of an operand's treatment. -/
def toJson (op : MatrixOp) : Json :=
  .ofString op.name

/-- The treatment that a value names. -/
def ofJson? (value : Json) : Option MatrixOp :=
  value.plainChoice?.bind ofName?

end MatrixOp

namespace ElementWiseOp

/-- The name of an elementwise operation. -/
def name : ElementWiseOp → String
  | .sum => "Sum"
  | .sub => "Sub"
  | .prod => "Prod"

/-- The operation with this name. -/
def ofName? : String → Option ElementWiseOp
  | "Sum" => some .sum
  | "Sub" => some .sub
  | "Prod" => some .prod
  | _ => none

/-- The value of an elementwise operation. -/
def toJson (op : ElementWiseOp) : Json :=
  .ofString op.name

/-- The operation that a value names. -/
def ofJson? (value : Json) : Option ElementWiseOp :=
  value.plainChoice?.bind ofName?

end ElementWiseOp

namespace LayerKind

/-- The value of what a layer computes. -/
def toJson : LayerKind → Json
  | .constant weights =>
    .ofMembers [("Constant", .ofMembers [("weights", weights.toJson)])]
  | .shuffle spec => .ofMembers [("Shuffle", spec.toJson)]
  | .matrixMultiply op0 op1 =>
    .ofMembers [("MatrixMultiply", .ofMembers [("op0", op0.toJson), ("op1", op1.toJson)])]
  | .elementWise op => .ofMembers [("ElementWise", op.toJson)]

/-- The constant that the content of an alternative describes. -/
def constantOfJson? (content : Json) : Option LayerKind := do
  let [weights] ← content.record? ["weights"] | none
  let weights ← Json.requiredField? Tensor.ofJson? weights
  return .constant weights

/-- The matrix product that the content of an alternative describes. -/
def matrixMultiplyOfJson? (content : Json) : Option LayerKind := do
  let [op0, op1] ← content.record? ["op0", "op1"] | none
  let op0 ← Json.requiredField? MatrixOp.ofJson? op0
  let op1 ← Json.requiredField? MatrixOp.ofJson? op1
  return .matrixMultiply op0 op1

/-- What a layer computes, as a value describes it. -/
def ofJson? (value : Json) : Option LayerKind :=
  match value.choice? with
  | some ("Constant", some content) => constantOfJson? content
  | some ("Shuffle", some content) => (ShuffleSpec.ofJson? content).map .shuffle
  | some ("MatrixMultiply", some content) => matrixMultiplyOfJson? content
  | some ("ElementWise", some content) => (ElementWiseOp.ofJson? content).map .elementWise
  | _ => none

end LayerKind

namespace NetworkTensor

/-- The value of a recorded tensor. -/
def toJson (t : NetworkTensor) : Json :=
  .ofMembers [("name", .ofString t.name), ("dtype", t.dtype.toJson),
    ("dims", Dims.toJson t.dims)]

/-- The recorded tensor that a value describes. -/
def ofJson? (value : Json) : Option NetworkTensor := do
  let [name, dtype, dims] ← value.record? ["name", "dtype", "dims"] | none
  let name ← Json.requiredField? Json.text? name
  let dtype ← Json.requiredField? DType.ofJson? dtype
  let dims ← Json.requiredField? Dims.ofJson? dims
  return ⟨name, dtype, dims⟩

end NetworkTensor

namespace Layer

/-- The value of a layer. -/
def toJson (layer : Layer) : Json :=
  .ofMembers [("name", .ofString layer.name), ("kind", layer.kind.toJson),
    ("inputs", .ofList TensorId.toJson layer.inputs), ("output", layer.output.toJson)]

/-- The layer that a value describes. -/
def ofJson? (value : Json) : Option Layer := do
  let [name, kind, inputs, output] ← value.record? ["name", "kind", "inputs", "output"] | none
  let name ← Json.requiredField? Json.text? name
  let kind ← Json.requiredField? LayerKind.ofJson? kind
  let inputs ← Json.requiredField? (Json.list? TensorId.ofJson?) inputs
  let output ← Json.requiredField? TensorId.ofJson? output
  return ⟨name, kind, inputs, output⟩

end Layer

namespace Network

/-- The value of a network. -/
def toJson (network : Network) : Json :=
  .ofMembers [("tensors", .ofList NetworkTensor.toJson network.tensors),
    ("layers", .ofList Layer.toJson network.layers),
    ("inputs", .ofList TensorId.toJson network.inputs),
    ("outputs", .ofList TensorId.toJson network.outputs)]

/-- The network that a value describes. -/
def ofJson? (value : Json) : Option Network := do
  let [tensors, layers, inputs, outputs] ←
    value.record? ["tensors", "layers", "inputs", "outputs"] | none
  let tensors ← Json.requiredField? (Json.list? NetworkTensor.ofJson?) tensors
  let layers ← Json.requiredField? (Json.list? Layer.ofJson?) layers
  let inputs ← Json.requiredField? (Json.list? TensorId.ofJson?) inputs
  let outputs ← Json.requiredField? (Json.list? TensorId.ofJson?) outputs
  return ⟨tensors, layers, inputs, outputs⟩

end Network

end TensorEngine
