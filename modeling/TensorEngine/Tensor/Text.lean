import TensorEngine.Json.Record
import TensorEngine.Tensor.Basic

/-!
# Tensors as JSON

A tensor is a record of its element type, its shape and its bytes. The bytes are written as an array
of numbers; they may also be given as a string that stands for them, which need not be a text.

## Main definitions

* `Tensor.toJson`, `Tensor.ofJson?`: tensors as values, and back
-/

namespace TensorEngine

/-- The value of an element type: its name. -/
def DType.toJson (dtype : DType) : Json :=
  .ofString dtype.name

/-- The element type that a value names. -/
def DType.ofJson? (value : Json) : Option DType :=
  value.plainChoice?.bind DType.ofName?

/-- The value of a shape. -/
def Shape.toJson (shape : Shape) : Json :=
  .ofList Json.ofNat shape

/-- The shape that a value lists. -/
def Shape.ofJson? : Json → Option Shape :=
  Json.list? Json.size?

/-- The value of a byte string: the array of its bytes. -/
def Bytes.toJson (bytes : Bytes) : Json :=
  .ofList (fun byte => .ofNat byte.toNat) bytes

/-- The bytes that a value lists, or that it stands for as a string. -/
def Bytes.ofJson? : Json → Option Bytes
  | .string body => Json.Quoted.resolve? body
  | value => value.list? fun item => (item.natBelow? 256).map UInt8.ofNat

namespace Tensor

/-- The names of the fields of a tensor. -/
def fieldNames : List String :=
  ["dtype", "shape", "data"]

/-- The value of a tensor. -/
def toJson (t : Tensor) : Json :=
  .ofMembers [("dtype", t.dtype.toJson), ("shape", Shape.toJson t.shape),
    ("data", Bytes.toJson t.data)]

/-- The tensor that a value describes. -/
def ofJson? (value : Json) : Option Tensor := do
  let [dtype, shape, data] ← value.record? fieldNames | none
  let dtype ← Json.requiredField? DType.ofJson? dtype
  let shape ← Json.requiredField? Shape.ofJson? shape
  let data ← Json.requiredField? Bytes.ofJson? data
  (ofBytes dtype shape data).toOption

end Tensor

end TensorEngine
