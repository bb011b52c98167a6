import TensorEngine.Decimal.Shortest
import TensorEngine.Json.Record
import TensorEngine.Tensor.Text

/-!
# Tensor files

Single precision tensors as people write them: a shape and a list of numbers. An input file is an
array of such records.

## Main definitions

* `TensorRecord`, `TensorRecord.ofJson?`, `TensorRecord.toJson`: records as values, and back
* `TensorRecord.toTensor`, `TensorRecord.ofTensor`: the tensors they stand for
-/

namespace TensorEngine

open Binary Decimal

/-- A shape and the patterns of its numbers. -/
structure TensorRecord where
  shape : Shape
  values : List UInt32
  deriving DecidableEq, Repr

/-- The single precision number of a numeral, as a pattern. -/
def Json.single? : Json → Option UInt32
  | .number n => n.single?
  | _ => none

/-- The shortest numeral of a single precision number, widened to a double; `null` for what is
infinite or not a number. -/
def Json.ofSingle (pattern : UInt32) : Json :=
  let negative := single.signBit ≤ pattern.toNat
  let magnitude := pattern.toNat % single.signBit
  if single.infinity ≤ magnitude then .null
  else .ofOption .number (shortestNumeral? (double.withSign negative (widen magnitude)))

namespace TensorRecord

/-- The tensor of a record. -/
def toTensor (record : TensorRecord) : Except TensorError Tensor :=
  Tensor.ofFloats record.shape record.values

/-- The record of a tensor. -/
def ofTensor (t : Tensor) : Except TensorError TensorRecord :=
  t.floats.map (⟨t.shape, ·⟩)

/-- The record that a value describes. -/
def ofJson? (value : Json) : Option TensorRecord := do
  let [shape, values] ← value.record? ["shape", "values"] | none
  let shape ← Json.requiredField? Shape.ofJson? shape
  let values ← Json.requiredField? (Json.list? Json.single?) values
  return ⟨shape, values⟩

/-- The value of a record. -/
def toJson (record : TensorRecord) : Json :=
  .ofMembers [("shape", Shape.toJson record.shape),
    ("values", .ofList Json.ofSingle record.values)]

/-- The records of an input file. -/
def parseList? (text : Bytes) : Option (List TensorRecord) :=
  (Json.parse? text).bind (Json.list? ofJson?)

end TensorRecord

end TensorEngine
