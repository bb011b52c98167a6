/-!
# Element types

The types of tensor elements, their widths in bytes and their names.
-/

namespace TensorEngine

/-- The type of a tensor's elements. -/
inductive DType
  | f32
  | f16
  | i64
  | i32
  | u8
  deriving DecidableEq, Repr

namespace DType

/-- The width of an element in bytes. -/
def size : DType → Nat
  | .f32 => 4
  | .f16 => 2
  | .i64 => 8
  | .i32 => 4
  | .u8 => 1

/-- The elements are floating point numbers. -/
def isFloatingPoint : DType → Bool
  | .f32 | .f16 => true
  | .i64 | .i32 | .u8 => false

/-- The name of an element type. -/
def name : DType → String
  | .f32 => "F32"
  | .f16 => "F16"
  | .i64 => "I64"
  | .i32 => "I32"
  | .u8 => "U8"

/-- The element type with this name. -/
def ofName? : String → Option DType
  | "F32" => some .f32
  | "F16" => some .f16
  | "I64" => some .i64
  | "I32" => some .i32
  | "U8" => some .u8
  | _ => none

instance : ToString DType := ⟨name⟩

@[simp]
theorem ofName?_name (dtype : DType) : ofName? dtype.name = some dtype := by
  cases dtype <;> decide

theorem size_pos (dtype : DType) : 0 < dtype.size := by
  cases dtype <;> decide

end DType

end TensorEngine
