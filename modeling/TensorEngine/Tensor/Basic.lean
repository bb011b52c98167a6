import TensorEngine.Bytes
import TensorEngine.DType
import TensorEngine.Shape
import TensorEngine.Word

/-!
# Tensors

A tensor is an element type, a shape and the bytes of its elements in row-major order. The number
of bytes is part of the type: it is the element width times the number of elements.

## Main definitions

* `Tensor.ofBytes`: the checked construction
* `Tensor.ofFloats`, `Tensor.ofInts`, `Tensor.floats`, `Tensor.ints`: elements as numbers
* `Tensor.reshape`: the same elements under another shape
* `Tensor.permute`: the same elements under the axes in another order
-/

namespace TensorEngine

/-- A tensor in memory. -/
structure Tensor where
  dtype : DType
  shape : Shape
  data : Bytes
  length_data : data.length = dtype.size * shape.size
  deriving DecidableEq, Repr

/-- Why there is no such tensor. -/
inductive TensorError
  | byteLength (expected got : Nat)
  | dtype (expected got : DType)
  | permutation (order : List Nat) (rank : Nat)
  | elementCount (source target : Shape)
  | tooLarge (shape : Shape)
  | fault (fault : Fault)
  deriving DecidableEq, Repr

instance : HasFault TensorError := ⟨.fault⟩

/-- The wording of a tensor error. -/
def TensorError.message : TensorError → String
  | .byteLength expected got => s!"tensor byte length mismatch: expected {expected}, got {got}"
  | .dtype expected got => s!"dtype mismatch: expected {expected}, got {got}"
  | .permutation order rank => s!"invalid permutation {Text.listing order} for rank {rank}"
  | .elementCount source target =>
    s!"cannot reshape {source.text} into {target.text}: element counts differ"
  | .tooLarge shape => s!"tensor of shape {shape.text} does not fit in memory"
  | .fault cause => cause.message

namespace Tensor

/-- The tensor with these elements, if the size of its data fits in a word and is the number of
bytes given. -/
def ofBytes (dtype : DType) (shape : Shape) (data : Bytes) : Except TensorError Tensor :=
  match h : Unsigned.product? dtype.size shape with
  | none => .error (.tooLarge shape)
  | some expected =>
    if hlength : data.length = expected then
      .ok ⟨dtype, shape, data, hlength.trans (Unsigned.product?_eq_some h)⟩
    else .error (.byteLength expected data.length)

/-- The number of elements. -/
def size (t : Tensor) : Nat :=
  t.shape.size

/-- The number of axes. -/
def rank (t : Tensor) : Nat :=
  t.shape.rank

/-- The bytes of each element. -/
def cells (t : Tensor) : List Bytes :=
  t.data.chunks t.dtype.size t.size

/-- The tensor of these elements; a fault when their number is not that of the shape. -/
def ofCells (dtype : DType) (shape : Shape) (cells : List Bytes) : Except TensorError Tensor :=
  if h : cells.flatten.length = dtype.size * shape.size then .ok ⟨dtype, shape, cells.flatten, h⟩
  else .error (.fault .outOfRange)

/-- The tensor of single precision numbers, given by their patterns. -/
def ofFloats (shape : Shape) (patterns : List UInt32) : Except TensorError Tensor :=
  ofBytes .f32 shape (patterns.flatMap fun w => Bytes.ofNat 4 w.toNat)

/-- The tensor of signed 64-bit integers. -/
def ofInts (shape : Shape) (values : List Int) : Except TensorError Tensor :=
  ofBytes .i64 shape (values.flatMap fun i => Bytes.ofNat 8 (i % 0x10000000000000000).toNat)

/-- The patterns of single precision elements. -/
def floats (t : Tensor) : Except TensorError (List UInt32) :=
  if t.dtype = .f32 then .ok (t.cells.map fun cell => UInt32.ofNat cell.toNat)
  else .error (.dtype .f32 t.dtype)

/-- The values of signed 64-bit elements. -/
def ints (t : Tensor) : Except TensorError (List Int) :=
  if t.dtype = .i64 then .ok (t.cells.map fun cell => Signed.ofUnsigned cell.toNat)
  else .error (.dtype .i64 t.dtype)

/-- The same elements under another shape with as many elements. -/
def reshape (t : Tensor) (shape : Shape) : Except TensorError Tensor :=
  if h : shape.size = t.shape.size then
    .ok ⟨t.dtype, shape, t.data, h ▸ t.length_data⟩
  else .error (.elementCount t.shape shape)

/-- The entries of `xs` in the given order. -/
def arrange {ε α : Type} [HasFault ε] (order : List Nat) (xs : List α) : Except ε (List α) :=
  order.mapM (entry xs)

/-- The tensor with its axes in the given order. -/
def permute (t : Tensor) (order : List Nat) : Except TensorError Tensor := do
  if IsPermutation order t.rank then
    -- Stepping along axis `k` of the result is stepping along axis `order[k]` of the tensor.
    let shape ← arrange order t.shape
    let strides ← arrange order t.shape.strides
    let cells := t.cells.toArray
    let indices := Shape.walk shape t.size (List.replicate t.rank 0)
    let moved ← indices.mapM fun index => arrayEntry cells (Shape.dot index strides)
    ofCells t.dtype shape moved
  else
    throw (.permutation order t.rank)

@[simp]
theorem length_cells (t : Tensor) : t.cells.length = t.shape.size :=
  Bytes.length_chunks ..

theorem flatten_cells (t : Tensor) : t.cells.flatten = t.data :=
  Bytes.flatten_chunks t.length_data

end Tensor

end TensorEngine
