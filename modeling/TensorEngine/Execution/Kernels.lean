import TensorEngine.Backend.Error
import TensorEngine.Network.Basic

/-!
# Kernels

What layers compute from tensors in memory. Every kernel infers the dimensions of its result from
the shapes of its operands by the rules that the network uses, and computes in single precision.
The positions that a kernel reads are computed as the entries are visited, and none of them is
taken for granted: a position outside an operand, or an axis without extent that is divided by, is
a fault.

## Main definitions

* `Binary.Single.add`, `Binary.Single.mul`: arithmetic on patterns, each operation rounding once
* `broadcastOffset`: the position in an operand that belongs to a position in a broadcast shape
* `Tensor.shuffle`: a transposition, a reshape and another transposition
* `Tensor.matrixMultiply`: products of stacks of matrices
* `Tensor.elementWise`: an operation on the entries of two tensors
-/

namespace TensorEngine

namespace Binary.Single

/-- The sum of two numbers. -/
def add (a b : UInt32) : UInt32 :=
  (Float32.ofBits a + Float32.ofBits b).toBits

/-- The difference of two numbers. -/
def sub (a b : UInt32) : UInt32 :=
  (Float32.ofBits a - Float32.ofBits b).toBits

/-- The product of two numbers. -/
def mul (a b : UInt32) : UInt32 :=
  (Float32.ofBits a * Float32.ofBits b).toBits

/-- The sum of the products of pairs, from zero on and in their order. -/
def sumOfProducts (pairs : List (UInt32 × UInt32)) : UInt32 :=
  pairs.foldl (fun sum (a, b) => add sum (mul a b)) 0

end Binary.Single

open Binary

/-- The operation of an elementwise layer on two numbers. -/
def ElementWiseOp.eval : ElementWiseOp → UInt32 → UInt32 → UInt32
  | .sum => Single.add
  | .sub => Single.sub
  | .prod => Single.mul

/-- The shape of a result. -/
def concreteShape (dims : Dims) : Except ExecutionFault Shape :=
  match dims.toShape? with
  | some shape => .ok shape
  | none => .error (.outputNotConcrete dims)

/-- What is left of a position for the axes before those of `result`, the offset in the operand,
and the distance in the operand between neighbours along the axis before. The steps go from the
last axis to the first. -/
def broadcastSteps : (result operand : Shape) → (position : Nat) →
    Except ExecutionFault (Nat × Nat × Nat)
  | [], _, position => .ok (position, 0, 1)
  | d :: result, n :: operand, position => do
    let (left, offset, stride) ← broadcastSteps result operand position
    let index ← Unsigned.remainder left d
    let left ← Unsigned.quotient left d
    -- An operand of extent one has a single place along the axis.
    let offset := if n = 1 then offset else offset + index * stride
    return (left, offset, stride * n)
  | _ :: _, [], _ => throw (.fault .outOfRange)

/-- The position in an operand that belongs to a position in the shape it is broadcast to. -/
def broadcastOffset (result operand : Shape) (position : Nat) : Except ExecutionFault Nat := do
  let (_, offset, _) ← broadcastSteps result operand position
  return offset

namespace Tensor

/-- The dimensions of a tensor. -/
def dims (t : Tensor) : Dims :=
  Dims.ofShape t.shape

/-- The axes in another order, as part of an execution. -/
def transposed (t : Tensor) : Option (List Nat) → Except ExecutionFault Tensor
  | none => .ok t
  | some order => (t.permute order).mapError .tensor

/-- The elements under the shape that a reshape target means. -/
def reshaped (t : Tensor) : Option Dims → Except ExecutionFault Tensor
  | none => .ok t
  | some target => do
    let dims ← (inferShuffle t.dims (.reshaping target)).mapError .network
    match dims.toShape? with
    | none => throw (.reshapeNotConcrete dims)
    | some shape => (t.reshape shape).mapError .tensor

/-- The result of a shuffle layer. -/
def shuffle (t : Tensor) (spec : ShuffleSpec) : Except ExecutionFault Tensor := do
  let t ← t.transposed spec.firstTranspose
  let t ← t.reshaped spec.reshape
  t.transposed spec.secondTranspose

/-- The numbers of a single precision tensor. -/
def singles (t : Tensor) : Except ExecutionFault (Array UInt32) :=
  if t.dtype = .f32 then (t.floats.map List.toArray).mapError .tensor
  else .error (.unsupportedType t.dtype)

/-- An operand of a matrix product as it enters it. -/
def oriented (t : Tensor) : MatrixOp → Except ExecutionFault Tensor
  | .none => .ok t
  | .transpose =>
    if 2 ≤ t.rank then (t.permute (swapLastTwo t.rank)).mapError .tensor
    -- There are no two axes to exchange.
    else throw (.fault .overflow)

/-- The result of a matrix product layer. -/
def matrixMultiply (a : Tensor) (op0 : MatrixOp) (b : Tensor) (op1 : MatrixOp) :
    Except ExecutionFault Tensor := do
  let dims ← (inferMatrixMultiply a.dims op0 b.dims op1).mapError .network
  let shape ← concreteShape dims
  let a ← a.oriented op0
  let b ← b.oriented op1
  let x ← a.singles
  let y ← b.singles
  match matrixParts? shape, matrixParts? a.shape, matrixParts? b.shape with
  | some (stack, m, n), some (stackA, _, k), some (stackB, _, _) =>
    let matrices ← (List.range (Shape.size stack)).mapM fun matrix => do
      let startA ← broadcastOffset stack stackA matrix
      let startB ← broadcastOffset stack stackB matrix
      (List.range m).mapM fun row => do
        -- A row of the first operand is contiguous, a column of the second goes in steps of `n`.
        let us ← (List.range k).mapM fun p => arrayEntry x (startA * (m * k) + row * k + p)
        (List.range n).mapM fun column => do
          let vs ← (List.range k).mapM fun p => arrayEntry y (startB * (k * n) + p * n + column)
          return Single.sumOfProducts (us.zip vs)
    (ofFloats shape matrices.flatten.flatten).mapError .tensor
  -- The dimensions were inferred, so all three shapes have rows and columns.
  | _, _, _ => throw (.fault .outOfRange)

/-- The result of an elementwise layer. -/
def elementWise (a b : Tensor) (op : ElementWiseOp) : Except ExecutionFault Tensor := do
  let dims ← (inferBroadcast a.dims b.dims).mapError .network
  let shape ← concreteShape dims
  let x ← a.singles
  let y ← b.singles
  let entries ← (List.range (Shape.size shape)).mapM fun position => do
    let i ← broadcastOffset shape a.shape position
    let u ← arrayEntry x i
    let j ← broadcastOffset shape b.shape position
    let v ← arrayEntry y j
    return op.eval u v
  (ofFloats shape entries).mapError .tensor

end Tensor

end TensorEngine
