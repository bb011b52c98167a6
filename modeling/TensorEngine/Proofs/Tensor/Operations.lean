import TensorEngine.Binary.Format
import TensorEngine.Execution.Kernels
import TensorEngine.Proofs.Tensor.Cells

/-!
# Operations on tensors

What the operations of source graphs compute, given directly on tensors and without networks or
layers. Shapes are broadcast from the right: extents of one are put in front until ranks are equal,
and extents of one are then stretched. Numbers are single precision patterns, and every number of a
result is given by its position in row-major order.

## Main definitions

* `Shape.padded`, `Shape.stretched?`: broadcasting
* `Tensor.combine?`, `Tensor.scaledBy?`: elementwise operations
* `Tensor.product?`: products of matrices, stacks of matrices and vectors
* `Tensor.flatten?`, `Tensor.view?`, `Tensor.permuted?`: the same elements under another shape, or
  with the axes in another order
-/

namespace TensorEngine

open Binary

namespace Shape

/-- The shape with extents of one in front, up to a rank. -/
def padded (rank : Nat) (shape : Shape) : Shape :=
  List.replicate (rank - shape.rank) 1 ++ shape

/-- The shape that two shapes of equal rank are stretched to. -/
def stretched? : Shape → Shape → Option Shape
  | [], [] => some []
  | n :: xs, m :: ys => do
    let rest ← stretched? xs ys
    if n = m ∨ m = 1 then return n :: rest
    else if n = 1 then return m :: rest
    else none
  | _, _ => none

/-- The shape with the axes from `first` to `last` joined. -/
def joined (shape : Shape) (first last : Nat) : Shape :=
  shape.take first ++ size ((shape.take (last + 1)).drop first) :: shape.drop (last + 1)

/-- The shape that a request means for a number of elements: one size may be left to be inferred,
and the others are positive. -/
def requested? (count : Nat) (sizes : List Int) : Option Shape :=
  let known := ((sizes.filter (· ≠ -1)).map Int.toNat).prod
  let shape := sizes.map fun d => if d = -1 then count / known else d.toNat
  if (∀ d ∈ sizes, d = -1 ∨ 0 < d) ∧ sizes.count (-1) ≤ 1 ∧ size shape = count then some shape
  else none

end Shape

/-- The axis that an integer names; a negative one counts from the end. -/
def axis? (rank : Nat) (axis : Int) : Option Nat :=
  let counted := if axis < 0 then axis + rank else axis
  if 0 ≤ counted ∧ counted < rank then some counted.toNat else none

namespace Tensor

/-- The number at a position of a single precision tensor. -/
def pattern (t : Tensor) (position : Nat) : UInt32 :=
  t.patterns.getD position 0

/-- The single precision tensor with this number at every position. -/
def tabulate? (shape : Shape) (entry : Nat → UInt32) : Option Tensor :=
  (ofFloats shape ((List.range shape.size).map entry)).toOption

/-- An operation on the numbers of two tensors that are broadcast from the right. -/
def combine? (op : ElementWiseOp) (a b : Tensor) : Option Tensor := do
  let x := a.shape.padded (max a.rank b.rank)
  let y := b.shape.padded (max a.rank b.rank)
  let shape ← Shape.stretched? x y
  if a.dtype = .f32 ∧ b.dtype = .f32 then
    tabulate? shape fun position =>
      op.eval (a.pattern (Shape.spread shape x position)) (b.pattern (Shape.spread shape y position))
  else none

/-- The tensor with every number multiplied by a factor; a factor of one leaves it as it is. -/
def scaledBy? (factor : UInt64) (t : Tensor) : Option Tensor :=
  if factor = doubleOne then some t
  else if t.dtype = .f32 then
    tabulate? t.shape fun position => Single.mul (t.pattern position) (narrow factor)
  else none

/-- The pairs of numbers that an entry of a matrix product is the sum of products of: a row of the
first operand and a column of the second, in the matrices of their stacks that belong to the matrix
of the entry. -/
def products (a b : Tensor) (stack stackA stackB : Shape) (m k n position : Nat) :
    List (UInt32 × UInt32) :=
  (List.range k).map fun p =>
    (a.pattern (Shape.spread stack stackA (position / (m * n)) * (m * k) +
        position / n % m * k + p),
      b.pattern (Shape.spread stack stackB (position / (m * n)) * (k * n) + position % n + p * n))

/-- Stack, rows and columns of a left factor, a vector being one row. -/
def rowForm? : Shape → Option (Shape × Nat × Nat)
  | [k] => some ([], 1, k)
  | shape => matrixParts? shape

/-- Stack, rows and columns of a right factor, a vector being one column. -/
def columnForm? : Shape → Option (Shape × Nat × Nat)
  | [k] => some ([], k, 1)
  | shape => matrixParts? shape

/-- The matrix product. Stacks of matrices are broadcast from the right, the extent of one that a
vector was given is left out of the result, and every entry is a sum in ascending order. -/
def product? (a b : Tensor) : Option Tensor := do
  let (stackA, m, k) ← rowForm? a.shape
  let (stackB, k', n) ← columnForm? b.shape
  let x := stackA.padded (max stackA.rank stackB.rank)
  let y := stackB.padded (max stackA.rank stackB.rank)
  let stack ← Shape.stretched? x y
  if k = k' ∧ a.dtype = .f32 ∧ b.dtype = .f32 then
    let rows := if a.rank = 1 then [] else [m]
    let columns := if b.rank = 1 then [] else [n]
    tabulate? (stack ++ rows ++ columns) fun position =>
      Single.sumOfProducts (products a b stack x y m k n position)
  else none

/-- The matrix product of operands of a given rank. -/
def productOfRank? (rank : Nat) (a b : Tensor) : Option Tensor :=
  if a.rank = rank ∧ b.rank = rank then a.product? b else none

/-- The same elements with a range of axes joined. A tensor without axes gets one of extent one. -/
def flatten? (t : Tensor) (first last : Int) : Option Tensor :=
  if t.rank = 0 then (t.reshape [1]).toOption
  else do
    let first ← axis? t.rank first
    let last ← axis? t.rank last
    if first ≤ last then (t.reshape (t.shape.joined first last)).toOption else none

/-- The same elements under a requested shape. -/
def view? (t : Tensor) (sizes : List Int) : Option Tensor := do
  let shape ← Shape.requested? t.size sizes
  (t.reshape shape).toOption

/-- The tensor with its axes in the order that a list of integers names. -/
def permuted? (t : Tensor) (axes : List Int) : Option Tensor := do
  let order ← axes.mapM (axis? t.rank)
  (t.permute order).toOption

/-- The tensor with its axes in reverse order. -/
def transposed? (t : Tensor) : Option Tensor :=
  (t.permute (reversal t.rank)).toOption

end Tensor

end TensorEngine
