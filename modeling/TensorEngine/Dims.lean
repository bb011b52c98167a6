import TensorEngine.Shape
import TensorEngine.Word

/-!
# Dimensions

What is known about the extents of a tensor before it runs: each is a signed word, and a negative
one is unknown.

## Main definitions

* `Dims`, `Dims.isStatic`, `Dims.toShape?`: dimensions, and the shape they describe when all are
  known
* `Dims.volume`: the number of elements, when it is known and fits
* `Dims.describes`: the shapes that dimensions describe
-/

namespace TensorEngine

/-- The extents of a tensor as far as they are known. -/
abbrev Dims := List Int

namespace Dims

/-- The number of axes. -/
abbrev rank (dims : Dims) : Nat :=
  dims.length

/-- The dimensions of a shape, each read as a signed word. -/
def ofShape (shape : Shape) : Dims :=
  shape.map Signed.ofUnsigned

/-- Every extent is known. -/
def isStatic (dims : Dims) : Bool :=
  dims.all (0 ≤ ·)

/-- The shape, when every extent is known. -/
def toShape? (dims : Dims) : Option Shape :=
  if dims.isStatic then some (dims.map Int.toNat) else none

/-- The number of elements, when every extent is known and the number fits in a signed word. -/
def volume (dims : Dims) : Option Int :=
  if dims.isStatic then Signed.product? dims else none

/-- The shape has these dimensions: the same rank, and every known extent. -/
def describes : Dims → Shape → Bool
  | [], [] => true
  | d :: dims, n :: shape => (d < 0 || d == (n : Int)) && describes dims shape
  | _, _ => false

/-- The text of dimensions. -/
def text (dims : Dims) : String :=
  Text.listing dims

end Dims

end TensorEngine
