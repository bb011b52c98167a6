/-!
# Shapes

The shape of a tensor lists its extents. Elements are stored in row-major order: the last index
moves fastest. Multi-indices and positions in storage are converted by the strides, which are the
products of the later extents.

## Main definitions

* `Shape.strides`, `Shape.offset`, `Shape.index`: row-major positions and multi-indices
* `Shape.advance`, `Shape.walk`: multi-indices one after the other
* `Shape.spread`: the position that a broadcast operand contributes
* `IsPermutation`: orders that name each axis once
* `Text.listing`: the text of a list of numbers in messages
-/

namespace TensorEngine

/-- The entries separated by a comma and a blank. -/
def Text.commaSeparated (entries : List String) : String :=
  ", ".intercalate entries

/-- The entries in brackets, as in `[2, -1, 3]`. -/
def Text.listing {α : Type} [ToString α] (xs : List α) : String :=
  "[" ++ commaSeparated (xs.map toString) ++ "]"

/-- The extents of a tensor. -/
abbrev Shape := List Nat

namespace Shape

/-- The number of axes. -/
abbrev rank (shape : Shape) : Nat :=
  shape.length

/-- The number of elements. -/
abbrev size (shape : Shape) : Nat :=
  shape.foldr (· * ·) 1

/-- The distance in storage between neighbours along each axis. -/
def strides : Shape → List Nat
  | [] => []
  | _ :: rest => size rest :: strides rest

/-- The sum of products of entries at equal places. -/
def dot (xs ys : List Nat) : Nat :=
  (List.zipWith (· * ·) xs ys).foldr (· + ·) 0

/-- The position in storage of a multi-index. -/
def offset (shape : Shape) (index : List Nat) : Nat :=
  dot index shape.strides

/-- The multi-index of a position in storage. -/
def index : Shape → Nat → List Nat
  | [], _ => []
  | _ :: rest, position => position / size rest :: index rest (position % size rest)

/-- The multi-index behind another one, and whether every axis has started over. The last axis steps;
an axis that comes to its end starts over and lets the axis in front of it step. -/
def advance : Shape → List Nat → List Nat × Bool
  | n :: shape, i :: index =>
    let (later, carry) := advance shape index
    if carry then if i + 1 < n then ((i + 1) :: later, false) else (0 :: later, true)
    else (i :: later, false)
  | _, _ => ([], true)

/-- As many multi-indices as are asked for, one behind the other. -/
def walk (shape : Shape) : (count : Nat) → (index : List Nat) → List (List Nat)
  | 0, _ => []
  | count + 1, index => index :: walk shape count (advance shape index).1

/-- A multi-index with zero on the axes of extent one. -/
def pin : Shape → List Nat → List Nat
  | d :: shape, i :: index => (if d = 1 then 0 else i) :: pin shape index
  | _, _ => []

/-- The position in an operand of shape `operand` that belongs to a position in the broadcast
shape `result`: the same multi-index, with zero on the operand's axes of extent one. -/
def spread (result operand : Shape) (position : Nat) : Nat :=
  operand.offset (operand.pin (result.index position))

/-- The text of a shape. -/
def text (shape : Shape) : String :=
  Text.listing shape

end Shape

/-- Every axis below `rank` is named exactly once. -/
def IsPermutation (order : List Nat) (rank : Nat) : Prop :=
  order.length = rank ∧ (∀ axis ∈ order, axis < rank) ∧ order.Nodup

instance (order : List Nat) (rank : Nat) : Decidable (IsPermutation order rank) :=
  inferInstanceAs (Decidable (_ ∧ _ ∧ _))

/-- The axes in reverse order. -/
def reversal (rank : Nat) : List Nat :=
  (List.range rank).reverse

/-- The axes in order, with the last two exchanged. -/
def swapLastTwo (rank : Nat) : List Nat :=
  List.range (rank - 2) ++ [rank - 1, rank - 2]

end TensorEngine
