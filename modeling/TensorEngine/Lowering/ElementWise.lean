import TensorEngine.Lowering.Layers

/-!
# Elementwise operations

Sums, differences and products of operands that broadcast. The second operand of a sum or a
difference may be scaled by a constant factor.
-/

namespace TensorEngine.Lowering

/-- The two operands as tensors of equal rank. -/
def broadcastOperands (node : Node) (arguments : List Argument) :
    Program RuleError (TensorId × TensorId) := do
  let lhs ← operandAt arguments 0
  let rhs ← operandAt arguments 1
  let rank := max (← dimsOf lhs).rank (← dimsOf rhs).rank
  let lhs ← expandRank node lhs rank "broadcast self"
  let rhs ← expandRank node rhs rank "broadcast other"
  return (lhs, rhs)

/-- An elementwise layer. -/
def combine (node : Node) (lhs rhs : TensorId) (op : ElementWiseOp) (part : String) :
    Program RuleError TensorId :=
  perform (.addElementWise (layerName node part) lhs rhs op)

/-- The factor of the second operand, one when none is given. -/
def scaleFactor (arguments : List Argument) : Except RuleError UInt64 :=
  match arguments[2]? with
  | none => .ok Binary.doubleOne
  | some argument => if argument.isNone then .ok Binary.doubleOne else argument.scalar

/-- A tensor of one element with the given rank. -/
def scalarTensor (rank : Nat) (pattern : UInt32) : Except RuleError Tensor :=
  (Tensor.ofFloats (List.replicate rank 1) [pattern]).mapError .tensor

/-- The tensor times a factor, which becomes a constant of the same rank. -/
def scale (node : Node) (tensor : TensorId) (factor : UInt64) : Program RuleError TensorId := do
  -- A factor of one leaves no trace in the network.
  if factor = Binary.doubleOne then return tensor
  else
    let other ← tensorOf tensor
    if other.dtype ≠ .f32 then .refuse (.invalid (.scaledType other.dtype))
    else
      let weights ← scalarTensor other.dims.rank (Binary.narrow factor)
      let constant ← perform (.addConstant (layerName node "alpha") weights)
      combine node tensor constant .prod "scale other"

/-- A sum or difference with a scaled second operand. -/
def scaled (op : ElementWiseOp) : Rule := fun node arguments => do
  let (lhs, rhs) ← broadcastOperands node arguments
  let factor ← scaleFactor arguments
  let rhs ← scale node rhs factor
  let output ← combine node lhs rhs op ""
  bindOutput node output

/-- A product. -/
def elementProduct : Rule := fun node arguments => do
  let (lhs, rhs) ← broadcastOperands node arguments
  let output ← combine node lhs rhs .prod ""
  bindOutput node output

end TensorEngine.Lowering
