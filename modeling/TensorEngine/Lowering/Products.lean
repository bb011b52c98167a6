import TensorEngine.Lowering.Layers

/-!
# Matrix products

Products of matrices, of stacks of matrices, and of vectors. A vector becomes a matrix with one
row or one column, and the extent of one is dropped from the product. A stack times a single
matrix is folded into one matrix, and the rows of the product are unfolded again; other ranks are
made equal by extents of one in front.

## Main definitions

* `matmul`: operands of any rank from one on
* `matrixProduct`, `stackProduct`: operands of rank two and three
-/

namespace TensorEngine.Lowering

/-- Refuses operands that are not floating point. -/
def requireFloatingPoint (tensor : TensorId) : Program RuleError Unit := do
  let dtype := (← tensorOf tensor).dtype
  if dtype.isFloatingPoint then return ()
  else .refuse (.invalid (.notFloatingPoint dtype))

/-- The two operands of a product. -/
def factors (arguments : List Argument) : Program RuleError (TensorId × TensorId) := do
  let lhs ← operandAt arguments 0
  let rhs ← operandAt arguments 1
  requireFloatingPoint lhs
  requireFloatingPoint rhs
  return (lhs, rhs)

/-- The product of two tensors of the network. -/
def multiply (node : Node) (lhs rhs : TensorId) : Program RuleError TensorId :=
  perform (.addMatrixMultiply (layerName node "") lhs .none rhs .none)

/-- Rows and columns of a folded stack, and what its rows unfold to. -/
structure Folding where
  folded : Dims
  unfolded : Dims
  deriving DecidableEq, Repr

/-- How a stack of matrices is folded into one matrix. -/
def folding (dims : Dims) : Except RuleError Folding := do
  let last ← Unsigned.sub dims.rank 1
  let rows ← slice dims 0 last
  match Signed.product? rows with
  | none => throw (.invalid (.foldOverflows dims))
  | some count =>
    let columns ← entry dims last
    return ⟨[count, columns], rows ++ [-1]⟩

/-- A stack of matrices times one matrix. -/
def foldedProduct (node : Node) (lhs : TensorId) (dims : Dims) (rhs : TensorId) :
    Program RuleError TensorId := do
  requireStatic dims "folding batch dimensions"
  let plan ← (folding dims : Except RuleError Folding)
  let folded ← reshape node lhs plan.folded "fold self"
  let product ← multiply node folded rhs
  reshape node product plan.unfolded "unfold"

/-- A vector as a matrix. -/
def lift (node : Node) (tensor : TensorId) (dims target : Dims) (part : String) :
    Program RuleError TensorId := do
  requireStatic dims "lifting a vector operand"
  reshape node tensor target part

/-- The entries whose places are not listed. -/
def withoutPlaces (places : List Nat) (dims : Dims) : Dims :=
  (dims.zipIdx.filter fun (_, place) => !places.contains place).map (·.1)

/-- The dimensions of a product without the extents of lifted vectors. -/
def squeezedDims (dims : Dims) (liftedLhs liftedRhs : Bool) : Except RuleError Dims := do
  let row ← if liftedLhs then (Unsigned.sub dims.rank 2).map ([·]) else pure []
  let column ← if liftedRhs then (Unsigned.sub dims.rank 1).map ([·]) else pure []
  return withoutPlaces (row ++ column) dims

/-- Operands of rank at least two. -/
def stackedProduct (node : Node) (lhs rhs : TensorId) : Program RuleError TensorId := do
  let lhsDims ← dimsOf lhs
  let rhsDims ← dimsOf rhs
  -- Only a stack on the left can be folded: its rows are contiguous.
  if 2 < lhsDims.rank ∧ rhsDims.rank = 2 then foldedProduct node lhs lhsDims rhs
  else
    let rank := max lhsDims.rank rhsDims.rank
    let lhs ← expandRank node lhs rank "expand self"
    let rhs ← expandRank node rhs rank "expand other"
    multiply node lhs rhs

/-- The product of operands of any rank from one on. -/
def matmul : Rule := fun node arguments => do
  let (lhs, rhs) ← factors arguments
  let lhsDims ← dimsOf lhs
  let rhsDims ← dimsOf rhs
  if lhsDims.rank = 0 ∨ rhsDims.rank = 0 then .refuse (.invalid .scalarOperand)
  else
    let liftedLhs := lhsDims.rank = 1
    let liftedRhs := rhsDims.rank = 1
    let lhs ← if liftedLhs then lift node lhs lhsDims [1, -1] "lift self" else pure lhs
    let rhs ← if liftedRhs then lift node rhs rhsDims [-1, 1] "lift other" else pure rhs
    let product ← stackedProduct node lhs rhs
    -- The extents of one that lifting has added are dropped again.
    if liftedLhs ∨ liftedRhs then
      let dims ← dimsOf product
      requireStatic dims "squeezing a lifted vector"
      let target ← (squeezedDims dims liftedLhs liftedRhs : Except RuleError Dims)
      let squeezed ← reshape node product target "squeeze"
      bindOutput node squeezed
    else bindOutput node product

/-- Refuses operands of another rank. -/
def requireRank (operation : String) (rank : Nat) (tensor : TensorId) :
    Program RuleError Unit := do
  let dims ← dimsOf tensor
  if dims.rank = rank then return ()
  else .refuse (.invalid (.wrongRank operation rank dims))

/-- The product of operands of one given rank. -/
def productOfRank (operation : String) (rank : Nat) : Rule := fun node arguments => do
  let (lhs, rhs) ← factors arguments
  requireRank operation rank lhs
  requireRank operation rank rhs
  let product ← multiply node lhs rhs
  bindOutput node product

/-- The product of two matrices. -/
def matrixProduct : Rule :=
  productOfRank "mm" 2

/-- The product of two stacks of matrices. -/
def stackProduct : Rule :=
  productOfRank "bmm" 3

end TensorEngine.Lowering
