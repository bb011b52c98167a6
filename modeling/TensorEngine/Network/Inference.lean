import TensorEngine.DType
import TensorEngine.Dims

/-!
# Inferring dimensions

The dimensions of a layer's result follow from those of its operands. Unknown extents are carried
through as far as the rules allow; where all extents are known the result is known too.

## Main definitions

* `ShuffleSpec`, `inferShuffle`: a transposition, a reshape and another transposition
* `inferBroadcast`: operands of equal rank, extents of one stretched
* `inferMatrixMultiply`: products of stacks of matrices
-/

namespace TensorEngine

/-- Why a reshape is refused. -/
inductive ReshapeFault
  | copyOutOfRange
  | severalInferred
  | negative
  | countOverflows
  | notDivisible
  | countsDiffer
  deriving DecidableEq, Repr

/-- The wording of a reshape fault. -/
def ReshapeFault.message : ReshapeFault → String
  | .copyOutOfRange => "copied dim is out of range"
  | .severalInferred => "more than one inferred dim"
  | .negative => "negative dim"
  | .countOverflows => "element count overflows"
  | .notDivisible => "element count is not divisible"
  | .countsDiffer => "element counts differ"

/-- The name of a tensor in a network: its position. -/
structure TensorId where
  index : Nat
  deriving DecidableEq, Repr

/-- Why a network refuses a tensor, a layer or an output. -/
inductive NetworkError
  | unknownTensor (id : TensorId)
  | duplicateName (name : String)
  | permutation (order : List Nat) (rank : Nat)
  | reshape (input target : Dims) (reason : ReshapeFault)
  | matrixMultiply (lhs rhs : Dims)
  | broadcast (lhs rhs : Dims)
  | dtypeMismatch (lhs rhs : DType)
  | alreadyMarked (name : String)
  | fault (fault : Fault)
  deriving DecidableEq, Repr

instance : HasFault NetworkError := ⟨.fault⟩

/-- The wording of a network error. -/
def NetworkError.message : NetworkError → String
  | .unknownTensor id => s!"unknown network tensor TensorId({id.index})"
  | .duplicateName name => s!"tensor name `{name}` is already used"
  | .permutation order rank =>
    s!"invalid permutation {Text.listing order} for tensor of rank {rank}"
  | .reshape input target reason =>
    s!"cannot reshape {input.text} to {target.text}: {reason.message}"
  | .matrixMultiply lhs rhs =>
    s!"matrix multiply operands are incompatible: {lhs.text} x {rhs.text}"
  | .broadcast lhs rhs => s!"operands cannot be broadcast together: {lhs.text} and {rhs.text}"
  | .dtypeMismatch lhs rhs => s!"operand dtypes differ: {lhs} and {rhs}"
  | .alreadyMarked name => s!"tensor `{name}` is already a network input or output"
  | .fault cause => cause.message

/-- A transposition, a reshape and another transposition, each optional. In the reshape a zero
copies the extent at its place, and one entry of minus one is inferred from the others. -/
structure ShuffleSpec where
  firstTranspose : Option (List Nat)
  reshape : Option Dims
  secondTranspose : Option (List Nat)
  deriving DecidableEq, Repr

namespace ShuffleSpec

/-- Nothing but a copy. -/
def identity : ShuffleSpec :=
  ⟨none, none, none⟩

/-- A reshape alone. -/
def reshaping (target : Dims) : ShuffleSpec :=
  { identity with reshape := some target }

/-- A transposition alone. -/
def transposing (order : List Nat) : ShuffleSpec :=
  { identity with secondTranspose := some order }

end ShuffleSpec

/-- Whether an operand of a matrix product is transposed. -/
inductive MatrixOp
  | none
  | transpose
  deriving DecidableEq, Repr

/-- The extents in the given order. -/
def permuteDims (dims : Dims) (order : List Nat) : Except NetworkError Dims :=
  if IsPermutation order dims.rank then order.mapM (entry dims)
  else .error (.permutation order dims.rank)

/-- The target of a reshape with its copies made, and the place of its inferred entry. Counting of
places starts at `place`; `inferred` is the place of an earlier inferred entry. -/
def copyExtents (source : Dims) : (place : Nat) → (inferred : Option Nat) → (target : Dims) →
    Except ReshapeFault (Dims × Option Nat)
  | _, inferred, [] => .ok ([], inferred)
  | place, inferred, d :: rest => do
    if d = 0 then
      match source[place]? with
      | none => throw .copyOutOfRange
      | some copied =>
        let (dims, at?) ← copyExtents source (place + 1) inferred rest
        return (copied :: dims, at?)
    else if d = -1 then
      if inferred.isSome then throw .severalInferred
      else
        let (dims, at?) ← copyExtents source (place + 1) (some place) rest
        return (-1 :: dims, at?)
    else if 0 < d then
      let (dims, at?) ← copyExtents source (place + 1) inferred rest
      return (d :: dims, at?)
    else throw .negative

/-- The inferred extent: the element count divided by the other extents, where all are known. -/
def inferExtent (total : Option Int) (dims : Dims) (place : Nat)
    (reject : ReshapeFault → NetworkError) : Except NetworkError Dims := do
  -- The entry stays unknown as long as the count or another extent is.
  let others := dims.eraseIdx place
  match total with
  | some total =>
    if others.all (0 ≤ ·) then
      match Signed.product? others with
      | none => throw (reject .countOverflows)
      | some known =>
        -- Where another extent is zero, nothing follows from the count.
        if known = 0 then throw (reject .notDivisible)
        else
          let rest ← Signed.remainder total known
          if rest ≠ 0 then throw (reject .notDivisible)
          let extent ← Signed.quotient total known
          return dims.set place extent
    else return dims
  | none => return dims

/-- The dimensions after a reshape. An element count is compared where both sides are known. -/
def inferReshape (source target : Dims) (reject : ReshapeFault → NetworkError) :
    Except NetworkError Dims := do
  let (dims, inferred) ← (copyExtents source 0 none target).mapError reject
  let total := source.volume
  -- Known extents without a product that fits: nothing could be compared.
  if source.isStatic && total.isNone then throw (reject .countOverflows)
  match inferred with
  | some place => inferExtent total dims place reject
  | none =>
    match total with
    | some total =>
      if dims.isStatic && dims.volume != some total then throw (reject .countsDiffer)
      return dims
    | none => return dims

/-- An optional transposition of dimensions. -/
def transposeDims (dims : Dims) : Option (List Nat) → Except NetworkError Dims
  | none => .ok dims
  | some order => permuteDims dims order

/-- The dimensions of a shuffled tensor. -/
def inferShuffle (input : Dims) (spec : ShuffleSpec) : Except NetworkError Dims := do
  let dims ← transposeDims input spec.firstTranspose
  let dims ←
    match spec.reshape with
    | none => pure dims
    | some target => inferReshape dims target (.reshape input target)
  transposeDims dims spec.secondTranspose

/-- The extent that two extents broadcast to: equal ones stay, one is stretched, and an unknown
one takes the other. -/
def broadcastExtent? (a b : Int) : Option Int :=
  if a = b then some a
  else if a = 1 then some b
  else if b = 1 then some a
  else if a = -1 then some b
  else if b = -1 then some a
  else none

/-- The extents that two lists of extents broadcast to, place by place. -/
def broadcastExtents? : Dims → Dims → Option Dims
  | [], [] => some []
  | a :: lhs, b :: rhs => do
    let d ← broadcastExtent? a b
    let rest ← broadcastExtents? lhs rhs
    return d :: rest
  | _, _ => none

/-- The dimensions of an elementwise result. -/
def inferBroadcast (lhs rhs : Dims) : Except NetworkError Dims :=
  match broadcastExtents? lhs rhs with
  | some dims => .ok dims
  | none => .error (.broadcast lhs rhs)

/-- The last two of at least two entries, and the entries before them. -/
def matrixParts? {α : Type} : List α → Option (List α × α × α)
  | [] => none
  | [_] => none
  | [a, b] => some ([], a, b)
  | a :: rest => (matrixParts? rest).map fun (stack, rows, columns) => (a :: stack, rows, columns)

/-- Rows and columns, exchanged by a transposition. -/
def MatrixOp.orient {α : Type} (op : MatrixOp) (rows columns : α) : α × α :=
  match op with
  | .none => (rows, columns)
  | .transpose => (columns, rows)

/-- The dimensions of a matrix product: operands of equal rank, at least two, whose inner extents
agree where both are known and whose outer extents broadcast. -/
def inferMatrixMultiply (lhs : Dims) (op0 : MatrixOp) (rhs : Dims) (op1 : MatrixOp) :
    Except NetworkError Dims :=
  match matrixParts? lhs, matrixParts? rhs with
  | some (stack0, rows0, columns0), some (stack1, rows1, columns1) =>
    let (m, k0) := op0.orient rows0 columns0
    let (k1, n) := op1.orient rows1 columns1
    -- An unknown inner extent agrees with every other.
    if 0 ≤ k0 ∧ 0 ≤ k1 ∧ k0 ≠ k1 then .error (.matrixMultiply lhs rhs)
    else
      match broadcastExtents? stack0 stack1 with
      | some stack => .ok (stack ++ [m, n])
      | none => .error (.matrixMultiply lhs rhs)
  | _, _ => .error (.matrixMultiply lhs rhs)

end TensorEngine
