import TensorEngine.Lowering.Layers

/-!
# Reshapes and transpositions

Flattening a range of axes, reshaping to a requested shape, and permuting axes.

## Main definitions

* `flattenTarget`, `flatten`: the reshape that joins a range of axes
* `requestedShape`, `reshapeTo`: the reshape to a requested shape
* `permuteAxes`, `transposeAll`: the axes in another order
-/

namespace TensorEngine.Lowering

/-- The number of elements along a range of axes. -/
def collapsedExtent (dims : Dims) (first last : Nat) : Except RuleError Int := do
  match Signed.product? (← slice dims first (last + 1)) with
  | some extent => return extent
  | none => throw (.invalid (.flattenOverflows first last dims))

/-- The reshape target when extents may be unknown. Leading extents are copied and the joined one
is inferred. Trailing extents change their place, so they have to be known, except for one that can
be inferred when the joined extent is known. -/
def flattenDynamic (dims : Dims) (first last : Nat) : Except RuleError Dims := do
  let trailing ← slice dims (last + 1) dims.rank
  let joined ← slice dims first (last + 1)
  let unknown := trailing.countP (· < 0)
  -- A zero copies the extent at its place, known or not.
  if unknown = 0 then return List.replicate first 0 ++ -1 :: trailing
  else if unknown = 1 ∧ joined.all (0 ≤ ·) then
    let extent ← collapsedExtent dims first last
    return List.replicate first 0 ++ extent :: trailing
  else throw (.dynamicShape (.flattenUnknown first last dims))

/-- The reshape target when all extents are known. -/
def flattenStatic (dims : Dims) (first last : Nat) : Except RuleError Dims := do
  let leading ← slice dims 0 first
  let extent ← collapsedExtent dims first last
  let trailing ← slice dims (last + 1) dims.rank
  return leading ++ extent :: trailing

/-- The reshape target that joins the axes from `first` to `last`. -/
def flattenTarget (dynamicShape : Bool) (dims : Dims) (first last : Nat) :
    Except RuleError Dims :=
  if dynamicShape || !dims.isStatic then flattenDynamic dims first last
  else flattenStatic dims first last

/-- The axis that an integer input names. -/
def axisAt (arguments : List Argument) (position rank : Nat) : Except RuleError Nat := do
  let argument ← argumentAt arguments position
  normalizeAxis (← argument.int) rank

/-- Joins a range of axes. A tensor without axes gets one of extent one. -/
def flatten : Rule := fun node arguments => do
  let input ← operandAt arguments 0
  let dims ← dimsOf input
  if dims.rank = 0 then
    let output ← reshape node input [1] ""
    bindOutput node output
  else
    let first ← axisAt arguments 1 dims.rank
    let last ← axisAt arguments 2 dims.rank
    if last < first then .refuse (.invalid (.flattenReversed first last))
    else
      let dynamicShape ← Program.gets (·.settings.dynamicShape)
      let target ← flattenTarget dynamicShape dims first last
      let output ← reshape node input target ""
      bindOutput node output

/-- The product of the requested sizes, and the place of the one to infer. Counting of places
starts at `place`; `inferred` and `known` belong to the sizes before. -/
def scanRequest : (place : Nat) → (inferred : Option Nat) → (known : Int) → List Int →
    Except RequestFault (Option Nat × Int)
  | _, inferred, known, [] => .ok (inferred, known)
  | place, inferred, known, d :: rest =>
    if d = -1 then
      if inferred.isSome then .error .severalInferred
      else scanRequest (place + 1) (some place) known rest
    else if 0 < d then
      match Signed.mul? known d with
      | some known => scanRequest (place + 1) inferred known rest
      | none => .error .countOverflows
    else if d = 0 then .error .zeroSized
    else .error .negative

/-- The shape that a request means for these dimensions: one size may be left to be inferred. -/
def requestedShape (dims : Dims) (requested : List Int) : Except RuleError Dims := do
  let reject (reason : RequestFault) : RuleError := .invalid (.reshape dims requested reason)
  if !dims.isStatic then throw (reject .unknownInput)
  match dims.volume with
  | none => throw (reject .countOverflows)
  | some total =>
    let (inferred, known) ← (scanRequest 0 none 1 requested).mapError reject
    match inferred with
    | some place =>
      if total = 0 then throw (reject .notDivisible)
      else
        -- The known sizes are positive, so there is a quotient.
        let rest ← Signed.remainder total known
        if rest ≠ 0 then throw (reject .notDivisible)
        let extent ← Signed.quotient total known
        return requested.set place extent
    | none => if known = total then return requested else throw (reject .countsDiffer)

/-- Reshapes to a requested shape. -/
def reshapeTo : Rule := fun node arguments => do
  let input ← operandAt arguments 0
  let requested ← (do (← argumentAt arguments 1).ints : Except RuleError (List Int))
  let dynamicShape ← Program.gets (·.settings.dynamicShape)
  if dynamicShape then .refuse (.dynamicShape .dynamicReshape)
  else
    let dims ← dimsOf input
    requireStatic dims "reshape"
    let target ← requestedShape dims requested
    let output ← reshape node input target ""
    bindOutput node output

/-- The order of axes that a list of integers names. -/
def axisOrder (axes : List Int) (rank : Nat) : Except RuleError (List Nat) := do
  let order ← axes.mapM (normalizeAxis · rank)
  if IsPermutation order rank then return order
  else throw (.invalid (.notAPermutation order rank))

/-- Permutes the axes. -/
def permuteAxes : Rule := fun node arguments => do
  let input ← operandAt arguments 0
  let dims ← dimsOf input
  let order ← (do axisOrder (← (← argumentAt arguments 1).ints) dims.rank :
    Except RuleError (List Nat))
  let output ← perform (.addShuffle (layerName node "") input (.transposing order))
  bindOutput node output

/-- Reverses the axes. A constant is transposed at once. -/
def transposeAll : Rule := fun node arguments => do
  let argument ← argumentAt arguments 0
  match argument with
  | .constant _ =>
    let weights ← argument.constantTensor
    let transposed ← (weights.permute (reversal weights.rank)).mapError RuleError.tensor
    let output ← perform (.addConstant (layerName node "") transposed)
    bindOutput node output
  | .tensor input =>
    let dims ← dimsOf input
    let output ← perform
      (.addShuffle (layerName node "") input (.transposing (reversal dims.rank)))
    bindOutput node output

end TensorEngine.Lowering
