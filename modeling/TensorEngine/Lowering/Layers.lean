import TensorEngine.Lowering.Argument

/-!
# Layers for a node

The steps that rules share: naming layers after the node they come from, reading what the network
records, reshaping, and binding the output of a node.

## Main definitions

* `Rule`: what lowers a node
* `reshape`, `expandRank`: reshaping to a literal target, and prepending extents of one
* `normalizeAxis`: axes counted from the end
-/

namespace TensorEngine.Lowering

/-- A rule lowers a node with the given inputs and binds its outputs. -/
abbrev Rule := Node → List Argument → Program RuleError Unit

instance {ε : Type} : MonadLift (Except ε) (Program ε) := ⟨Program.ofExcept⟩

/-- The input at a position. -/
def argumentAt (arguments : List Argument) (position : Nat) : Except RuleError Argument :=
  match arguments[position]? with
  | some argument => .ok argument
  | none => .error (.invalid (.tooFewArguments (position + 1) arguments.length))

/-- The input at a position as a tensor of the network. -/
def operandAt (arguments : List Argument) (position : Nat) : Program RuleError TensorId := do
  let argument ← argumentAt arguments position
  argument.tensorOrFreeze id

/-- The name of a layer: the text of its node, and which part of the node it computes. -/
def layerName (node : Node) (part : String) : String :=
  if part = "" then node.describe else s!"{node.describe} [{part}]"

/-- Edits the network. -/
def perform (e : Network.Edit) : Program RuleError TensorId :=
  (Program.perform e).mapError .network

/-- What the network records about a tensor. -/
def tensorOf (id : TensorId) : Program RuleError NetworkTensor :=
  .inspect fun state => .ofExcept ((state.network.tensor id).mapError .network)

/-- The dimensions of a tensor. -/
def dimsOf (id : TensorId) : Program RuleError Dims := do
  return (← tensorOf id).dims

/-- Binds the first output of a node. -/
def bindOutput (node : Node) (tensor : TensorId) : Program RuleError Unit :=
  match node.outputs with
  | [] => .refuse (.invalid .noOutputs)
  | value :: _ => do
    let _ ← Program.associate value tensor
    return ()

/-- The axis that a number from `-rank` to `rank - 1` names. -/
def normalizeAxis (axis : Int) (rank : Nat) : Except RuleError Nat := do
  let wrapped ← if axis < 0 then Signed.add axis rank else pure axis
  if 0 ≤ wrapped ∧ wrapped < rank then return wrapped.toNat
  else throw (.invalid (.axisOutOfRange axis rank))

/-- Refuses unknown extents, as a limit of dynamic shapes where such shapes were asked for. -/
def requireStatic (dims : Dims) (activity : String) : Program RuleError Unit :=
  if dims.isStatic then .done ()
  else
    .inspect fun state =>
      let objection := Objection.unknownDims activity dims
      .refuse (if state.settings.dynamicShape then .dynamicShape objection else .invalid objection)

/-- Reshapes a tensor. -/
def reshape (node : Node) (tensor : TensorId) (target : Dims) (part : String) :
    Program RuleError TensorId :=
  perform (.addShuffle (layerName node part) tensor (.reshaping target))

/-- The dimensions with extents of one in front, up to the given rank. -/
def expandedDims (dims : Dims) (rank : Nat) : Except RuleError Dims := do
  let missing ← Unsigned.sub rank dims.rank
  return List.replicate missing 1 ++ dims

/-- Prepends extents of one to a tensor of lower rank. -/
def expandRank (node : Node) (tensor : TensorId) (rank : Nat) (part : String) :
    Program RuleError TensorId := do
  let dims ← dimsOf tensor
  if rank ≤ dims.rank then return tensor
  else
    requireStatic dims "rank expansion"
    let target ← (expandedDims dims rank : Except RuleError Dims)
    reshape node tensor target part

end TensorEngine.Lowering
