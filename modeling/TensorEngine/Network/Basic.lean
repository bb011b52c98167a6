import TensorEngine.Network.Inference
import TensorEngine.Tensor.Basic

/-!
# Networks

A network is built tensor by tensor: inputs, constants and layers over tensors that already exist.
A call looks things up in the network and then changes it; what it has changed before it fails stays
changed.

## Main definitions

* `Network`: tensors, layers, inputs and outputs
* `Building`: computations that look things up in a network and change it
* `Network.Edit`, `Network.call`: the calls that build a network, and their effect
-/

namespace TensorEngine

/-- The operation of an elementwise layer. -/
inductive ElementWiseOp
  | sum
  | sub
  | prod
  deriving DecidableEq, Repr

/-- What a layer computes. -/
inductive LayerKind
  | constant (weights : Tensor)
  | shuffle (spec : ShuffleSpec)
  | matrixMultiply (op0 op1 : MatrixOp)
  | elementWise (op : ElementWiseOp)
  deriving DecidableEq, Repr

/-- The name of a kind of layer. -/
def LayerKind.name : LayerKind → String
  | .constant _ => "constant"
  | .shuffle _ => "shuffle"
  | .matrixMultiply _ _ => "matrix_multiply"
  | .elementWise _ => "elementwise"

/-- A tensor as a network records it. -/
structure NetworkTensor where
  name : String
  dtype : DType
  dims : Dims
  deriving DecidableEq, Repr

/-- A layer: what it computes, from which tensors, into which tensor. -/
structure Layer where
  name : String
  kind : LayerKind
  inputs : List TensorId
  output : TensorId
  deriving DecidableEq, Repr

/-- Tensors and layers in the order of their creation, and which tensors are inputs and outputs. -/
structure Network where
  tensors : List NetworkTensor
  layers : List Layer
  inputs : List TensorId
  outputs : List TensorId
  deriving DecidableEq, Repr

namespace Network

/-- The network without tensors. -/
def empty : Network :=
  ⟨[], [], [], []⟩

/-- The tensor with this id. -/
def tensor (network : Network) (id : TensorId) : Except NetworkError NetworkTensor :=
  match network.tensors[id.index]? with
  | some t => .ok t
  | none => .error (.unknownTensor id)

/-- The dimensions of a tensor. -/
def dims (network : Network) (id : TensorId) : Except NetworkError Dims :=
  (network.tensor id).map (·.dims)

/-- The first tensor with this name. -/
def find? (network : Network) (name : String) : Option TensorId :=
  (network.tensors.findIdx? (·.name == name)).map .mk

/-- The tensor is an input or an output. -/
def isMarked (network : Network) (id : TensorId) : Bool :=
  id ∈ network.inputs || id ∈ network.outputs

/-- The id of the next tensor. -/
def nextId (network : Network) : TensorId :=
  ⟨network.tensors.length⟩

/-- The network with one more tensor. -/
def push (network : Network) (t : NetworkTensor) : Network :=
  { network with tensors := network.tensors ++ [t] }

/-- The network with one more layer and the tensor that it computes. -/
def pushLayer (network : Network) (name : String) (kind : LayerKind) (inputs : List TensorId)
    (dtype : DType) (dims : Dims) : TensorId × Network :=
  let output := network.nextId
  let network := network.push ⟨name ++ ":out", dtype, dims⟩
  (output, { network with layers := network.layers ++ [⟨name, kind, inputs, output⟩] })

/-- Adds a constant layer. -/
def addConstant (network : Network) (name : String) (weights : Tensor) : TensorId × Network :=
  network.pushLayer name (.constant weights) [] weights.dtype (.ofShape weights.shape)

/-- Two tensors with the same element type. -/
def operands (network : Network) (lhs rhs : TensorId) :
    Except NetworkError (NetworkTensor × NetworkTensor) := do
  let a ← network.tensor lhs
  let b ← network.tensor rhs
  if a.dtype = b.dtype then return (a, b)
  else throw (.dtypeMismatch a.dtype b.dtype)

/-- No tensor has the name. -/
def checkFresh (network : Network) (name : String) : Except NetworkError Unit :=
  if (network.find? name).isSome then .error (.duplicateName name) else .ok ()

/-- The tensor is neither input nor output. -/
def checkUnmarked (network : Network) (id : TensorId) : Except NetworkError Unit := do
  let existing ← network.tensor id
  if network.isMarked id then throw (.alreadyMarked existing.name)

/-- The network with a tensor renamed. -/
def rename (network : Network) (id : TensorId) (name : String) : Network :=
  { network with tensors := network.tensors.modify id.index ({ · with name := name }) }

end Network

/-- A computation on a network: its answer, and the network that it leaves behind, also when it
fails. -/
def Building (α : Type) : Type :=
  Network → Except NetworkError α × Network

namespace Building

variable {α : Type}

instance : Monad Building where
  pure answer := fun network => (.ok answer, network)
  bind first next := fun network =>
    match first network with
    | (.ok answer, network) => next answer network
    | (.error error, network) => (.error error, network)

/-- Looks something up, or fails. -/
def look (lookup : Network → Except NetworkError α) : Building α :=
  fun network => (lookup network, network)

/-- Changes the network. -/
def change (f : Network → α × Network) : Building α :=
  fun network => (.ok (f network).1, (f network).2)

end Building

namespace Network

open Building

/-- Adds an input under a name of its own. -/
def addInput (name : String) (dtype : DType) (dims : Dims) : Building TensorId := do
  look (·.checkFresh name)
  let id ← change fun network => (network.nextId, network.push ⟨name, dtype, dims⟩)
  change fun network => (id, { network with inputs := network.inputs ++ [id] })

/-- Adds a shuffle layer. -/
def addShuffle (name : String) (input : TensorId) (spec : ShuffleSpec) : Building TensorId := do
  let source ← look (·.tensor input)
  let dims ← look fun _ => inferShuffle source.dims spec
  change (·.pushLayer name (.shuffle spec) [input] source.dtype dims)

/-- Adds a layer of two operands with the same element type. -/
def addBinary (name : String) (kind : LayerKind) (lhs rhs : TensorId)
    (infer : Dims → Dims → Except NetworkError Dims) : Building TensorId := do
  let (a, b) ← look (·.operands lhs rhs)
  let dims ← look fun _ => infer a.dims b.dims
  change (·.pushLayer name kind [lhs, rhs] a.dtype dims)

/-- Adds a matrix product. -/
def addMatrixMultiply (name : String) (lhs : TensorId) (op0 : MatrixOp) (rhs : TensorId)
    (op1 : MatrixOp) : Building TensorId :=
  addBinary name (.matrixMultiply op0 op1) lhs rhs fun a b => inferMatrixMultiply a op0 b op1

/-- Adds an elementwise layer. -/
def addElementWise (name : String) (lhs rhs : TensorId) (op : ElementWiseOp) :
    Building TensorId :=
  addBinary name (.elementWise op) lhs rhs inferBroadcast

/-- Gives a tensor that is neither input nor output a name of its own and makes it an output. -/
def markOutput (id : TensorId) (name : String) : Building TensorId := do
  look (·.checkUnmarked id)
  look (·.checkFresh name)
  -- An output is known by the name it is given here.
  change fun network => ((), network.rename id name)
  change fun network => (id, { network with outputs := network.outputs ++ [id] })

/-- A call that builds a network. -/
inductive Edit
  | addInput (name : String) (dtype : DType) (dims : Dims)
  | addConstant (name : String) (weights : Tensor)
  | addShuffle (name : String) (input : TensorId) (spec : ShuffleSpec)
  | addMatrixMultiply (name : String) (lhs : TensorId) (op0 : MatrixOp) (rhs : TensorId)
      (op1 : MatrixOp)
  | addElementWise (name : String) (lhs rhs : TensorId) (op : ElementWiseOp)
  | markOutput (id : TensorId) (name : String)
  deriving DecidableEq, Repr

/-- The computation of a call. It answers with the tensor that it is about. -/
def Edit.building : Edit → Building TensorId
  | .addInput name dtype dims => Network.addInput name dtype dims
  | .addConstant name weights => change (·.addConstant name weights)
  | .addShuffle name input spec => Network.addShuffle name input spec
  | .addMatrixMultiply name lhs op0 rhs op1 => Network.addMatrixMultiply name lhs op0 rhs op1
  | .addElementWise name lhs rhs op => Network.addElementWise name lhs rhs op
  | .markOutput id name => Network.markOutput id name

/-- The answer of a call, and the network after it. -/
def call (network : Network) (e : Edit) : Except NetworkError TensorId × Network :=
  e.building network

/-- The effect of a call for a caller that gives up when it fails. -/
def apply (network : Network) (e : Edit) : Except NetworkError (TensorId × Network) :=
  match network.call e with
  | (.ok id, network) => .ok (id, network)
  | (.error error, _) => .error error

end Network

end TensorEngine
