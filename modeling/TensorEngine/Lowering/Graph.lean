import TensorEngine.Binding
import TensorEngine.Graph.Order
import TensorEngine.Lowering.RuleTable

/-!
# Lowering a graph

A graph is lowered in three parts. Its inputs become inputs of the network, in their order and
named by it. Its nodes follow in an order of execution, each by the rule of its signature, which has
to bind every output of the node. Its outputs become outputs of the network, in their order and
named by it. The first error ends the whole.

## Main definitions

* `lowering`, `lower`: the program that lowers a graph, and its result
* `unsupported`: the signatures that a graph uses and a table has no rule for
-/

namespace TensorEngine.Lowering

/-- A result about the graph itself. -/
def ofGraph {α : Type} (result : Except GraphError α) : Program LoweringError α :=
  .ofExcept (result.mapError .graph)

/-- Edits the network outside of nodes. -/
def editNetwork (e : Network.Edit) : Program LoweringError TensorId :=
  (Program.perform e).mapError .network

/-- Makes the inputs from `position` on inputs of the network, and binds them. -/
def lowerInputs (graph : Graph) : (position : Nat) → List ValueId → Program LoweringError Unit
  | _, [] => .done ()
  | position, id :: rest => do
    let value ← ofGraph (graph.value id)
    match value.kind with
    | .input dtype dims =>
      let tensor ← editNetwork (.addInput (BindingName.input position).text dtype dims)
      let _ ← (Program.associate id tensor).mapError (.rule (.graphInput value.name))
      lowerInputs graph (position + 1) rest
    -- There is an order of execution only if every declared input is one.
    | .tensor | .constant _ => lowerInputs graph (position + 1) rest

/-- What a node is given for a value: the constant that it is, or the tensor it is bound to. -/
def argumentOf (graph : Graph) (node : Node) (id : ValueId) : Program LoweringError Argument := do
  let value ← ofGraph (graph.value id)
  match value.constant? with
  | some c => return .constant c
  | none =>
    match ← Program.gets (·.binding? id) with
    | some tensor => return .tensor tensor
    | none => .refuse (.rule (.node node) (.invalid (.inputWithoutTensor id)))

/-- What a node is given for each of its inputs. -/
def argumentsOf (graph : Graph) (node : Node) :
    List ValueId → Program LoweringError (List Argument)
  | [] => .done []
  | id :: rest => do
    let argument ← argumentOf graph node id
    let arguments ← argumentsOf graph node rest
    return argument :: arguments

/-- Every one of these outputs of a node is bound to a tensor of the network. -/
def checkBound (node : Node) : List ValueId → Program LoweringError Unit
  | [] => .done ()
  | id :: rest => do
    match ← Program.gets (·.binding? id) with
    | none => .refuse (.rule (.node node) (.invalid (.outputNotBound id)))
    | some tensor =>
      let network ← Program.gets (·.network)
      let _ ← (.ofExcept ((network.dims tensor).mapError .network) : Program LoweringError Dims)
      checkBound node rest

/-- Lowers a node by the rule of its signature. -/
def lowerNode (table : RuleTable) (graph : Graph) (node : Node) : Program LoweringError Unit :=
  match table.find? node.signature with
  | none => .refuse (.unsupportedOperation node.signature)
  | some rule => do
    let arguments ← argumentsOf graph node node.inputs
    (rule node arguments).mapError (.rule (.node node))
    -- A rule may succeed without binding every output.
    checkBound node node.outputs

/-- Lowers the nodes at the given positions. -/
def lowerNodes (table : RuleTable) (graph : Graph) : List Nat → Program LoweringError Unit
  | [] => .done ()
  | position :: rest => do
    let node ← ofGraph (entry graph.nodes position)
    lowerNode table graph node
    lowerNodes table graph rest

/-- The tensor of an output. A constant becomes a constant layer. -/
def outputTensor (graph : Graph) (id : ValueId) : Program LoweringError TensorId := do
  let value ← ofGraph (graph.value id)
  match ← Program.gets (·.binding? id), value.constant? with
  | some tensor, _ => return tensor
  | none, some c =>
    let frozen : Program RuleError TensorId := do
      let tensor ← (Argument.constant c).tensorOrFreeze fun cause => cause
      Program.associate id tensor
    frozen.mapError (.rule .graphOutputs)
  | none, none => .refuse (.rule .graphOutputs (.invalid (.outputWithoutTensor id)))

/-- A tensor that can still be marked. A tensor has one name, so one that is an input or output
already is copied. -/
def exportable (name : BindingName) (tensor : TensorId) : Program LoweringError TensorId := do
  if ← Program.gets (·.network.isMarked tensor) then
    editNetwork (.addShuffle s!"[Identity {name.text}]" tensor .identity)
  else return tensor

/-- Makes the outputs from `position` on outputs of the network. -/
def lowerOutputs (graph : Graph) : (position : Nat) → List ValueId → Program LoweringError Unit
  | _, [] => .done ()
  | position, id :: rest => do
    let name := BindingName.output position
    let tensor ← outputTensor graph id
    let tensor ← exportable name tensor
    let _ ← editNetwork (.markOutput tensor name.text)
    lowerOutputs graph (position + 1) rest

/-- The program that lowers a graph. -/
def lowering (table : RuleTable) (graph : Graph) : Program LoweringError Unit := do
  let order ← ofGraph graph.order
  lowerInputs graph 0 graph.inputs
  lowerNodes table graph order
  lowerOutputs graph 0 graph.outputs

/-- A lowered graph: its network, and the tensors that its values are bound to. -/
structure Lowered where
  network : Network
  bindings : Bindings
  deriving DecidableEq, Repr

/-- The result of lowering a graph, and the state in which the lowering ended. -/
def lowerWithState (table : RuleTable) (settings : Settings) (graph : Graph) :
    Except LoweringError Lowered × State :=
  let (result, state) := (lowering table graph).run (.start settings)
  (result.map fun _ => ⟨state.network, state.bindings⟩, state)

/-- The result of lowering a graph. -/
def lower (table : RuleTable) (settings : Settings) (graph : Graph) :
    Except LoweringError Lowered :=
  (lowerWithState table settings graph).1

/-- The schemas that a graph uses without a rule, each once and in ascending order. -/
def unsupported (table : RuleTable) (graph : Graph) : List String :=
  let missing := graph.nodes.filter fun node => !table.contains node.signature
  sorted (· ≤ ·) (missing.map (·.signature.schema)).eraseDups

end TensorEngine.Lowering
