import TensorEngine.Dims
import TensorEngine.Tensor.Basic

/-!
# Source graphs

A source graph is a computation as it was recorded: values, and nodes that compute values from
values. A value is an input of the graph, a constant, or a tensor that some node computes.

## Main definitions

* `Constant`, `Value`, `Node`, `Graph`: the parts of a graph
* `Node.describe`: the text of a node in messages and layer names
* `Graph.addInput` and its companions: building a graph
-/

namespace TensorEngine

/-- The name of a value in a graph: its position. -/
structure ValueId where
  index : Nat
  deriving DecidableEq, Repr

/-- The text of a value id. -/
def ValueId.text (id : ValueId) : String :=
  s!"%{id.index}"

/-- The character has the Unicode property `White_Space`. -/
def Text.isBlank (c : Char) : Bool :=
  let n := c.toNat
  (0x9 ≤ n && n ≤ 0xD) || n == 0x20 || n == 0x85 || n == 0xA0 || n == 0x1680 ||
    (0x2000 ≤ n && n ≤ 0x200A) || n == 0x2028 || n == 0x2029 || n == 0x202F || n == 0x205F ||
    n == 0x3000

/-- The characters without the blanks at either end. -/
def Text.trim (cs : List Char) : List Char :=
  ((cs.dropWhile isBlank).reverse.dropWhile isBlank).reverse

/-- The schema of an operation, as in `op.overload(Tensor self) -> (Tensor)`. -/
structure Signature where
  schema : String
  deriving DecidableEq, Repr

/-- The name of the operation: the schema before its first parenthesis, without blanks around. -/
def Signature.operation (signature : Signature) : String :=
  String.ofList (Text.trim (signature.schema.toList.takeWhile (· != '(')))

/-- A value that is known when the graph is compiled. A double is kept as its pattern. -/
inductive Constant
  | none
  | bool (value : Bool)
  | int (value : Int)
  | double (pattern : UInt64)
  | ints (values : List Int)
  | tensor (value : Tensor)
  deriving DecidableEq, Repr

/-- The name of a kind of constant. -/
def Constant.kind : Constant → String
  | .none => "None"
  | .bool _ => "bool"
  | .int _ => "int"
  | .double _ => "float"
  | .ints _ => "int[]"
  | .tensor _ => "Tensor"

/-- Where a value comes from. -/
inductive ValueKind
  /-- An input of the graph with its declared type. -/
  | input (dtype : DType) (dims : Dims)
  /-- A tensor that a node computes. -/
  | tensor
  /-- A constant. -/
  | constant (value : Constant)
  deriving DecidableEq, Repr

/-- A value of a graph. -/
structure Value where
  name : String
  kind : ValueKind
  deriving DecidableEq, Repr

/-- The constant that a value is. -/
def Value.constant? (value : Value) : Option Constant :=
  match value.kind with
  | .constant c => some c
  | .input _ _ | .tensor => none

/-- A node: an operation, the values it uses and the values it computes. -/
structure Node where
  signature : Signature
  inputs : List ValueId
  outputs : List ValueId
  deriving DecidableEq, Repr

/-- The text of a node, as in `%3 = t(%1)`. -/
def Node.describe (node : Node) : String :=
  let outs := Text.commaSeparated (node.outputs.map ValueId.text)
  let ins := Text.commaSeparated (node.inputs.map ValueId.text)
  s!"{outs} = {node.signature.operation}({ins})"

/-- Values and nodes in the order of their creation, and which values are inputs and outputs. -/
structure Graph where
  values : List Value
  nodes : List Node
  inputs : List ValueId
  outputs : List ValueId
  deriving DecidableEq, Repr

/-- Why a graph has no order of execution. -/
inductive GraphError
  | unknownValue (id : ValueId)
  /-- A value without producer, and the text of what uses it. -/
  | undefined (id : ValueId) (user : String)
  | multipleProducers (id : ValueId)
  | notAnInput (id : ValueId)
  | cycle (count : Nat)
  | fault (fault : Fault)
  deriving DecidableEq, Repr

instance : HasFault GraphError := ⟨.fault⟩

/-- The wording of a graph error. -/
def GraphError.message : GraphError → String
  | .unknownValue id => s!"value {id.text} is not defined in this graph"
  | .undefined id user => s!"value {id.text} consumed by `{user}` has no producer"
  | .multipleProducers id => s!"value {id.text} is produced by more than one node"
  | .notAnInput id =>
    s!"value {id.text} is declared as a graph input but is not an input value"
  | .cycle count => s!"graph contains a cycle through {count} node(s)"
  | .fault cause => cause.message

namespace Graph

/-- The graph without values. -/
def empty : Graph :=
  ⟨[], [], [], []⟩

/-- The value with this id. -/
def value (graph : Graph) (id : ValueId) : Except GraphError Value :=
  match graph.values[id.index]? with
  | some v => .ok v
  | none => .error (.unknownValue id)

/-- The id of the next value. -/
def nextId (graph : Graph) : ValueId :=
  ⟨graph.values.length⟩

/-- Adds a value under a name. -/
def pushNamed (graph : Graph) (name : String) (kind : ValueKind) : ValueId × Graph :=
  (graph.nextId, { graph with values := graph.values ++ [⟨name, kind⟩] })

/-- Adds a value under its id as its name. -/
def push (graph : Graph) (kind : ValueKind) : ValueId × Graph :=
  graph.pushNamed graph.nextId.text kind

/-- Adds an input. -/
def addInput (graph : Graph) (name : String) (dtype : DType) (dims : Dims) : ValueId × Graph :=
  let (id, graph) := graph.pushNamed name (.input dtype dims)
  (id, { graph with inputs := graph.inputs ++ [id] })

/-- Adds a constant. -/
def addConstant (graph : Graph) (constant : Constant) : ValueId × Graph :=
  graph.push (.constant constant)

/-- Declares a tensor whose producer may be added later. -/
def declare (graph : Graph) : ValueId × Graph :=
  graph.push .tensor

/-- Declares several tensors. -/
def declareMany (graph : Graph) : (count : Nat) → List ValueId × Graph
  | 0 => ([], graph)
  | count + 1 =>
    let (id, graph) := graph.declare
    let (ids, graph) := graph.declareMany count
    (id :: ids, graph)

/-- Adds a node over values that are declared already. -/
def addNode (graph : Graph) (signature : Signature) (inputs outputs : List ValueId) : Graph :=
  { graph with nodes := graph.nodes ++ [⟨signature, inputs, outputs⟩] }

/-- Declares the outputs of a node and adds it. -/
def addOp (graph : Graph) (signature : Signature) (inputs : List ValueId) (count : Nat) :
    List ValueId × Graph :=
  let (ids, graph) := graph.declareMany count
  (ids, graph.addNode signature inputs ids)

/-- Makes a value an output. -/
def markOutput (graph : Graph) (id : ValueId) : Graph :=
  { graph with outputs := graph.outputs ++ [id] }

end Graph

end TensorEngine
