import TensorEngine.File.Tensor
import TensorEngine.Graph.Basic
import TensorEngine.Network.Text

/-!
# Graph files

A source graph as people write it. Values have names: inputs and constants are defined first, then
the outputs of all nodes, so that a node may use what a later node computes. Every name is defined
once, and every name that is used is defined somewhere in the file.

## Main definitions

* `GraphFile`, `GraphFile.parse?`: the contents of a graph file
* `GraphFile.toGraph`: the graph, with every name resolved
-/

namespace TensorEngine

/-- An input of a graph file. -/
structure InputEntry where
  name : String
  dtype : DType
  dims : Dims
  deriving DecidableEq, Repr

/-- A constant as it is written, known by its form. -/
inductive ConstantForm
  | none
  | bool (value : Bool)
  | int (value : Int)
  | double (pattern : UInt64)
  | ints (values : List Int)
  | tensor (record : TensorRecord)
  deriving DecidableEq, Repr

/-- A constant of a graph file. -/
structure ConstantEntry where
  name : String
  form : ConstantForm
  deriving DecidableEq, Repr

/-- A node of a graph file; values are referred to by name. -/
structure NodeEntry where
  schema : String
  inputs : List String
  outputs : List String
  deriving DecidableEq, Repr

/-- The contents of a graph file. -/
structure GraphFile where
  inputs : List InputEntry
  constants : List ConstantEntry
  nodes : List NodeEntry
  outputs : List String
  deriving DecidableEq, Repr

/-- Why the names of a graph file are not resolved. -/
inductive GraphFileError
  | definedTwice (name : String)
  | unknownValue (name : String)
  | constant (name : String) (error : TensorError)
  deriving DecidableEq, Repr

/-- The wordings of an error and of its causes, outermost first. -/
def GraphFileError.messages : GraphFileError → List String
  | .definedTwice name => [s!"value `{name}` is defined twice"]
  | .unknownValue name => [s!"unknown value `{name}`"]
  | .constant name error => [s!"constant `{name}`", error.message]

/-! ### Reading -/

/-- The input that a value describes; its type is single precision if none is given. -/
def InputEntry.ofJson? (value : Json) : Option InputEntry := do
  let [name, dtype, dims] ← value.record? ["name", "dtype", "dims"] | none
  let name ← Json.requiredField? Json.text? name
  let dtype ← Json.fieldOr? DType.f32 DType.ofJson? dtype
  let dims ← Json.requiredField? Dims.ofJson? dims
  return ⟨name, dtype, dims⟩

/-- The double of a numeral, as a pattern. -/
def Json.double? : Json → Option UInt64
  | .number n => n.double?
  | _ => none

/-- How deep arrays and objects inside a constant may lie. -/
def constantDepth : Nat := 124

/-- The constant that a value is: the first form that it has. Integers that do not fit in a signed
word are doubles. -/
def ConstantForm.ofJson? (value : Json) : Option ConstantForm :=
  if value.isRegular constantDepth then
    match value with
    | .null => some .none
    | .bool b => some (.bool b)
    | .number _ => (value.int64?.map .int).or (value.double?.map .double)
    | _ => ((value.list? Json.int64?).map .ints).or ((TensorRecord.ofJson? value).map .tensor)
  else Option.none

/-- The constant that a value describes. -/
def ConstantEntry.ofJson? (value : Json) : Option ConstantEntry := do
  let [name, form] ← value.record? ["name", "value"] | none
  let name ← Json.requiredField? Json.text? name
  let form ← Json.requiredField? ConstantForm.ofJson? form
  return ⟨name, form⟩

/-- The node that a value describes. -/
def NodeEntry.ofJson? (value : Json) : Option NodeEntry := do
  let [schema, inputs, outputs] ← value.record? ["op", "inputs", "outputs"] | none
  let schema ← Json.requiredField? Json.text? schema
  let inputs ← Json.requiredField? (Json.list? Json.text?) inputs
  let outputs ← Json.requiredField? (Json.list? Json.text?) outputs
  return ⟨schema, inputs, outputs⟩

namespace GraphFile

/-- The contents that a value describes; constants may be left out. -/
def ofJson? (value : Json) : Option GraphFile := do
  let [inputs, constants, nodes, outputs] ←
    value.record? ["inputs", "constants", "nodes", "outputs"] | none
  let inputs ← Json.requiredField? (Json.list? InputEntry.ofJson?) inputs
  let constants ← Json.fieldOr? [] (Json.list? ConstantEntry.ofJson?) constants
  let nodes ← Json.requiredField? (Json.list? NodeEntry.ofJson?) nodes
  let outputs ← Json.requiredField? (Json.list? Json.text?) outputs
  return ⟨inputs, constants, nodes, outputs⟩

/-- The contents of a graph file. -/
def parse? (text : Bytes) : Option GraphFile :=
  (Json.parse? text).bind ofJson?

/-! ### Resolving names -/

/-- The values that names stand for. -/
abbrev Scope := List (String × ValueId)

/-- A scope with one more name. -/
def define (scope : Scope) (name : String) (id : ValueId) : Except GraphFileError Scope :=
  match scope.lookup name with
  | some _ => .error (.definedTwice name)
  | none => .ok ((name, id) :: scope)

/-- The value that a name stands for. -/
def resolve (scope : Scope) (name : String) : Except GraphFileError ValueId :=
  match scope.lookup name with
  | some id => .ok id
  | none => .error (.unknownValue name)

/-- The constant of an entry. -/
def constantOf (entry : ConstantEntry) : Except GraphFileError Constant :=
  match entry.form with
  | .none => .ok .none
  | .bool b => .ok (.bool b)
  | .int i => .ok (.int i)
  | .double pattern => .ok (.double pattern)
  | .ints values => .ok (.ints values)
  | .tensor record => (record.toTensor.map Constant.tensor).mapError (.constant entry.name)

/-- Adds inputs. -/
def addInputs : Graph × Scope → List InputEntry → Except GraphFileError (Graph × Scope)
  | built, [] => .ok built
  | (graph, scope), entry :: rest => do
    let (id, graph) := graph.addInput entry.name entry.dtype entry.dims
    let scope ← define scope entry.name id
    addInputs (graph, scope) rest

/-- Adds constants. -/
def addConstants : Graph × Scope → List ConstantEntry → Except GraphFileError (Graph × Scope)
  | built, [] => .ok built
  | (graph, scope), entry :: rest => do
    let constant ← constantOf entry
    let (id, graph) := graph.addConstant constant
    let scope ← define scope entry.name id
    addConstants (graph, scope) rest

/-- Declares values that nodes compute. -/
def declareAll : Graph × Scope → List String → Except GraphFileError (Graph × Scope)
  | built, [] => .ok built
  | (graph, scope), name :: rest => do
    let (id, graph) := graph.declare
    let scope ← define scope name id
    declareAll (graph, scope) rest

/-- Adds nodes over values that are all defined. -/
def addNodes (scope : Scope) : Graph → List NodeEntry → Except GraphFileError Graph
  | graph, [] => .ok graph
  | graph, entry :: rest => do
    let inputs ← entry.inputs.mapM (resolve scope)
    let outputs ← entry.outputs.mapM (resolve scope)
    addNodes scope (graph.addNode ⟨entry.schema⟩ inputs outputs) rest

/-- Marks outputs. -/
def markOutputs (scope : Scope) : Graph → List String → Except GraphFileError Graph
  | graph, [] => .ok graph
  | graph, name :: rest => do
    let id ← resolve scope name
    markOutputs scope (graph.markOutput id) rest

/-- The graph of a file. -/
def toGraph (file : GraphFile) : Except GraphFileError Graph := do
  let built ← addInputs (.empty, []) file.inputs
  let built ← addConstants built file.constants
  -- All names are defined before the first one is resolved.
  let (graph, scope) ← declareAll built (file.nodes.flatMap (·.outputs))
  let graph ← addNodes scope graph file.nodes
  markOutputs scope graph file.outputs

end GraphFile

end TensorEngine
