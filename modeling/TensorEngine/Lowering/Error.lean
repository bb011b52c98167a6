import TensorEngine.Graph.Basic
import TensorEngine.Network.Basic

/-!
# Lowering errors

Why a rule cannot lower a node, and why a graph cannot be lowered. An objection is the cause; it is
reported as a limit of dynamic shapes where it would not arise if all extents were known, and as
invalid otherwise.

## Main definitions

* `Objection`, `RuleError`: what goes wrong inside a rule
* `LoweringError`: what goes wrong with a graph, and where
-/

namespace TensorEngine

/-- Why a requested reshape is refused. -/
inductive RequestFault
  | unknownInput
  | countOverflows
  | severalInferred
  | zeroSized
  | negative
  | notDivisible
  | countsDiffer
  deriving DecidableEq, Repr

/-- The wording of a request fault. -/
def RequestFault.message : RequestFault → String
  | .unknownInput => "input dims are not known"
  | .countOverflows => "element count overflows"
  | .severalInferred => "only one dimension can be inferred"
  | .zeroSized => "zero-sized dimensions are not supported"
  | .negative => "negative size"
  | .notDivisible => "element count is not divisible"
  | .countsDiffer => "element counts differ"

/-- Why a node is not lowered. -/
inductive Objection
  | alreadyBound (id : ValueId)
  | unexpectedArgument (wanted got : String)
  | tooFewArguments (needed got : Nat)
  | noOutputs
  | axisOutOfRange (axis : Int) (rank : Nat)
  | unknownDims (activity : String) (dims : Dims)
  | flattenReversed (first last : Nat)
  | flattenUnknown (first last : Nat) (dims : Dims)
  | flattenOverflows (first last : Nat) (dims : Dims)
  | reshape (dims : Dims) (requested : List Int) (reason : RequestFault)
  | dynamicReshape
  | notAPermutation (order : List Nat) (rank : Nat)
  | notFloatingPoint (dtype : DType)
  | scalarOperand
  | wrongRank (operation : String) (rank : Nat) (dims : Dims)
  | foldOverflows (dims : Dims)
  | scaledType (dtype : DType)
  | inputWithoutTensor (id : ValueId)
  | outputNotBound (id : ValueId)
  | outputWithoutTensor (id : ValueId)
  | other (text : String)
  deriving DecidableEq, Repr

/-- The wording of an objection. -/
def Objection.message : Objection → String
  | .alreadyBound id => s!"value {id.text} is already bound to a network tensor"
  | .unexpectedArgument wanted got => s!"expected {wanted} argument, got {got}"
  | .tooFewArguments needed got => s!"expected at least {needed} arguments, got {got}"
  | .noOutputs => "node has no outputs"
  | .axisOutOfRange axis rank => s!"dimension {axis} is out of range for rank {rank}"
  | .unknownDims activity dims => s!"{activity} needs static dimensions, got {dims.text}"
  | .flattenReversed first last => s!"flatten start_dim {first} is after end_dim {last}"
  | .flattenUnknown first last dims =>
    s!"cannot flatten dims {first}..={last} of {dims.text} with unknown trailing dims"
  | .flattenOverflows first last dims =>
    s!"flattening dims {first}..={last} of {dims.text} overflows"
  | .reshape dims requested reason =>
    s!"cannot reshape {dims.text} to {Text.listing requested}: {reason.message}"
  | .dynamicReshape => "reshape is not supported when input shapes are dynamic"
  | .notAPermutation order rank =>
    s!"{Text.listing order} is not a permutation of {rank} dims"
  | .notFloatingPoint dtype => s!"matrix multiply needs floating point operands, got {dtype}"
  | .scalarOperand => "matmul operands must have at least one dimension"
  | .wrongRank operation rank dims =>
    s!"{operation} expects rank {rank} operands, got {dims.text}"
  | .foldOverflows dims => s!"folding the batch of {dims.text} overflows"
  | .scaledType dtype => s!"alpha scaling is only supported for F32 operands, got {dtype}"
  | .inputWithoutTensor id => s!"input {id.text} has no network tensor"
  | .outputNotBound id => s!"output {id.text} was not bound"
  | .outputWithoutTensor id => s!"output {id.text} has no network tensor"
  | .other text => text

/-- What goes wrong inside a rule. -/
inductive RuleError
  | invalid (objection : Objection)
  | dynamicShape (objection : Objection)
  | network (error : NetworkError)
  | tensor (error : TensorError)
  | fault (fault : Fault)
  deriving DecidableEq, Repr

instance : HasFault RuleError := ⟨.fault⟩

/-- The wording of a rule error. -/
def RuleError.message : RuleError → String
  | .invalid objection => objection.message
  | .dynamicShape objection => objection.message
  | .network error => error.message
  | .tensor error => error.message
  | .fault cause => cause.message

/-- The part of a graph that an error is about. -/
inductive Site
  | node (node : Node)
  | graphInput (name : String)
  | graphOutputs
  deriving DecidableEq, Repr

namespace Site

/-- The schema of the operation, empty outside of nodes. -/
def schema : Site → String
  | .node n => n.signature.schema
  | .graphInput _ | .graphOutputs => ""

/-- The text of a site. -/
def text : Site → String
  | .node n => n.describe
  | .graphInput name => s!"graph input {name}"
  | .graphOutputs => "graph outputs"

end Site

/-- Why a graph is not lowered. -/
inductive LoweringError
  | unsupportedOperation (signature : Signature)
  | rule (site : Site) (cause : RuleError)
  | graph (error : GraphError)
  | network (error : NetworkError)
  deriving DecidableEq, Repr

/-- A node whose rule reports a limit of dynamic shapes. -/
def LoweringError.isDynamicShape : LoweringError → Bool
  | .rule (.node _) (.dynamicShape _) => true
  | _ => false

/-- The wording of a lowering error. -/
def LoweringError.message (error : LoweringError) : String :=
  match error with
  | .unsupportedOperation signature =>
    s!"unsupported operation: no converter registered for `{signature.schema}`"
  | .rule site cause =>
    if error.isDynamicShape then
      s!"node `{site.text}` ({site.schema}) is not supported with dynamic input shapes: " ++
        cause.message
    else s!"unable to convert node `{site.text}` ({site.schema}): {cause.message}"
  | .graph error => s!"invalid source graph: {error.message}"
  | .network error => s!"invalid network: {error.message}"

end TensorEngine
