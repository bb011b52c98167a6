import TensorEngine.Proofs.Graph.Checks
import TensorEngine.Proofs.Tensor.Operations

/-!
# Meaning of source graphs

A source graph is evaluated without building anything: an input is the tensor that is given for it,
a constant is itself, and what a node computes follows from its operation and the values of its
inputs. In a graph that has an order of execution every value has one meaning at most.

## Main definitions

* `Operation`, `operations`: what operations make of the values of their inputs
* `Graph.Evaluates`: the value that a graph gives to an id

## Main results

* `Graph.Evaluates.unique`: a graph gives an id one value at most
* `Graph.sourced_of_order`: an order of execution leaves every value one source
-/

namespace TensorEngine

namespace Constant

/-- The tensor that a value is. -/
def tensor? : Constant → Option Tensor
  | .tensor t => some t
  | _ => Option.none

/-- The integer that a value is. -/
def int? : Constant → Option Int
  | .int i => some i
  | _ => Option.none

/-- The list of integers that a value is. -/
def ints? : Constant → Option (List Int)
  | .ints is => some is
  | _ => Option.none

/-- The number that a value is, as a double; no value stands for one. -/
def factor? : Constant → Option UInt64
  | .none => some Binary.doubleOne
  | .int i => some (Binary.doubleOfInt i)
  | .double pattern => some pattern
  | _ => Option.none

end Constant

/-- What an operation makes of the values of its inputs. -/
abbrev Operation := List Constant → Option Tensor

namespace Operation

/-- The tensor at a position of the inputs. -/
def operand? (values : List Constant) (position : Nat) : Option Tensor :=
  (values[position]?).bind Constant.tensor?

/-- An operation on the first input. -/
def unary (f : Tensor → Option Tensor) : Operation := fun values => do
  f (← operand? values 0)

/-- An operation on the first two inputs. -/
def binary (f : Tensor → Tensor → Option Tensor) : Operation := fun values => do
  f (← operand? values 0) (← operand? values 1)

/-- The factor of the second operand, one when none is given. -/
def factor? (values : List Constant) : Option UInt64 :=
  match values[2]? with
  | none => some Binary.doubleOne
  | some value => value.factor?

/-- A sum or difference with a scaled second operand. -/
def scaled (op : ElementWiseOp) : Operation := fun values => do
  let factor ← factor? values
  binary (fun a b => do a.combine? op (← b.scaledBy? factor)) values

/-- The range of axes to join is given by two integers, which a tensor without axes does not need. -/
def flatten : Operation := fun values => do
  let t ← operand? values 0
  if t.rank = 0 then t.flatten? 0 0
  else t.flatten? (← (values[1]?).bind Constant.int?) (← (values[2]?).bind Constant.int?)

/-- The requested sizes are given by a list of integers. -/
def view : Operation := fun values => do
  (← operand? values 0).view? (← (values[1]?).bind Constant.ints?)

/-- The order of axes is given by a list of integers. -/
def permute : Operation := fun values => do
  (← operand? values 0).permuted? (← (values[1]?).bind Constant.ints?)

end Operation

open Operation in
/-- The operations of the library. -/
def operations : List (Signature × Operation) :=
  [ (⟨"aten::matmul(Tensor self, Tensor other) -> (Tensor)"⟩, binary Tensor.product?),
    (⟨"aten::mm(Tensor self, Tensor mat2) -> (Tensor)"⟩, binary (Tensor.productOfRank? 2)),
    (⟨"aten::bmm(Tensor self, Tensor mat2) -> (Tensor)"⟩, binary (Tensor.productOfRank? 3)),
    (⟨"aten::flatten.using_ints(Tensor self, int start_dim=0, int end_dim=-1) -> (Tensor)"⟩,
      flatten),
    (⟨"aten::reshape(Tensor self, int[] shape) -> (Tensor)"⟩, view),
    (⟨"aten::view(Tensor(a) self, int[] size) -> (Tensor(a))"⟩, view),
    (⟨"aten::permute(Tensor(a) self, int[] dims) -> (Tensor(a))"⟩, permute),
    (⟨"aten::t(Tensor self) -> (Tensor)"⟩, unary Tensor.transposed?),
    (⟨"aten::add.Tensor(Tensor self, Tensor other, *, Scalar alpha=1) -> (Tensor)"⟩,
      scaled .sum),
    (⟨"aten::add_.Tensor(Tensor(a!) self, Tensor other, *, Scalar alpha=1) -> (Tensor(a!))"⟩,
      scaled .sum),
    (⟨"aten::sub.Tensor(Tensor self, Tensor other, *, Scalar alpha=1) -> (Tensor)"⟩,
      scaled .sub),
    (⟨"aten::mul.Tensor(Tensor self, Tensor other) -> (Tensor)"⟩, binary (Tensor.combine? .prod)),
    (⟨"trt::const(Tensor val) -> (Tensor)"⟩, unary some) ]

namespace Graph

/-- The value that a graph gives to an id when its inputs are the given tensors. An operation
computes the first output of its node. -/
inductive Evaluates (graph : Graph) (inputs : List Tensor) : ValueId → Constant → Prop
  | input {position : Nat} {id : ValueId} {t : Tensor} (listed : graph.inputs[position]? = some id)
      (given : inputs[position]? = some t) : Evaluates graph inputs id (.tensor t)
  | constant {id : ValueId} {value : Value} {c : Constant} (known : graph.value id = .ok value)
      (isConstant : value.constant? = some c) : Evaluates graph inputs id c
  | node {node : Node} {id : ValueId} {rest : List ValueId} {values : List Constant}
      {operation : Operation} {t : Tensor} (member : node ∈ graph.nodes)
      (output : node.outputs = id :: rest) (count : values.length = node.inputs.length)
      (operands : ∀ (position : Nat) operand c, node.inputs[position]? = some operand →
        values[position]? = some c → Evaluates graph inputs operand c)
      (known : operations.lookup node.signature = some operation)
      (computed : operation values = some t) : Evaluates graph inputs id (.tensor t)

/-- Inputs, constants and outputs of nodes are told apart by the kinds of values, and every value
has one source. -/
structure Sourced (graph : Graph) : Prop where
  inputs : ∀ id ∈ graph.inputs, ∃ name dtype dims, graph.value id = .ok ⟨name, .input dtype dims⟩
  distinct : graph.inputs.Nodup
  outputs : ∀ node ∈ graph.nodes, ∀ id ∈ node.outputs, ∃ name, graph.value id = .ok ⟨name, .tensor⟩
  producer : ∀ a ∈ graph.nodes, ∀ b ∈ graph.nodes, ∀ id ∈ a.outputs, id ∈ b.outputs → a = b

/-- A graph gives an id one value at most. -/
theorem Evaluates.unique {graph : Graph} {inputs : List Tensor} {id : ValueId} {c c' : Constant}
    (sourced : graph.Sourced) (h : graph.Evaluates inputs id c)
    (h' : graph.Evaluates inputs id c') : c = c' := by
  -- The kind of the value tells which rule applies, so both derivations end with the same rule.
  induction h generalizing c' with
  | @input position id t listed given =>
    obtain ⟨name, dtype, dims, kind⟩ := sourced.inputs id (List.mem_of_getElem? listed)
    cases h' with
    | @input position' _ t' listed' given' =>
      have same : position = position' :=
        (List.getElem?_inj (List.getElem?_eq_some_iff.mp listed).1 sourced.distinct).mp
          (listed.trans listed'.symm)
      subst same
      exact congrArg _ (Option.some.inj (given.symm.trans given'))
    | constant known isConstant =>
      cases kind.symm.trans known
      cases isConstant
    | node member output =>
      obtain ⟨_, kind'⟩ := sourced.outputs _ member id (output ▸ List.mem_cons_self)
      cases kind.symm.trans kind'
  | @constant id value c known isConstant =>
    cases h' with
    | input listed given =>
      obtain ⟨name, dtype, dims, kind⟩ := sourced.inputs id (List.mem_of_getElem? listed)
      cases kind.symm.trans known
      cases isConstant
    | constant known' isConstant' =>
      cases known.symm.trans known'
      exact Option.some.inj (isConstant.symm.trans isConstant')
    | node member output =>
      obtain ⟨_, kind⟩ := sourced.outputs _ member id (output ▸ List.mem_cons_self)
      cases kind.symm.trans known
      cases isConstant
  | @node node id rest values operation t member output count operands known computed ih =>
    obtain ⟨_, kind⟩ := sourced.outputs _ member id (output ▸ List.mem_cons_self)
    cases h' with
    | input listed given =>
      obtain ⟨name, dtype, dims, kind'⟩ := sourced.inputs id (List.mem_of_getElem? listed)
      cases kind.symm.trans kind'
    | constant known' isConstant =>
      cases kind.symm.trans known'
      cases isConstant
    | @node node' _ rest' values' operation' t' member' output' count' operands' known' computed' =>
      obtain rfl := sourced.producer node member node' member' id (output ▸ List.mem_cons_self)
        (output' ▸ List.mem_cons_self)
      cases known.symm.trans known'
      -- Both derivations name values for all operands of the node, which agree one by one.
      have same : values = values' := by
        refine List.ext_getElem (count.trans count'.symm) fun position h h' => ?_
        have within : position < node.inputs.length := count ▸ h
        exact ih position _ _ (List.getElem?_eq_getElem within) (List.getElem?_eq_getElem h)
          (operands' position _ _ (List.getElem?_eq_getElem within) (List.getElem?_eq_getElem h'))
      cases same
      exact congrArg _ (Option.some.inj (computed.symm.trans computed'))

/-! ### Sources of ordered graphs -/

variable {graph : Graph}

/-- The declared inputs of a graph that has an order of execution are inputs. -/
theorem inputs_of_order {order : List Nat} (ordered : graph.order = .ok order) :
    ∀ id ∈ graph.inputs, ∃ name dtype dims, graph.value id = .ok ⟨name, .input dtype dims⟩ :=
  (order_eq_ok_iff.mp ordered).1.inputs

/-- A graph that has an order of execution leaves every value one source when its inputs are
distinct and nodes compute tensors. -/
theorem sourced_of_order {order : List Nat} (ordered : graph.order = .ok order)
    (distinct : graph.inputs.Nodup)
    (outputs : ∀ node ∈ graph.nodes, ∀ id ∈ node.outputs,
      ∃ name, graph.value id = .ok ⟨name, .tensor⟩) : graph.Sourced where
  inputs := inputs_of_order ordered
  distinct := distinct
  outputs := outputs
  producer := fun _ memberA _ memberB _ =>
    eq_of_mem_outputs (order_eq_ok_iff.mp ordered).1.distinct memberA memberB

end Graph

end TensorEngine
