import TensorEngine.Proofs.Lowering.Contract
import TensorEngine.Proofs.Lowering.ElementWise
import TensorEngine.Proofs.Lowering.Products
import TensorEngine.Proofs.Lowering.Shuffles

/-!
# Lowering keeps the meaning of graphs

Every rule of the library implements the operation of its signature. In values that satisfy the
lowered network, a tensor that a value of the graph is bound to therefore has the value that the
graph gives to it, and so do the outputs of the network. Inputs and outputs of the network are those
of the graph in their order, and are named by it.

## Main definitions

* `Carries`: tensors that have the value of a graph value

## Main results

* `implements_builtin`: every rule of the library implements an operation
* `ensures_lowerNodes`: nodes bind values to tensors that carry them
* `lowerOutputs_eq_ok`: outputs of the network, and their values
* `lowering_eq_ok`: a lowered graph keeps its meaning
-/

namespace TensorEngine

namespace Lowering

open Program

/-! ### Rules and operations -/

/-- Every rule of the library implements the operation of its signature. -/
theorem implements_builtin {signature : Signature} {rule : Rule}
    (found : RuleTable.builtin.find? signature = some rule) :
    ∃ operation, operations.lookup signature = some operation ∧ Implements rule operation := by
  have related : List.Forall₂ (fun entry entry' => entry.1 = entry'.1 ∧ Implements entry.2 entry'.2)
      builtinRules operations :=
    .cons ⟨rfl, implements_matmul⟩ <| .cons ⟨rfl, implements_productOfRank (by decide)⟩ <|
    .cons ⟨rfl, implements_productOfRank (by decide)⟩ <| .cons ⟨rfl, implements_flatten⟩ <|
    .cons ⟨rfl, implements_reshapeTo⟩ <| .cons ⟨rfl, implements_reshapeTo⟩ <|
    .cons ⟨rfl, implements_permuteAxes⟩ <| .cons ⟨rfl, implements_transposeAll⟩ <|
    .cons ⟨rfl, implements_scaled .sum⟩ <| .cons ⟨rfl, implements_scaled .sum⟩ <|
    .cons ⟨rfl, implements_scaled .sub⟩ <| .cons ⟨rfl, implements_elementProduct⟩ <|
    .cons ⟨rfl, implements_constantTensor⟩ .nil
  have both := rel_lookup (R := fun _ => Implements) related signature
  rw [show builtinRules.lookup signature = some rule from found] at both
  generalize operations.lookup signature = operation? at both ⊢
  cases both with
  | some implemented => exact ⟨_, rfl, implemented⟩

variable {graph : Graph} {inputs : List Tensor} {values : Values} {final : Network}
  {state state' : State}

/-! ### Nodes -/

/-- The tensor has the value that the graph gives to the id. -/
def Carries (graph : Graph) (inputs : List Tensor) (values : Values) (id : ValueId)
    (x : TensorId) : Prop :=
  ∃ t, values.get? x = some t ∧ t.Compact ∧ graph.Evaluates inputs id (.tensor t)

/-- The graph's constants have no extents of zero. -/
def NoEmptyConstants (graph : Graph) : Prop :=
  ∀ id name t, graph.value id = .ok ⟨name, .constant (.tensor t)⟩ → 0 ∉ t.shape

theorem ensures_ofGraph {α : Type} {Good : ValueId → TensorId → Prop}
    (result : Except GraphError α) : Ensures final Good (ofGraph result) fun a => result = .ok a :=
  .ofExcept fun _ => mapError_eq_ok_iff.mp

variable {node : Node}

/-- What a node is given for a value has the value that the graph gives to it. -/
theorem ensures_argumentOf (extents : NoEmptyConstants graph) (id : ValueId) :
    Ensures final (Carries graph inputs values) (argumentOf graph node id) fun argument =>
      ∃ c, argument.Holds values c ∧ graph.Evaluates inputs id c := by
  refine (ensures_ofGraph _).bind fun value known => ?_
  split
  next c isConstant =>
    refine .pure ⟨c, .constant fun t tensor => ?_, .constant known isConstant⟩
    exact extents id value.name t (tensor ▸ constant_of_value known isConstant)
  next =>
    refine (Ensures.gets _).bind fun binding? ⟨state, sound, found⟩ => ?_
    split
    next x =>
      obtain ⟨t, value, compact, meaning⟩ := sound.binding? found.symm
      exact .pure ⟨.tensor t, .tensor value compact, meaning⟩
    next => exact .refuse _

/-- What a node is given for its inputs has the values that the graph gives to them. -/
theorem ensures_argumentsOf (extents : NoEmptyConstants graph) (ids : List ValueId) :
    Ensures final (Carries graph inputs values) (argumentsOf graph node ids) fun arguments =>
      ∃ constants, List.Forall₂ (Argument.Holds values) arguments constants ∧
        List.Forall₂ (graph.Evaluates inputs) ids constants := by
  induction ids with
  | nil => exact .done ⟨[], .nil, .nil⟩
  | cons id ids ih =>
    refine (ensures_argumentOf extents id).bind fun argument ⟨c, held, meaning⟩ => ?_
    refine ih.bind fun arguments ⟨constants, heldAll, meanings⟩ => ?_
    exact .pure ⟨c :: constants, .cons held heldAll, .cons meaning meanings⟩

theorem ensures_checkBound {Good : ValueId → TensorId → Prop} (ids : List ValueId) :
    Ensures final Good (checkBound node ids) fun _ => True := by
  induction ids with
  | nil => exact .done trivial
  | cons id ids ih =>
    refine (Ensures.gets _).bind fun binding? _ => ?_
    split
    next => exact .refuse _
    next =>
      refine (Ensures.gets _).bind fun network _ => ?_
      exact (Ensures.ofExcept fun _ _ => trivial).bind fun _ _ => ih

/-- A node binds its output to a tensor that carries it. -/
theorem ensures_lowerNode (model : values.Models final) (extents : NoEmptyConstants graph)
    (member : node ∈ graph.nodes) :
    Ensures final (Carries graph inputs values) (lowerNode .builtin graph node) fun _ => True := by
  unfold lowerNode
  split
  next => exact .refuse _
  next rule found =>
    obtain ⟨operation, known, implemented⟩ := implements_builtin found
    refine (ensures_argumentsOf extents node.inputs).bind
      fun arguments ⟨constants, held, meanings⟩ => ?_
    refine (implemented model held ?_).mapError.bind fun _ _ => ensures_checkBound node.outputs
    intro id rest x t output value compact computed
    have count := (List.Forall₂.length_eq meanings).symm
    refine ⟨t, value, compact, .node member output count ?_ known computed⟩
    intro position operand c listed given
    obtain ⟨c', given', meaning⟩ := forall₂_getElem? meanings listed
    cases given.symm.trans given'
    exact meaning

/-- Nodes bind values to tensors that carry them. -/
theorem ensures_lowerNodes (model : values.Models final) (extents : NoEmptyConstants graph)
    (order : List Nat) :
    Ensures final (Carries graph inputs values) (lowerNodes .builtin graph order)
      fun _ => True := by
  induction order with
  | nil => exact .done trivial
  | cons position order ih =>
    refine (ensures_ofGraph _).bind fun node found => ?_
    exact (ensures_lowerNode model extents (List.mem_of_getElem? (entry_eq_ok_iff.mp found))).bind
      fun _ _ => ih

/-! ### Outputs -/

/-- The tensor of an output carries it. -/
theorem ensures_outputTensor (model : values.Models final) (extents : NoEmptyConstants graph)
    (id : ValueId) :
    Ensures final (Carries graph inputs values) (outputTensor graph id)
      (Carries graph inputs values id) := by
  refine (ensures_ofGraph _).bind fun value known => ?_
  refine (Ensures.gets _).bind fun binding? ⟨state, sound, found⟩ => ?_
  split
  next x _ => exact .pure (sound.binding? found.symm)
  next c isConstant _ =>
    cases c with
    | tensor t =>
      have constant := constant_of_value known isConstant
      refine Ensures.mapError ((ensures_frozen model).bind fun x ⟨value, stored⟩ => ?_)
      have carries : Carries graph inputs values id x :=
        ⟨t, value, .of_stored stored (extents id _ t constant), .constant known isConstant⟩
      exact (Ensures.associate carries).mono fun _ same => same ▸ carries
    | none | bool | int | double | ints => exact (Ensures.refuse _).mapError
  next => exact .refuse _

/-- A tensor that can still be marked has the same value. -/
theorem ensures_exportable (model : values.Models final) {Good : ValueId → TensorId → Prop}
    {name : BindingName} {x : TensorId} {t : Tensor} (value : values.get? x = some t) :
    Ensures final Good (exportable name x) fun y => values.get? y = some t := by
  refine (Ensures.gets _).bind fun marked _ => ?_
  split
  next =>
    refine (ensures_shuffle model value).mono fun y ⟨u, valueU, shuffled, _⟩ => ?_
    cases shuffled
    exact valueU
  next => exact .pure value

/-- Outputs of the graph become outputs of the network in their order, named by it, and have the
values that the graph gives to them. -/
theorem lowerOutputs_eq_ok (model : values.Models state'.network) (extents : NoEmptyConstants graph)
    {position : Nat} {ids : List ValueId}
    (ran : (lowerOutputs graph position ids).run state = (.ok (), state'))
    (sound : state.Sound (Carries graph inputs values)) :
    state'.network.inputs = state.network.inputs ∧ ∃ xs : List TensorId, xs.length = ids.length ∧
      state'.network.outputs = state.network.outputs ++ xs ∧ ∀ k x, xs[k]? = some x →
        state'.network.IsNamed x (.output (position + k)) ∧ ∃ id, ids[k]? = some id ∧
          ∃ t, values.get? x = some t ∧ graph.Evaluates inputs id (.tensor t) := by
  refine (lowerOutputs_run (fun state => state.Sound (Carries graph inputs values))
    (fun id x => ∃ t, values.get? x = some t ∧ graph.Evaluates inputs id (.tensor t)) ?_
    (fun _ _ _ _ _ sound => sound) ran sound).2
  intro name id x y state middle next ranTensor ranExport grows sound
  obtain ⟨⟨t, value, compact, meaning⟩, inputs1, outputs1, sound1⟩ :=
    ensures_outputTensor model extents id _ _ _ ranTensor
      ((grows_of_run ranExport).trans grows.network) sound
  obtain ⟨valueY, inputs2, outputs2, sound2⟩ :=
    ensures_exportable model value _ _ _ ranExport grows.network sound1
  exact ⟨sound2, inputs2.trans inputs1, outputs2.trans outputs1, t, valueY, meaning⟩

/-! ### Graphs -/

/-- A lowered graph keeps its meaning: in values that satisfy the network and give its inputs the
given tensors, the outputs have the values that the graph gives to its outputs. -/
theorem lowering_eq_ok {settings : Settings}
    (ran : (lowering .builtin graph).run (.start settings) = (.ok (), state'))
    (model : values.Models state'.network) (extents : NoEmptyConstants graph)
    (given : ∀ k x, state'.network.inputs[k]? = some x → state'.network.IsNamed x (.input k) →
      ∃ t, inputs[k]? = some t ∧ values.get? x = some t ∧ t.Compact) :
    graph.inputs.Nodup ∧ state'.network.inputs.length = graph.inputs.length ∧
      state'.network.outputs.length = graph.outputs.length ∧
      ∀ k x, state'.network.outputs[k]? = some x → state'.network.IsNamed x (.output k) ∧
        ∃ id t, graph.outputs[k]? = some id ∧ values.get? x = some t ∧
          graph.Evaluates inputs id (.tensor t) := by
  obtain ⟨order, first, second, ordered, ranInputs, ranNodes, ranOutputs⟩ :=
    run_lowering_eq_ok_iff.mp ran
  have grown := grows_of_run ranOutputs
  have grown' := (grows_of_run ranNodes).trans grown
  obtain ⟨⟨distinct, -⟩, -, xs, length, inputs1, outputs1, bindings, records⟩ :=
    lowerInputs_eq_ok (Graph.inputs_of_order ordered) ranInputs
  -- After the inputs are added they are all that is bound, and each carries the tensor that it is
  -- given.
  have sound : first.Sound (Carries graph inputs values) := by
    rw [State.Sound, bindings]
    rintro ⟨id, x⟩ member
    obtain ⟨k, entry⟩ := List.mem_iff_getElem?.mp (show (id, x) ∈ graph.inputs.zip xs from member)
    obtain ⟨listed, bound⟩ := List.getElem?_zip_eq_some.mp entry
    have bound' : first.network.inputs[k]? = some x := inputs1 ▸ bound
    obtain ⟨_, _, dtype, dims, _, _, record⟩ := records k x bound
    rw [Nat.zero_add] at record
    have named : first.network.IsNamed x (.input k) := ⟨_, record, rfl⟩
    obtain ⟨t, given, value, compact⟩ := given k x (getElem?_of_isPrefix grown'.inputs bound')
      (named.grows grown' (List.mem_append_left _ (List.mem_of_getElem? bound')))
    exact ⟨t, value, compact, .input listed given⟩
  obtain ⟨-, inputs2, outputs2, sound'⟩ :=
    ensures_lowerNodes model extents order _ _ _ ranNodes grown sound
  obtain ⟨inputs3, ys, length', outputs3, meanings⟩ :=
    lowerOutputs_eq_ok model extents ranOutputs sound'
  have inputs_eq : state'.network.inputs = xs := inputs3.trans (inputs2.trans inputs1)
  have outputs_eq : state'.network.outputs = ys := by
    rw [outputs3, outputs2, outputs1]
    rfl
  rw [inputs_eq, outputs_eq]
  refine ⟨distinct, length, length', fun k x entry => ?_⟩
  obtain ⟨named, id, listed, t, value, meaning⟩ := meanings k x entry
  rw [Nat.zero_add] at named
  exact ⟨named, id, t, listed, value, meaning⟩

end Lowering

end TensorEngine
