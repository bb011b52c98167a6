import TensorEngine.Lowering.Graph
import TensorEngine.Proofs.Lowering.Trials

/-!
# Operands of lowered nodes

A node is given constants of the graph, and the tensors that its inputs are bound to. Either way an
operand has a type that is known when the node is lowered, and a value when the layers of the node are
run. A node with one output that is lowered by a rule of the library binds the output to one tensor.

## Main definitions

* `argument?`: what a node is given for a value of the graph
* `Argument.type?`, `Argument.value?`: the type and the value of an operand
* `State.Emits`: the layers that lowering a node adds, and the tensor that its output is bound to

## Main results

* `Trial.ends_operandAt`: an operand as a tensor of the network
* `ends_lowerNode`: lowering a node ends as its rule does
-/

namespace TensorEngine.Lowering

/-- What a node is given for a value of the graph: the constant that it is, or the tensor that it is
bound to. -/
def argument? (graph : Graph) (state : State) (id : ValueId) : Option Argument := do
  let value ← graph.values[id.index]?
  match value.constant? with
  | some c => some (.constant c)
  | none => (state.binding? id).map .tensor

namespace Argument

/-- The type of an operand, as far as it is a tensor. -/
def type? (network : Network) : Argument → Option TensorType
  | .tensor x => network.types[x.index]?
  | .constant (.tensor t) => some ⟨t.dtype, t.dims⟩
  | .constant _ => none

/-- The value of an operand, as far as it is a tensor and its value is known. -/
def value? (values : Values) : Argument → Option Tensor
  | .tensor x => values.get? x
  | .constant (.tensor t) => some t
  | .constant _ => none

end Argument

/-- The next state has these layers more, and binds the value to a tensor of this type. -/
structure State.Emits (state next : State) (layers : List Layer) (v : ValueId) (z : TensorId)
    (type : TensorType) : Prop where
  layers : next.network.layers = state.network.layers ++ layers
  bound : next.binding? v = some z
  recorded : next.network.types[z.index]? = some type

open Program

variable {graph : Graph} {node : Node} {state : State} {v : ValueId}

theorem ends_argumentOf {fair : LoweringError → Prop} {post : Argument → State → Prop} {id : ValueId}
    {argument : Argument} (given : argument? graph state id = some argument)
    (h : post argument state) : (argumentOf graph node id).EndsFrom state fair post := by
  obtain ⟨value, known, given⟩ := Option.bind_eq_some_iff.mp given
  have found : (graph.value id).mapError LoweringError.graph = .ok value := by
    rw [Graph.value, known]
    rfl
  refine .ofExcept_bind found ?_
  cases constant : value.constant? with
  | some c =>
    rw [constant] at given
    cases given
    exact h
  | none =>
    rw [constant] at given
    obtain ⟨x, bound, rfl⟩ := Option.map_eq_some_iff.mp given
    refine .gets_bind ?_
    rw [bound]
    exact h

/-- A node is given what its inputs are. -/
theorem ends_argumentsOf {fair : LoweringError → Prop} {post : List Argument → State → Prop}
    {ids : List ValueId} {arguments : List Argument}
    (given : List.Forall₂ (fun id argument => argument? graph state id = some argument) ids arguments)
    (h : post arguments state) : (argumentsOf graph node ids).EndsFrom state fair post := by
  induction given generalizing post with
  | nil => exact h
  | @cons id argument ids arguments first _ ih =>
    have here : (argumentOf graph node id).EndsFrom state fair fun a middle =>
        a = argument ∧ middle = state := ends_argumentOf first ⟨rfl, rfl⟩
    have later : (argumentsOf graph node ids).EndsFrom state fair fun as =>
        post (argument :: as) := ih h
    refine here.bind ?_
    rintro _ _ ⟨rfl, rfl⟩
    exact later.bind fun _ _ => .pure

/-- Lowering a node with one output ends as its rule does, if that binds the output. -/
theorem ends_lowerNode {rule : Rule} {arguments : List Argument} {fair : LoweringError → Prop}
    {post : State → Prop} (found : RuleTable.builtin.find? node.signature = some rule)
    (given : List.Forall₂ (fun id argument => argument? graph state id = some argument)
      node.inputs arguments)
    (outputs : node.outputs = [v])
    (lowers : (rule node arguments).EndsFrom state (fun e => fair (.rule (.node node) e))
      fun _ next => post next ∧ ∃ z type, next.binding? v = some z ∧
        next.network.types[z.index]? = some type) :
    (lowerNode .builtin graph node).EndsFrom state fair fun _ => post := by
  unfold lowerNode
  rw [found]
  have lowered : ((rule node arguments).mapError (.rule (.node node)) >>= fun _ =>
      checkBound node node.outputs).EndsFrom state fair fun _ => post := by
    refine (EndsFrom.mapError lowers).bind ?_
    rintro - next ⟨promise, z, type, bound, recorded⟩
    rw [outputs]
    obtain ⟨name, known⟩ := Network.tensor_eq_ok_of_types recorded
    refine .gets_bind ?_
    rw [bound]
    have dims : (next.network.dims z).mapError LoweringError.network = .ok type.dims := by
      rw [Network.dims, known]
      rfl
    exact .gets_bind (.ofExcept_bind dims promise)
  have read : (argumentsOf graph node node.inputs).EndsFrom state fair fun as middle =>
      as = arguments ∧ middle = state := ends_argumentsOf given ⟨rfl, rfl⟩
  refine read.bind ?_
  rintro _ _ ⟨rfl, rfl⟩
  exact lowered

theorem binding?_bound {z : TensorId} (fresh : state.binding? v = none) :
    State.binding? { state with bindings := state.bindings ++ [(v, z)] } v = some z := by
  rw [State.binding?] at fresh ⊢
  simp [List.lookup_append, fresh]

/-- The output of a node is bound to a tensor of the network. -/
theorem ends_bindOutput {fair : RuleError → Prop} {type : TensorType} {z : TensorId}
    (recorded : state.network.types[z.index]? = some type) (outputs : node.outputs = [v])
    (fresh : state.binding? v = none) :
    (bindOutput node z).EndsFrom state fair fun _ next =>
      next = { state with bindings := state.bindings ++ [(v, z)] } := by
  obtain ⟨name, known⟩ := Network.tensor_eq_ok_of_types recorded
  have ran := run_associate_eq_ok_iff.mpr (State.binds_iff.mpr ⟨⟨_, known⟩, fresh, rfl, rfl⟩)
  unfold bindOutput
  rw [outputs]
  have bound : (associate v z).EndsFrom state fair fun _ next =>
      next = { state with bindings := state.bindings ++ [(v, z)] } := by
    rw [EndsFrom, ran]
  exact bound.bind fun _ _ held => .done held

namespace Trial

variable {trial : Trial} {type : TensorType} {P : Values → Tensor → Prop} {z : TensorId}
  {next : State}

/-- An operand of a node as a tensor of the network. -/
theorem ends_operandAt {arguments : List Argument} {position : Nat} {argument : Argument}
    {fair : RuleError → Prop} (reaches : trial.Reaches state) (keeps : trial.Keeps trial.start state)
    (entry : arguments[position]? = some argument)
    (typed : argument.type? trial.start.network = some type)
    (value : ∀ values, trial.Given values → ∃ t, argument.value? values = some t ∧ P values t) :
    (operandAt arguments position).EndsFrom state fair (trial.Makes state type P) := by
  have found : argumentAt arguments position = .ok argument := by rw [argumentAt, entry]
  refine .ofExcept_bind found ?_
  cases argument with
  | tensor x => exact .done (.of_holds reaches (keeps _ _ _ (holds_start typed value)))
  | constant c =>
    cases c with
    | tensor t =>
      cases typed
      refine (ends_frozen reaches t).mono fun x next made => made.mono ?_
      rintro values _ given rfl
      obtain ⟨u, same, known⟩ := value values given
      cases same
      exact known
    | none | bool | int | double | ints => cases typed

/-- The value is bound to a tensor of which something is known, after a part of a lowering that only
added layers before. -/
def Binds (trial : Trial) (v : ValueId) (type : TensorType) (P : Values → Tensor → Prop)
    (next : State) : Prop :=
  ∃ z middle, trial.Reaches middle ∧ trial.Holds middle z type P ∧
    next = { middle with bindings := middle.bindings ++ [(v, z)] }

theorem Reaches.binding?_eq (h : trial.Reaches state) (v : ValueId) :
    state.binding? v = trial.start.binding? v := by
  rw [State.binding?, h.bindings, State.binding?]

/-- The output of a node is bound to a tensor of which something is known. -/
theorem ends_bindOutput {fair : RuleError → Prop} (reaches : trial.Reaches state)
    (holds : trial.Holds state z type P) (outputs : node.outputs = [v])
    (fresh : trial.start.binding? v = none) :
    (bindOutput node z).EndsFrom state fair fun _ => trial.Binds v type P := by
  have unbound := (reaches.binding?_eq v).trans fresh
  exact (Lowering.ends_bindOutput holds.recorded outputs unbound).mono fun _ next same =>
    ⟨z, state, reaches, holds, same⟩

/-- A value that is bound to a tensor of which something is known: the layers that were added run if
their results fit, and every run of them gives the tensor such a value. -/
theorem Binds.emits (h : trial.Binds v type P next) (fresh : trial.start.binding? v = none) :
    ∃ layers z, trial.start.Emits next layers v z type ∧
      ∀ values, trial.Given values → next.network.tensors.length ≤ values.length →
        (trial.fits → ∃ final, runLayers layers values = (final, .ok ())) ∧
        ∀ final, runLayers layers values = (final, .ok ()) →
          ∃ t, final.get? z = some t ∧ P values t := by
  obtain ⟨z, middle, reaches, holds, rfl⟩ := h
  refine ⟨trial.added middle, z, ⟨reaches.layers_eq, ?_, holds.recorded⟩,
    fun values given room => ⟨fun fits => ?_, fun final ran => ?_⟩⟩
  · exact binding?_bound ((reaches.binding?_eq v).trans fresh)
  · obtain ⟨final, runs⟩ := reaches.runs fits values given room
    exact ⟨final, runs.ran⟩
  · exact holds.value values final ⟨given, room, ran⟩

/-- A value that is bound has the type that is recorded for its tensor. -/
theorem Binds.exists_type (h : trial.Binds v type P next) (fresh : trial.start.binding? v = none) :
    ∃ z type, next.binding? v = some z ∧ next.network.types[z.index]? = some type := by
  obtain ⟨layers, z, emits, -⟩ := h.emits fresh
  exact ⟨z, type, emits.bound, emits.recorded⟩

end Trial

end TensorEngine.Lowering
