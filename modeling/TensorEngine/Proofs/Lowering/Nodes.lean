import TensorEngine.Lowering.Graph
import TensorEngine.Proofs.Lowering.Contract
import TensorEngine.Proofs.Lowering.Simulation

/-!
# Simulations along nodes

A node is given constants of the graph and tensors that its inputs are bound to, and is checked for
bindings of its outputs. Where a simulation finds these bindings alike, lowering the node follows
itself.

## Main definitions

* `Simulation.Watches`: values whose bindings are alike

## Main results

* `Simulation.follows_lowerNode`, `Simulation.follows_lowerNodes`: lowering nodes follows itself
-/

namespace TensorEngine.Lowering.Simulation

variable {sim : Simulation} {w : Networks} {graph : Graph} {node : Node}

/-- In states that are alike, these values are bound to tensors that are alike, or not at all. -/
def Watches (sim : Simulation) (ids : List ValueId) : Prop :=
  ∀ state state' : State, sim.Alike state state' → ∀ id ∈ ids,
    Option.Rel (sim.Same (.ofStates state state')) (state.binding? id) (state'.binding? id)

/-- The constants of a graph may be added. -/
def Admits (sim : Simulation) (graph : Graph) : Prop :=
  ∀ id name t, graph.value id = .ok ⟨name, .constant (.tensor t)⟩ → sim.Allowed t

theorem follows_ofGraph {α : Type} (result : Except GraphError α) :
    sim.Follows w (ofGraph result) (ofGraph result) fun _ a a' => a' = a ∧ result = .ok a :=
  .ofExcepts fun a h => ⟨a, h, fun _ _ => ⟨rfl, mapError_eq_ok_iff.mp h⟩⟩

/-- A value that is watched is looked up alike. -/
theorem follows_binding? {ε : Type} {ids : List ValueId} (watches : sim.Watches ids) {id : ValueId}
    (member : id ∈ ids) :
    sim.Follows w (Program.gets (·.binding? id) : Program ε (Option TensorId))
      (Program.gets (·.binding? id)) fun v => Option.Rel (sim.Same v) :=
  (Program.Follows.gets _ _).mono fun _ _ _ ⟨_, _, states, known, found, found'⟩ => by
    rw [known, found, found']
    exact watches _ _ states id member

variable (admits : sim.Admits graph)

/-! ### Nodes -/

section Nodes

variable (watches : sim.Watches (node.inputs ++ node.outputs))
include watches

include admits in
/-- What a node is given for an input. -/
theorem follows_argumentOf {id : ValueId} (input : id ∈ node.inputs) :
    sim.Follows w (argumentOf graph node id) (argumentOf graph node id)
      fun v => Argument.Alike (sim.Same v) sim.Allowed := by
  refine (follows_ofGraph _).bind fun v _ value _ h => ?_
  obtain ⟨rfl, known⟩ := h
  split
  next c isConstant =>
    refine .pure fun _ _ => .constant fun t tensor => ?_
    exact admits id value.name t (tensor ▸ constant_of_value known isConstant)
  next =>
    refine (follows_binding? watches (List.mem_append_left _ input)).bind fun v x? y? _ same => ?_
    cases same with
    | some same => exact .pure fun _ grow => .tensor (sim.same_of_grow grow same)
    | none => exact .refuse _

include admits in
/-- What a node is given for its inputs. -/
theorem follows_argumentsOf {ids : List ValueId} (inputs : ids ⊆ node.inputs) :
    sim.Follows w (argumentsOf graph node ids) (argumentsOf graph node ids)
      fun v => List.Forall₂ (Argument.Alike (sim.Same v) sim.Allowed) := by
  induction ids generalizing w with
  | nil => exact .done fun _ _ => .nil
  | cons id ids ih =>
    rw [List.cons_subset] at inputs
    refine (follows_argumentOf admits watches inputs.1).bind fun v a a' grow first => ?_
    refine (ih inputs.2).bind fun v as as' grow rest => ?_
    have first := Argument.Alike.grow grow first
    exact .pure fun _ grow => .cons (Argument.Alike.grow grow first)
      (rest.imp fun _ _ => Argument.Alike.grow grow)

/-- The check that outputs are bound. -/
theorem follows_checkBound {ids : List ValueId} (outputs : ids ⊆ node.outputs) :
    sim.Follows w (checkBound node ids) (checkBound node ids) fun _ _ _ => True := by
  induction ids generalizing w with
  | nil => exact .done fun _ _ => trivial
  | cons id ids ih =>
    rw [List.cons_subset] at outputs
    have watched := List.mem_append_right node.inputs outputs.1
    refine (follows_binding? watches watched).bind fun v x? y? grow same => ?_
    cases same with
    | none => exact .refuse _
    | @some x y same =>
      refine (Program.Follows.gets _ _).bind fun v network network' grow h => ?_
      obtain ⟨state, state', states, rfl, rfl, rfl⟩ := h
      have recorded : sim.Follows (.ofStates state state')
          (Program.ofExcept ((state.network.dims x).mapError .network) : Program LoweringError Dims)
          (Program.ofExcept ((state'.network.dims y).mapError .network)) fun _ _ _ => True := by
        refine .ofExcepts fun dims found => ?_
        obtain ⟨t, known, rfl⟩ := map_eq_ok_iff.mp (mapError_eq_ok_iff.mp found)
        obtain ⟨t', known', -⟩ := Network.exists_tensor_of_types
          (sim.types states (sim.same_of_grow grow same) (Network.types_getElem?_of_tensor known))
        exact ⟨t'.dims, mapError_eq_ok_iff.mpr (map_eq_ok_iff.mpr ⟨t', known', rfl⟩),
          fun _ _ => trivial⟩
      exact recorded.bind fun _ _ _ _ _ => ih outputs.2

include admits in
/-- Lowering a node follows itself. -/
theorem follows_lowerNode (joins : sim.Joins) (binds : ∀ id ∈ node.outputs.head?, sim.Binds id)
    (mode : sim.SameMode ∨ node.signature ∉ reshapingSignatures) :
    sim.Follows w (lowerNode .builtin graph node) (lowerNode .builtin graph node)
      fun _ _ _ => True := by
  unfold lowerNode
  split
  next => exact .refuse _
  next rule found =>
    refine (follows_argumentsOf admits watches (List.Subset.refl _)).bind
      fun v arguments arguments' grow alike => ?_
    refine (Program.Follows.mapError (lowers_builtin joins found mode v node arguments arguments'
      binds alike)).bind fun v _ _ grow _ => ?_
    exact follows_checkBound watches (List.Subset.refl _)

end Nodes

/-! ### Outputs -/

/-- What is asked about marks is answered alike, and tensors that are alike are marked alike. -/
structure Marks (sim : Simulation) : Prop where
  isMarked {state state' : State} {x y : TensorId} : sim.Alike state state' →
    sim.Same (.ofStates state state') x y → state'.network.isMarked y = state.network.isMarked x
  markOutput {state state' next : State} {x y z : TensorId} {position : Nat} :
    sim.Alike state state' → sim.Same (.ofStates state state') x y →
    state.edit (.markOutput x (BindingName.output position).text) = (.ok z, next) →
    ∃ z' next', state'.edit (.markOutput y (BindingName.output position).text) = (.ok z', next') ∧
      sim.Alike next next'

variable {ids : List ValueId} (watches : sim.Watches ids) (binds : ∀ id ∈ ids, sim.Binds id)

include watches binds admits in
/-- The tensor of an output. -/
theorem follows_outputTensor {id : ValueId} (output : id ∈ ids) :
    sim.Follows w (outputTensor graph id) (outputTensor graph id) sim.Same := by
  refine (follows_ofGraph _).bind fun v _ value _ h => ?_
  obtain ⟨rfl, known⟩ := h
  refine (follows_binding? watches output).bind fun v x? y? _ same => ?_
  cases same with
  | some same => exact .pure fun _ grow => sim.same_of_grow grow same
  | none =>
    split
    next bound => cases bound
    next c _ isConstant =>
      refine Program.Follows.mapError ?_
      cases c with
      | tensor t =>
        have fair := admits id value.name t (constant_of_value known isConstant)
        refine (follows_frozen fair).bind fun v x y _ made => ?_
        intro state state' grow states z next ran
        have bound := Program.run_associate_eq_ok_iff.mp ran
        obtain ⟨z', next', bound', alike⟩ :=
          sim.bind states (binds id output) (sim.made_of_grow grow made) bound
        obtain ⟨-, -, rfl, grown⟩ := State.binds_iff.mp bound
        obtain ⟨-, -, rfl, grown'⟩ := State.binds_iff.mp bound'
        refine ⟨z', next', Program.run_associate_eq_ok_iff.mpr bound', alike, ?_⟩
        have same := sim.same_of_made (sim.made_of_grow grow made)
        rwa [Networks.ofStates, grown, grown']
      | none | bool | int | double | ints => exact .refuse _
    next => exact .refuse _

/-- A tensor that can still be marked. -/
theorem follows_exportable (marks : sim.Marks) {name : BindingName} {x y : TensorId}
    (same : sim.Same w x y) :
    sim.Follows w (exportable name x) (exportable name y) sim.Same := by
  refine (Program.Follows.gets _ _).bind fun v marked marked' grow h => ?_
  obtain ⟨state, state', states, rfl, rfl, rfl⟩ := h
  have same := sim.same_of_grow grow same
  rw [marks.isMarked states same]
  split
  next =>
    have alike : Network.Edit.Alike (sim.Same (.ofStates state state')) sim.Allowed
        (.addShuffle s!"[Identity {name.text}]" x .identity)
        (.addShuffle s!"[Identity {name.text}]" y .identity) :=
      ⟨rfl, ⟨_, rfl, rfl, nofun⟩, .cons same .nil⟩
    exact Program.Follows.mapError ((follows_edit alike).mono fun _ _ _ => sim.same_of_made)
  next => exact .pure fun _ grow => sim.same_of_grow grow same

include watches binds admits in
/-- Making outputs of the network follows itself. -/
theorem follows_lowerOutputs (marks : sim.Marks) {position : Nat} {outputs : List ValueId}
    (given : outputs ⊆ ids) :
    sim.Follows w (lowerOutputs graph position outputs) (lowerOutputs graph position outputs)
      fun _ _ _ => True := by
  induction outputs generalizing w position with
  | nil => exact .done fun _ _ => trivial
  | cons id outputs ih =>
    rw [List.cons_subset] at given
    refine (follows_outputTensor admits watches binds given.1).bind fun v x y _ same => ?_
    refine (follows_exportable marks same).bind fun v x y _ same => ?_
    have marked : sim.Follows v (editNetwork (.markOutput x (BindingName.output position).text))
        (editNetwork (.markOutput y (BindingName.output position).text)) fun _ _ _ => True := by
      refine Program.Follows.mapError fun state state' grow states z next ran => ?_
      obtain ⟨z', next', marked', alike⟩ := marks.markOutput states (sim.same_of_grow grow same)
        (Program.run_perform_eq_ok_iff.mp ran)
      exact ⟨z', next', Program.run_perform_eq_ok_iff.mpr marked', alike, trivial⟩
    exact marked.bind fun _ _ _ _ _ => ih given.2

end TensorEngine.Lowering.Simulation
