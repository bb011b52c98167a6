import TensorEngine.Proofs.Lowering.Parallel

/-!
# Stretches of a lowering

A lowering goes through its nodes one by one, each from the state that the nodes before it have left. In
such states exactly the inputs and what those nodes compute are bound, every value to a tensor of its
own. A node can be lowered from two of them in parallel if what it reads is bound alike.

## Main definitions

* `State.After`: states after some nodes were lowered
* `Stretch`, `Lowers`: the stretches of a lowering, one for each node

## Main results

* `State.After.lowerNode_parallel`: a node is lowered in parallel from two states
* `State.After.lowerNode`: what a state after a node is
* `exists_lowers_iff`: lowering nodes is going through stretches
-/

namespace TensorEngine

namespace Lowering

variable {graph : Graph} {node : Node} {nodes done done' : List Node}
  {start start' state state' next final : State}

namespace State

/-- A state after some nodes were lowered from the start. Inputs and what the nodes compute are bound,
each value to a tensor of its own, and nothing was marked. -/
structure After (start : State) (done : List Node) (state : State) : Prop where
  grows : start.Grows state
  mode : state.settings.dynamicShape = start.settings.dynamicShape
  reached : state.network.Reached fun _ => True
  plain : state.network.Plain
  inputs : state.network.inputs = start.network.inputs
  outputs : state.network.outputs = []
  oneToOne : state.OneToOne
  bound : ∀ id, (state.binding? id).isSome ↔
    (start.binding? id).isSome ∨ id ∈ done.flatMap Node.outputs

namespace After

/-- A node that is lowered from one of two states is lowered from the other one in parallel if its values
are bound alike. -/
theorem lowerNode_parallel (h : After start done state) (h' : After start' done' state')
    (mode : state.settings.dynamicShape = state'.settings.dynamicShape)
    (alike : ∀ id ∈ node.inputs ++ node.outputs, Option.Rel (state.network.Matches state'.network)
      (state.binding? id) (state'.binding? id))
    (ran : (lowerNode .builtin graph node).run state = (.ok (), next)) :
    ∃ next', (lowerNode .builtin graph node).run state' = (.ok (), next') ∧
      State.Parallel state state' (fun _ _ => False) (· ∈ node.outputs.head?) next next' := by
  have free : ∀ id, id ∈ node.outputs.head? → state.binding? id = none →
      state'.binding? id = none := fun id first =>
    eq_none_of_rel (alike id (List.mem_append_right _ (List.mem_of_head? first)))
  have outputs : List.Forall₂ (fun _ _ : TensorId => False) state.network.outputs
      state'.network.outputs := by
    rw [h.outputs, h'.outputs]
    exact .nil
  have states : State.Parallel state state' (fun _ _ => False) (· ∈ node.outputs.head?) state state' :=
    ⟨mode, .refl h.outputs h'.outputs h'.plain, .refl ..⟩
  have follows : (parallel state state' (fun _ _ => False) (· ∈ node.outputs.head?) free).Follows
      (.ofStates state state') (Lowering.lowerNode .builtin graph node)
      (Lowering.lowerNode .builtin graph node) fun _ _ _ => True :=
    Simulation.follows_lowerNode (parallel_admits graph) (parallel_watches alike)
      (Simulation.joins_of_sameMode parallel_sameMode) (fun _ => id) (.inl parallel_sameMode)
  obtain ⟨_, next', ran', both, -⟩ := follows state state' (.refl _) states () next ran
  exact ⟨next', ran', both⟩

/-- What lowering one more node makes of a state. -/
theorem lowerNode (h : After start done state)
    (ran : (lowerNode .builtin graph node).run state = (.ok (), next)) :
    After start (done ++ [node]) next := by
  -- The node is compared with itself.
  have alike : ∀ id ∈ node.inputs ++ node.outputs, Option.Rel (state.network.Matches state.network)
      (state.binding? id) (state.binding? id) := by
    refine fun id _ => rel_of_isSome_iff .rfl fun x y bound bound' => ?_
    cases bound.symm.trans bound'
    exact .refl h.reached.coherent (h.oneToOne.grounded.binding? bound)
  obtain ⟨next', ran', both⟩ := h.lowerNode_parallel h rfl alike ran
  cases ran.symm.trans ran'
  have grows : state.Grows next := Program.stateGrows_of_run ran
  refine ⟨h.grows.trans grows, ?_, Program.reached_of_run ran h.reached, both.network.plain,
    both.network.inputs.trans h.inputs, ?_,
    ⟨Program.grounded_of_run ran h.oneToOne.grounded, ?_⟩, fun id => ?_⟩
  · rw [Program.settings_of_run ran]
    exact h.mode
  · cases outputs : next.network.outputs with
    | nil => rfl
    | cons x xs =>
      obtain ⟨_, -, absurd, -⟩ := forall₂_mem_left both.network.outputs (outputs ▸ List.mem_cons_self)
      exact absurd.elim
  · intro a b x boundA boundB
    rcases both.bound_or_added boundA with oldA | ⟨newA, addedA⟩ <;>
      rcases both.bound_or_added boundB with oldB | ⟨newB, addedB⟩
    · exact h.oneToOne.injective oldA oldB
    · exact absurd (h.oneToOne.grounded.binding? oldA) addedB.not_lt.1
    · exact absurd (h.oneToOne.grounded.binding? oldB) addedA.not_lt.1
    · exact Option.some.inj (newA.symm.trans newB)
  · rw [List.flatMap_append, List.flatMap_singleton, List.mem_append, ← or_assoc, ← h.bound]
    constructor
    · intro bound
      obtain ⟨x, bound⟩ := Option.isSome_iff_exists.mp bound
      rcases both.bound_or_added bound with old | ⟨new, -⟩
      · exact .inl (Option.isSome_of_eq_some old)
      · exact .inr (List.mem_of_head? new)
    · rintro (old | output)
      · obtain ⟨x, bound⟩ := Option.isSome_iff_exists.mp old
        exact Option.isSome_of_eq_some (grows.binding? bound)
      · obtain ⟨x, bound⟩ := lowerNode_eq_ok ran id output
        exact Option.isSome_of_eq_some bound

/-- Who is bound to an input of the start was bound to it at the start. -/
theorem binding?_of_input (h : After start done state)
    (sources : ∀ x ∈ start.network.inputs, ∃ id, start.binding? id = some x) {id : ValueId}
    {x : TensorId} (bound : state.binding? id = some x) (input : x ∈ state.network.inputs) :
    start.binding? id = some x := by
  obtain ⟨source, bound'⟩ := sources x (h.inputs ▸ input)
  rwa [h.oneToOne.injective bound (h.grows.binding? bound')]

/-- States after nodes that were lowered from one start bind the same values to inputs. -/
theorem corresponds (h : After start done state) (h' : After start done' state')
    (sources : ∀ x ∈ start.network.inputs, ∃ id, start.binding? id = some x) :
    State.Corresponds state state' := by
  refine ⟨h.oneToOne, h'.oneToOne, fun {id x y} left right => ⟨fun input => ?_, fun input => ?_⟩,
    fun x input => ?_, fun x input => ?_⟩
  · have first := h.binding?_of_input sources left input
    cases (h'.grows.binding? first).symm.trans right
    rwa [h'.inputs, ← h.inputs]
  · have first := h'.binding?_of_input sources right input
    cases (h.grows.binding? first).symm.trans left
    rwa [h.inputs, ← h'.inputs]
  · exact h.reached.coherent.marked x (List.mem_append_left _ input)
  · exact h'.reached.coherent.marked x (List.mem_append_left _ input)

end After

end State

/-! ### Stretches -/

/-- The part of a lowering in which a node is lowered. -/
structure Stretch where
  node : Node
  first : State
  last : State

/-- The layers that were added for the node. -/
def Stretch.layers (stretch : Stretch) : List Layer :=
  stretch.last.network.layers.drop stretch.first.network.layers.length

/-- Nodes are lowered one after the other. -/
inductive Lowers (graph : Graph) : State → List Stretch → State → Prop
  | nil (state : State) : Lowers graph state [] state
  | cons {node : Node} {state next last : State} {stretches : List Stretch}
      (ran : (lowerNode .builtin graph node).run state = (.ok (), next))
      (rest : Lowers graph next stretches last) :
      Lowers graph state (⟨node, state, next⟩ :: stretches) last

namespace Lowers

variable {stretches before later : List Stretch} {stretch : Stretch}

theorem grows (h : Lowers graph state stretches final) : state.Grows final := by
  induction h with
  | nil => exact .refl _
  | cons ran _ ih => exact (Program.stateGrows_of_run ran).trans ih

/-- The layers that there are in the end are those of the stretches. -/
theorem layers_eq (h : Lowers graph state stretches final) :
    final.network.layers = state.network.layers ++ stretches.flatMap Stretch.layers := by
  induction h with
  | nil => exact (List.append_nil _).symm
  | @cons node state next last stretches ran _ ih =>
    obtain ⟨added, same⟩ := (Program.grows_of_run ran).layers
    rw [ih, List.flatMap_cons, Stretch.layers, ← same, List.drop_left, List.append_assoc]

/-- A stretch lies between those before and those after it. -/
theorem split (h : Lowers graph state (before ++ stretch :: later) final) :
    Lowers graph state before stretch.first ∧
      (lowerNode .builtin graph stretch.node).run stretch.first = (.ok (), stretch.last) ∧
      Lowers graph stretch.last later final := by
  induction before generalizing state with
  | nil =>
    cases h with
    | cons ran rest => exact ⟨.nil _, ran, rest⟩
  | cons first before ih =>
    cases h with
    | cons ran rest =>
      obtain ⟨earlier, lowered, later⟩ := ih rest
      exact ⟨.cons ran earlier, lowered, later⟩

/-- What the stretches make of a state. -/
theorem after (h : Lowers graph state stretches final) (earlier : State.After start done state) :
    State.After start (done ++ stretches.map Stretch.node) final := by
  induction h generalizing done with
  | nil => simpa using earlier
  | cons ran _ ih => simpa [List.append_assoc] using ih (earlier.lowerNode ran)

end Lowers

/-- Lowering the nodes at some positions is going through their stretches. -/
theorem exists_lowers_iff {order : List Nat} (arranged : Arranged order graph.nodes nodes) :
    (lowerNodes .builtin graph order).run state = (.ok (), final) ↔
      ∃ stretches, stretches.map Stretch.node = nodes ∧ Lowers graph state stretches final := by
  induction arranged generalizing state with
  | nil =>
    constructor
    · rintro ⟨⟩
      exact ⟨[], rfl, .nil _⟩
    · rintro ⟨stretches, none, lowers⟩
      cases List.map_eq_nil_iff.mp none
      cases lowers
      rfl
  | @cons position node order nodes entry _ ih =>
    have found : (ofGraph (TensorEngine.entry graph.nodes position)).run state = (.ok node, state) :=
      Program.run_ofExcept_eq_ok_iff.mpr ⟨mapError_eq_ok_iff.mpr (entry_eq_ok_iff.mpr entry), rfl⟩
    rw [lowerNodes, Program.run_bind, found]
    dsimp only
    rw [Program.run_bind_eq_ok_iff]
    constructor
    · rintro ⟨_, next, ran, rest⟩
      obtain ⟨stretches, rfl, lowers⟩ := ih.mp rest
      exact ⟨_, rfl, .cons ran lowers⟩
    · rintro ⟨_, same, lowers⟩
      cases lowers with
      | nil => cases same
      | cons ran rest =>
        rw [List.map_cons, List.cons.injEq] at same
        obtain ⟨rfl, same⟩ := same
        exact ⟨_, _, ran, ih.mpr ⟨_, same, rest⟩⟩

end Lowering

end TensorEngine
