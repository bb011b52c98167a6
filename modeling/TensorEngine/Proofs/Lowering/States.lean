import Mathlib.Data.List.Chain
import TensorEngine.Proofs.Lowering.Logic

/-!
# The states of a lowering

Nothing is known of a rule but that it is a program. Still, a program can only note, edit, freeze and
bind, and a step that is refused changes nothing. So from one state to the next the network grows,
bindings are added behind those that are there, and a value is bound to a tensor that exists. What
holds between neighbours holds between any two states that a program goes through.

## Main definitions

* `State.Step`: what a step of a program makes of a state
* `State.Grows`, `State.Grounded`: what states keep, and bindings to tensors that exist
* `Program.states`: all states that a program goes through

## Main results

* `Program.isChain_states`: neighbours are related by a step
* `Program.pairwise_states`, `Program.grounded_states`: states grow and stay grounded
-/

namespace TensorEngine.Lowering

namespace State

variable {state next last : State} {value : ValueId} {x : TensorId}

/-- What a step of a program makes of a state. A step that is refused leaves it as it is. -/
inductive Step : State → State → Prop
  | refused (state : State) : Step state state
  | note (state : State) (observation : Observation) : Step state (state.note observation)
  | edit {state : State} {e : Network.Edit} {id : TensorId} {network : Network}
      (taken : state.network.Step e id network) : Step state { state with network := network }
  | freeze (state : State) (weights : Tensor) : Step state (state.freeze weights).2
  | bind {state : State} {value : ValueId} {x : TensorId}
      (known : x.index < state.network.tensors.length) (fresh : state.binding? value = none) :
      Step state { state with bindings := state.bindings ++ [(value, x)] }

theorem step_of_edit {e : Network.Edit} (h : state.edit e = (.ok x, next)) : state.Step next := by
  obtain ⟨network, applied, rfl⟩ := edit_eq_ok_iff.mp h
  exact .edit (Network.step_of_call applied)

theorem step_of_bind {y : TensorId} (h : state.bind value x = (.ok y, next)) : state.Step next := by
  obtain ⟨⟨t, known⟩, fresh, -, rfl⟩ := binds_iff.mp h
  exact .bind (List.getElem?_eq_some_iff.mp (Network.tensor_eq_ok_iff.mp known)).1 fresh

/-- The network grows, and bindings are added behind those that are there. -/
structure Grows (state next : State) : Prop where
  network : state.network.Grows next.network
  bindings : state.bindings <+: next.bindings

theorem Grows.refl (state : State) : state.Grows state :=
  ⟨.refl _, List.prefix_rfl⟩

theorem Grows.trans (h : state.Grows next) (h' : next.Grows last) : state.Grows last :=
  ⟨h.network.trans h'.network, h.bindings.trans h'.bindings⟩

instance : Trans Grows Grows Grows :=
  ⟨Grows.trans⟩

/-- A value that is bound keeps its tensor. -/
theorem Grows.binding? (h : state.Grows next) (bound : state.binding? value = some x) :
    next.binding? value = some x := by
  obtain ⟨added, same⟩ := h.bindings
  rw [State.binding?, ← same, List.lookup_append]
  exact Option.or_eq_some_iff.mpr (.inl bound)

theorem Step.grows (h : state.Step next) : state.Grows next := by
  cases h with
  | refused | note => exact ⟨.refl _, List.prefix_rfl⟩
  | edit taken => exact ⟨taken.grows, List.prefix_rfl⟩
  | freeze weights =>
    have taken : state.network.Step (.addConstant s!"[Freeze Tensor {state.frozen}]" weights) _
        (state.freeze weights).2.network := Network.step_of_call rfl
    exact ⟨taken.grows, List.prefix_rfl⟩
  | bind => exact ⟨.refl _, List.prefix_append _ _⟩

theorem Step.settings_eq (h : state.Step next) : next.settings = state.settings := by
  cases h <;> rfl

/-- Values are bound to tensors of the network. -/
def Grounded (state : State) : Prop :=
  state.Sound fun _ x => x.index < state.network.tensors.length

theorem Step.grounded (h : state.Step next) (grounded : state.Grounded) : next.Grounded := by
  -- Only a new binding has to be looked at: networks grow, so that old ones still lead to tensors.
  have longer : state.network.tensors.length ≤ next.network.tensors.length := by
    simpa [Network.types] using h.grows.network.types.length_le
  cases h with
  | bind known fresh => exact grounded.bind known
  | refused | note | edit | freeze =>
    exact fun entry member => Nat.lt_of_lt_of_le (grounded entry member) longer

theorem Grounded.exists_tensor (grounded : state.Grounded) (bound : state.binding? value = some x) :
    ∃ t, state.network.tensor x = .ok t :=
  ⟨_, Network.tensor_eq_ok_iff.mpr (List.getElem?_eq_getElem (grounded.binding? bound))⟩

end State

namespace Program

variable {ε ε' α β : Type} {program : Program ε α} {state later : State}

/-- The states that a program goes through, from the one in which it starts to the one in which it
ends. -/
def states : Program ε α → State → List State
  | .done _, state | .refuse _, state => [state]
  | .inspect next, state => (next state).states state
  | .note observation next, state => state :: next.states (state.note observation)
  | .edit e next, state =>
    let (answer, after) := state.edit e
    state :: (next answer).states after
  | .freeze weights next, state =>
    let (id, after) := state.freeze weights
    state :: (next id).states after
  | .bind value tensor next, state =>
    let (answer, after) := state.bind value tensor
    state :: (next answer).states after

theorem head?_states (program : Program ε α) (state : State) :
    (program.states state).head? = some state := by
  induction program with
  | inspect next ih => exact ih state
  | done | refuse | note | edit | freeze | bind => rfl

/-- The last of the states is the one that the run ends in. -/
theorem getLast?_states (program : Program ε α) (state : State) :
    (program.states state).getLast? = some (program.run state).2 := by
  induction program generalizing state with
  | done | refuse => rfl
  | inspect next ih => exact ih state state
  | note observation next ih => simp [states, run, List.getLast?_cons, ih]
  | edit e next ih => simp [states, run, List.getLast?_cons, ih]
  | freeze weights next ih => simp [states, run, List.getLast?_cons, ih]
  | bind value tensor next ih => simp [states, run, List.getLast?_cons, ih]

theorem step_edit (state : State) (e : Network.Edit) : state.Step (state.edit e).2 := by
  rcases edited : state.edit e with ⟨error | id, next⟩
  · obtain ⟨rfl, -⟩ := State.edit_eq_error edited
    exact .refused next
  · exact State.step_of_edit edited

theorem step_bind (state : State) (value : ValueId) (x : TensorId) :
    state.Step (state.bind value x).2 := by
  rcases bound : state.bind value x with ⟨error | y, next⟩
  · obtain rfl := State.bind_eq_error bound
    exact .refused next
  · exact State.step_of_bind bound

/-- Neighbours among the states are related by a step. -/
theorem isChain_states (program : Program ε α) (state : State) :
    (program.states state).IsChain State.Step := by
  -- A program that makes a step goes through what it starts from, and then what the rest starts
  -- from.
  have before : ∀ {program : Program ε α} {state after : State}, state.Step after →
      (program.states after).IsChain State.Step →
      (state :: program.states after).IsChain State.Step := by
    intro program state after taken rest
    refine rest.cons fun next first => ?_
    rw [head?_states] at first
    exact Option.some.inj first ▸ taken
  induction program generalizing state with
  | done | refuse => exact .singleton _
  | inspect next ih => exact ih state state
  | note observation next ih => exact before (.note state observation) (ih _)
  | edit e next ih => exact before (step_edit state e) (ih _ _)
  | freeze weights next ih => exact before (.freeze state weights) (ih _ _)
  | bind value x next ih => exact before (step_bind state value x) (ih _ _)

/-- Later states grow from earlier ones. -/
theorem pairwise_states (program : Program ε α) (state : State) :
    (program.states state).Pairwise State.Grows :=
  List.isChain_iff_pairwise.mp ((isChain_states program state).imp fun _ _ => State.Step.grows)

/-- What every step keeps, all states have. -/
theorem states_induction {P : State → Prop} (start : P state)
    (step : ∀ state next, P state → State.Step state next → P next) :
    ∀ later ∈ program.states state, P later := by
  refine List.IsChain.induction P _ (isChain_states program state)
    (fun earlier next taken holds => step earlier next holds taken) fun nonempty => ?_
  have first : (program.states state).head nonempty = state := by
    have := head?_states program state
    rw [List.head?_eq_some_head nonempty] at this
    exact Option.some.inj this
  rwa [first]

theorem run_mem_states (program : Program ε α) (state : State) :
    (program.run state).2 ∈ program.states state :=
  List.mem_of_getLast? (getLast?_states program state)

theorem grounded_states (grounded : state.Grounded) :
    ∀ later ∈ program.states state, later.Grounded :=
  states_induction grounded fun _ _ holds taken => taken.grounded holds

theorem stateGrows_of_run {result : Except ε α} (h : program.run state = (result, later)) :
    state.Grows later := by
  have member := run_mem_states program state
  rw [h] at member
  exact states_induction (.refl state) (fun _ _ grows taken => grows.trans taken.grows) _ member

/-- What a lowering was asked for stays the same. -/
theorem settings_of_run {result : Except ε α} (h : program.run state = (result, later)) :
    later.settings = state.settings := by
  have member := run_mem_states program state
  rw [h] at member
  exact states_induction (P := fun later => later.settings = state.settings) rfl
    (fun _ _ same taken => taken.settings_eq.trans same) _ member

theorem grounded_of_run {result : Except ε α} (h : program.run state = (result, later))
    (grounded : state.Grounded) : later.Grounded := by
  have member := run_mem_states program state
  rw [h] at member
  exact grounded_states grounded _ member

end Program

end TensorEngine.Lowering
