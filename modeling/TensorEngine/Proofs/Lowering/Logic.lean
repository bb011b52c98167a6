import TensorEngine.Lowering.Layers
import TensorEngine.Proofs.Network.Growth

/-!
# A logic for lowering programs

A lowering program makes its network grow. What it says about the network in which a lowering ends
can therefore be said step by step: a step that succeeds promises something about its answer in view
of the final network, and promises of steps compose. Programs of rules leave inputs and outputs of
the network alone, and bind values only to tensors that are good for them.

## Main definitions

* `Program.Ensures`: what a program promises about its answer

## Main results

* `Program.run_grows`, `Program.run_reached`: the network after a program
* `Program.Ensures.bind`: promises compose
* `Program.Ensures.perform`, `Program.Ensures.associate`: the promises of single steps
-/

namespace TensorEngine.Lowering

namespace State

variable {state next : State} {id : TensorId}

theorem edit_eq_ok_iff {e : Network.Edit} : state.edit e = (.ok id, next) ↔
    ∃ network, state.network.call e = (.ok id, network) ∧
      next = { state with network := network } := by
  rw [edit]
  rcases state.network.call e with ⟨_ | id', network⟩ <;> simp [eq_comm]

/-- An edit that is refused leaves the state as it was. -/
theorem edit_eq_error {e : Network.Edit} {error : NetworkError} (h : state.edit e = (.error error, next)) :
    next = state ∧ (state.network.call e).1 = .error error := by
  rcases applied : state.network.call e with ⟨_ | id, network⟩ <;> rw [edit, applied] at h
  · cases h
    obtain rfl := Network.eq_of_call_error applied
    exact ⟨rfl, rfl⟩
  · cases h

/-- A value that is not bound is bound to a tensor that is there. -/
theorem binds_iff {value : ValueId} {tensor : TensorId} :
    state.bind value tensor = (.ok id, next) ↔
      (∃ t, state.network.tensor tensor = .ok t) ∧ state.binding? value = none ∧ id = tensor ∧
        next = { state with bindings := state.bindings ++ [(value, tensor)] } := by
  unfold bind
  rcases state.network.tensor tensor with _ | t <;>
    rcases state.binding? value with _ | bound <;> simp [eq_comm]

/-- A binding that is refused leaves the state as it was. -/
theorem bind_eq_error {value : ValueId} {tensor : TensorId} {error : RuleError}
    (h : state.bind value tensor = (.error error, next)) : next = state := by
  unfold bind at h
  split at h
  · cases h
    rfl
  · split at h <;> cases h
    rfl

/-- Every value is bound to a tensor that is good for it. -/
def Sound (Good : ValueId → TensorId → Prop) (state : State) : Prop :=
  ∀ entry ∈ state.bindings, Good entry.1 entry.2

/-- A binding that is found is good. -/
theorem Sound.binding? {Good : ValueId → TensorId → Prop} (sound : state.Sound Good)
    {value : ValueId} (h : state.binding? value = some id) : Good value id :=
  sound (value, id) (mem_of_lookup h)

theorem Sound.bind {Good : ValueId → TensorId → Prop} (sound : state.Sound Good) {value : ValueId}
    (good : Good value id) :
    State.Sound Good { state with bindings := state.bindings ++ [(value, id)] } := by
  intro entry member
  rcases List.mem_append.mp member with old | new
  · exact sound entry old
  · exact List.mem_singleton.mp new ▸ good

end State

namespace Program

variable {ε ε' α β : Type} {program : Program ε α} {state state' : State}

theorem run_bind_eq_ok_iff {next : α → Program ε β} {b : β} :
    (program >>= next).run state = (.ok b, state') ↔
      ∃ a middle, program.run state = (.ok a, middle) ∧ (next a).run middle = (.ok b, state') := by
  rw [run_bind]
  rcases program.run state with ⟨result, middle⟩
  cases result <;> simp

theorem run_mapError_eq_ok_iff {f : ε → ε'} {a : α} :
    (program.mapError f).run state = (.ok a, state') ↔ program.run state = (.ok a, state') := by
  rw [mapError, run_resume]
  rcases program.run state with ⟨result, middle⟩
  cases result <;> simp [run]

theorem run_ofExcept_eq_ok_iff {x : Except ε α} {a : α} :
    (ofExcept x : Program ε α).run state = (.ok a, state') ↔ x = .ok a ∧ state' = state := by
  cases x <;> simp [ofExcept, run, eq_comm]

theorem run_perform_eq_ok {e : Network.Edit} {id : TensorId}
    (h : (perform e).run state = (.ok id, state')) :
    ∃ network, state.network.call e = (.ok id, network) ∧
      state' = { state with network := network } := by
  simp only [perform, run] at h
  rcases edited : state.edit e with ⟨error | id', next⟩ <;> rw [edited] at h
  · cases h
  · cases h
    exact State.edit_eq_ok_iff.mp edited

theorem run_associate_eq_ok {value : ValueId} {tensor id : TensorId}
    (h : (associate value tensor).run state = (.ok id, state')) : id = tensor ∧
      state.binding? value = none ∧
      state' = { state with bindings := state.bindings ++ [(value, tensor)] } := by
  simp only [associate, run] at h
  rcases bound : state.bind value tensor with ⟨error | id', next⟩ <;> rw [bound] at h
  · cases h
  · cases h
    obtain ⟨-, fresh, same, result⟩ := State.binds_iff.mp bound
    exact ⟨same, fresh, result⟩

/-- What every step of the network keeps, a program keeps. -/
theorem run_induction {P : Network → Prop} (start : P state.network)
    (step : ∀ network e id next, P network → Network.Step network e id next → P next) :
    P (program.run state).2.network := by
  induction program generalizing state with
  | done | refuse => exact start
  | inspect _ ih => exact ih _ start
  | note _ _ ih => exact ih start
  | edit e k ih =>
    simp only [run]
    rcases edited : state.edit e with ⟨error | id, next⟩
    · obtain ⟨rfl, -⟩ := State.edit_eq_error edited
      exact ih _ start
    · obtain ⟨network, applied, rfl⟩ := State.edit_eq_ok_iff.mp edited
      exact ih _ (step _ e id _ start (Network.step_of_call applied))
  | freeze weights k ih =>
    refine ih _ (step _ (.addConstant _ weights) _ _ start (Network.step_of_call rfl))
  | bind value tensor k ih =>
    simp only [run]
    rcases bound : state.bind value tensor with ⟨error | id, next⟩
    · obtain rfl := State.bind_eq_error bound
      exact ih _ start
    · obtain ⟨-, -, -, rfl⟩ := State.binds_iff.mp bound
      exact ih _ start

theorem run_grows (program : Program ε α) (state : State) :
    state.network.Grows (program.run state).2.network :=
  run_induction (.refl _) fun _ _ _ _ grows taken => grows.trans taken.grows

theorem grows_of_run {result : Except ε α} (h : program.run state = (result, state')) :
    state.network.Grows state'.network := by
  have grows := run_grows program state
  rwa [h] at grows

theorem run_reached (program : Program ε α) (reached : state.network.Reached fun _ => True) :
    (program.run state).2.network.Reached fun _ => True :=
  run_induction reached fun _ _ _ _ earlier taken => earlier.step trivial taken

theorem reached_of_run {result : Except ε α} (h : program.run state = (result, state'))
    (reached : state.network.Reached fun _ => True) : state'.network.Reached fun _ => True := by
  have reached' := run_reached program reached
  rwa [h] at reached'

/-- Where values are bound to tensors that are good for them and the network grows to `final`, the
answer is as promised, inputs and outputs are those from before, and bindings are good still. -/
def Ensures (final : Network) (Good : ValueId → TensorId → Prop) (program : Program ε α)
    (post : α → Prop) : Prop :=
  ∀ state state' a, program.run state = (.ok a, state') → state'.network.Grows final →
    state.Sound Good → post a ∧ state'.network.inputs = state.network.inputs ∧
      state'.network.outputs = state.network.outputs ∧ state'.Sound Good

namespace Ensures

variable {final : Network} {Good : ValueId → TensorId → Prop} {post : α → Prop}

theorem done {a : α} (h : post a) : Ensures final Good (.done a : Program ε α) post := by
  rintro state _ _ ⟨⟩ - sound
  exact ⟨h, rfl, rfl, sound⟩

theorem pure {a : α} (h : post a) : Ensures final Good (Pure.pure a : Program ε α) post :=
  done h

theorem refuse (error : ε) : Ensures final Good (.refuse error : Program ε α) post := by
  rintro state _ _ ⟨⟩

theorem ofExcept {x : Except ε α} (h : ∀ a, x = .ok a → post a) :
    Ensures final Good (ofExcept x) post := by
  intro state state' a ran _ sound
  obtain ⟨same, rfl⟩ := run_ofExcept_eq_ok_iff.mp ran
  exact ⟨h a same, rfl, rfl, sound⟩

/-- A program that goes on with an answer promises what it promises for every answer that the first
part promises. -/
theorem bind {next : α → Program ε β} {post' : β → Prop} (first : Ensures final Good program post)
    (later : ∀ a, post a → Ensures final Good (next a) post') :
    Ensures final Good (program >>= next) post' := by
  intro state state' b ran grows sound
  obtain ⟨a, middle, before, after⟩ := run_bind_eq_ok_iff.mp ran
  have between : middle.network.Grows final := (grows_of_run after).trans grows
  obtain ⟨answer, inputs, outputs, sound⟩ := first _ _ _ before between sound
  obtain ⟨answer', inputs', outputs', sound'⟩ := later a answer _ _ _ after grows sound
  exact ⟨answer', inputs'.trans inputs, outputs'.trans outputs, sound'⟩

/-- Both branches of a condition go on in the same way. -/
theorem ite_bind {c : Prop} [Decidable c] {other : Program ε α} {next : α → Program ε β}
    {post' : β → Prop} (holds : c → Ensures final Good program post)
    (fails : ¬c → Ensures final Good other post)
    (later : ∀ a, post a → Ensures final Good (next a) post') :
    Ensures final Good (if c then program >>= next else other >>= next) post' := by
  split
  next h => exact (holds h).bind later
  next h => exact (fails h).bind later

theorem mono {post' : α → Prop} (h : Ensures final Good program post)
    (weaker : ∀ a, post a → post' a) : Ensures final Good program post' := by
  intro state state' a ran grows sound
  obtain ⟨answer, kept⟩ := h _ _ _ ran grows sound
  exact ⟨weaker a answer, kept⟩

theorem mapError {f : ε → ε'} (h : Ensures final Good program post) :
    Ensures final Good (program.mapError f) post := by
  intro state state' a ran grows
  exact h _ _ _ (run_mapError_eq_ok_iff.mp ran) grows

theorem inspect {next : State → Program ε α}
    (h : ∀ state, state.network.Grows final → state.Sound Good →
      Ensures final Good (next state) post) :
    Ensures final Good (.inspect next) post := by
  intro state state' a ran grows sound
  have taken : (next state).run state = (.ok a, state') := ran
  exact h state ((grows_of_run taken).trans grows) sound _ _ _ taken grows sound

/-- What is read is read from a state in which bindings are good. -/
theorem gets (f : State → α) : Ensures final Good (gets f : Program ε α) fun a =>
    ∃ state : State, state.Sound Good ∧ a = f state :=
  inspect fun state _ sound => done ⟨state, sound, rfl⟩

theorem tensorOf (id : TensorId) :
    Ensures final Good (tensorOf id) fun t => final.types[id.index]? = some t.type := by
  refine inspect fun state grows _ => ofExcept fun t known => ?_
  exact getElem?_of_isPrefix grows.types
    (Network.types_getElem?_of_tensor (mapError_eq_ok_iff.mp known))

/-- The dimensions that are read are those that the final network records. -/
theorem dimsOf (id : TensorId) :
    Ensures final Good (dimsOf id) fun dims =>
      ∃ dtype, final.types[id.index]? = some ⟨dtype, dims⟩ :=
  (tensorOf id).bind fun t known => pure ⟨t.dtype, known⟩

/-- A call that adds a layer promises that the final network has the layer. -/
theorem edit {e : Network.Edit} {kind : LayerKind} (adds : e.kind? = some kind) :
    Ensures final Good (Program.perform e) fun id =>
      ∃ layer ∈ final.layers, layer.kind = kind ∧ layer.inputs = e.inputs ∧ layer.output = id := by
  intro state state' id ran grows sound
  obtain ⟨network, applied, rfl⟩ := run_perform_eq_ok ran
  cases Network.step_of_call applied with
  | input | output => cases adds
  | @layer e name kind' operands type adds' known infers =>
    cases adds.symm.trans adds'
    exact ⟨⟨_, grows.layers.subset (List.mem_append_right _ List.mem_cons_self), rfl, rfl, rfl⟩,
      rfl, rfl, sound⟩

theorem perform {e : Network.Edit} {kind : LayerKind} (adds : e.kind? = some kind) :
    Ensures final Good (Lowering.perform e) fun id =>
      ∃ layer ∈ final.layers, layer.kind = kind ∧ layer.inputs = e.inputs ∧ layer.output = id :=
  (edit adds).mapError

theorem frozen (weights : Tensor) :
    Ensures final Good (frozen weights : Program ε TensorId) fun id =>
      ∃ layer ∈ final.layers, layer.kind = .constant weights ∧ layer.output = id := by
  rintro state _ _ ⟨⟩ grows sound
  exact ⟨⟨_, grows.layers.subset (List.mem_append_right _ List.mem_cons_self), rfl, rfl⟩,
    rfl, rfl, sound⟩

/-- A value may be bound to a tensor that is good for it. -/
theorem associate {value : ValueId} {tensor : TensorId} (good : Good value tensor) :
    Ensures final Good (associate value tensor) fun id => id = tensor := by
  intro state state' id ran _ sound
  obtain ⟨rfl, -, rfl⟩ := run_associate_eq_ok ran
  exact ⟨rfl, rfl, rfl, sound.bind good⟩

/-- The output of a node is bound to a tensor that is good for it. -/
theorem bindOutput {node : Node} {tensor : TensorId}
    (good : ∀ id rest, node.outputs = id :: rest → Good id tensor) :
    Ensures final Good (bindOutput node tensor) fun _ => True := by
  unfold Lowering.bindOutput
  split
  next => exact refuse _
  next id rest output =>
    exact (associate (good id rest output)).bind fun _ _ => pure trivial

end Ensures

end Program

end TensorEngine.Lowering
