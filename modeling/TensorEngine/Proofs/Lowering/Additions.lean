import TensorEngine.Proofs.Lowering.Logic

/-!
# Programs that only add layers

Rules of the library, and the steps between them, edit a network in one way only: they add layers.
Whatever comes of such a program, inputs and outputs are those from before, and what is known of every
call that it makes is known of every call that built the network. Unlike the promises about values in
the final network, this holds of failing programs too, and of graphs that are never run.

## Main definitions

* `Program.Adds`: a program that adds layers by allowed calls, and a promise about its result

## Main results

* `Program.Adds.bind`: such programs compose
* `Program.Adds.perform`, `Program.Adds.dimsOf`: the promises of single steps
-/

namespace TensorEngine.Lowering.Program

variable {ε ε' α β : Type} {program : Program ε α} {state : State} {allowed : Network.Edit → Prop}
  {post : α → Prop}

/-- In a network that is reached by allowed calls, the program adds layers by allowed calls and leaves
inputs and outputs alone. A result is as promised. -/
def Adds (allowed : Network.Edit → Prop) (program : Program ε α) (post : α → Prop) : Prop :=
  ∀ state, state.network.Reached allowed →
    (program.run state).2.network.Reached allowed ∧
      (program.run state).2.network.inputs = state.network.inputs ∧
      (program.run state).2.network.outputs = state.network.outputs ∧
      ∀ a, (program.run state).1 = .ok a → post a

namespace Adds

theorem done {a : α} (h : post a) : Adds allowed (.done a : Program ε α) post :=
  fun _ reached => ⟨reached, rfl, rfl, fun _ same => Except.ok.inj same ▸ h⟩

theorem pure {a : α} (h : post a) : Adds allowed (Pure.pure a : Program ε α) post :=
  done h

theorem refuse (error : ε) : Adds allowed (.refuse error : Program ε α) post :=
  fun _ reached => ⟨reached, rfl, rfl, nofun⟩

theorem ofExcept {x : Except ε α} (h : ∀ a, x = .ok a → post a) :
    Adds allowed (ofExcept x) post := by
  cases x with
  | ok a => exact done (h a rfl)
  | error error => exact refuse error

/-- What is done after a program, whether it succeeds or fails, adds layers as well. -/
theorem resume {next : α → Program ε' β} {recover : ε → Program ε' β} {post' : β → Prop}
    (first : Adds allowed program post) (later : ∀ a, post a → Adds allowed (next a) post')
    (fallback : ∀ error, Adds allowed (recover error) post') :
    Adds allowed (program.resume next recover) post' := by
  intro state reached
  obtain ⟨reached, inputs, outputs, promise⟩ := first state reached
  rw [run_resume]
  rcases ran : program.run state with ⟨error | a, middle⟩ <;>
    rw [ran] at reached inputs outputs promise
  · obtain ⟨reached', inputs', outputs', promise'⟩ := fallback error middle reached
    exact ⟨reached', inputs'.trans inputs, outputs'.trans outputs, promise'⟩
  · obtain ⟨reached', inputs', outputs', promise'⟩ := later a (promise a rfl) middle reached
    exact ⟨reached', inputs'.trans inputs, outputs'.trans outputs, promise'⟩

theorem bind {next : α → Program ε β} {post' : β → Prop} (first : Adds allowed program post)
    (later : ∀ a, post a → Adds allowed (next a) post') : Adds allowed (program >>= next) post' :=
  first.resume later refuse

theorem mapError {f : ε → ε'} (h : Adds allowed program post) :
    Adds allowed (program.mapError f) post :=
  h.resume (fun _ promise => done promise) fun error => refuse (f error)

/-- Both branches of a condition go on in the same way. -/
theorem ite_bind {c : Prop} [Decidable c] {other : Program ε α} {next : α → Program ε β}
    {post' : β → Prop} (holds : c → Adds allowed program post)
    (fails : ¬c → Adds allowed other post) (later : ∀ a, post a → Adds allowed (next a) post') :
    Adds allowed (if c then program >>= next else other >>= next) post' := by
  split
  next h => exact (holds h).bind later
  next h => exact (fails h).bind later

theorem inspect {next : State → Program ε α}
    (h : ∀ state, state.network.Reached allowed → Adds allowed (next state) post) :
    Adds allowed (.inspect next) post :=
  fun state reached => h state reached state reached

theorem gets (f : State → α) : Adds allowed (gets f : Program ε α) fun _ => True :=
  inspect fun _ _ => done trivial

/-- What is read of a tensor is recorded by a network that is reached by allowed calls. -/
theorem tensorOf (id : TensorId) : Adds allowed (tensorOf id) fun t =>
    ∃ network : Network, network.Reached allowed ∧ network.tensor id = .ok t :=
  inspect fun state reached => ofExcept fun _ known =>
    ⟨state.network, reached, mapError_eq_ok_iff.mp known⟩

/-- An allowed call that adds a layer. -/
theorem edit {e : Network.Edit} {kind : LayerKind} (adds : e.kind? = some kind)
    (call : allowed e) : Adds allowed (Program.perform e) fun _ => True := by
  intro state reached
  simp only [Program.perform, run]
  rcases edited : state.edit e with ⟨error | id, next⟩
  · obtain ⟨rfl, -⟩ := State.edit_eq_error edited
    exact ⟨reached, rfl, rfl, fun _ _ => trivial⟩
  · obtain ⟨network, applied, rfl⟩ := State.edit_eq_ok_iff.mp edited
    have taken := Network.step_of_call applied
    -- A call that adds a layer is no call that adds an input or marks an output.
    have marks : network.inputs = state.network.inputs ∧
        network.outputs = state.network.outputs := by
      cases taken with
      | layer => exact ⟨rfl, rfl⟩
      | input | output => cases adds
    exact ⟨reached.step call taken, marks.1, marks.2, fun _ _ => trivial⟩

theorem perform {e : Network.Edit} {kind : LayerKind} (adds : e.kind? = some kind)
    (call : allowed e) : Adds allowed (Lowering.perform e) fun _ => True :=
  (edit adds call).mapError

theorem frozen {weights : Tensor} (call : ∀ name, allowed (.addConstant name weights)) :
    Adds allowed (frozen weights : Program ε TensorId) fun _ => True :=
  fun _ reached => ⟨reached.step (call _) (Network.step_of_call rfl), rfl, rfl, fun _ _ => trivial⟩

theorem associate (value : ValueId) (tensor : TensorId) :
    Adds allowed (associate value tensor) fun _ => True := by
  intro state reached
  simp only [Program.associate, run]
  rcases bound : state.bind value tensor with ⟨error | id, next⟩
  · obtain rfl := State.bind_eq_error bound
    exact ⟨reached, rfl, rfl, fun _ _ => trivial⟩
  · obtain ⟨-, -, -, rfl⟩ := State.binds_iff.mp bound
    exact ⟨reached, rfl, rfl, fun _ _ => trivial⟩

theorem bindOutput (node : Node) (tensor : TensorId) :
    Adds allowed (bindOutput node tensor) fun _ => True := by
  unfold Lowering.bindOutput
  split
  next => exact refuse _
  next => exact (associate _ _).bind fun _ _ => pure trivial

end Adds

end TensorEngine.Lowering.Program
