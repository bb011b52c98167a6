import TensorEngine.Proofs.Lowering.Following
import TensorEngine.Proofs.Network.Calls

/-!
# Both outcomes of lowering programs

A lowering program ends with a result or with an error. What it does is said by a property of the
result together with the state after it, and by a property of the error. Both are followed step by
step, so that a program is known to succeed where no error is fair.

## Main definitions

* `Program.EndsFrom`: the outcomes of a program from a state

## Main results

* `Program.EndsFrom.bind`: outcomes compose
* `Program.EndsFrom.perform`: a call that adds a layer is accepted if its kind infers a type
-/

namespace TensorEngine.Lowering.Program

variable {ε ε' α β : Type} {program : Program ε α} {state : State}

/-- From the state, the program ends with a result and a state as promised, or with an error that is
fair. -/
def EndsFrom (program : Program ε α) (state : State) (fair : ε → Prop) (post : α → State → Prop) :
    Prop :=
  match program.run state with
  | (.ok a, next) => post a next
  | (.error e, _) => fair e

namespace EndsFrom

variable {fair : ε → Prop} {post : α → State → Prop}

/-- A program ends as promised if each result is as promised and each error is fair. -/
theorem of_outcomes (result : ∀ a next, program.run state = (.ok a, next) → post a next)
    (error : ∀ e next, program.run state = (.error e, next) → fair e) :
    program.EndsFrom state fair post := by
  unfold EndsFrom
  rcases ran : program.run state with ⟨e | a, next⟩
  · exact error e next ran
  · exact result a next ran

theorem result (h : program.EndsFrom state fair post) {a : α} {next : State}
    (ran : program.run state = (.ok a, next)) : post a next := by
  rwa [EndsFrom, ran] at h

theorem error (h : program.EndsFrom state fair post) {e : ε} {next : State}
    (ran : program.run state = (.error e, next)) : fair e := by
  rwa [EndsFrom, ran] at h

theorem mono {post' : α → State → Prop} (h : program.EndsFrom state fair post)
    (weaker : ∀ a next, post a next → post' a next) : program.EndsFrom state fair post' :=
  .of_outcomes (fun a next ran => weaker a next (h.result ran)) fun _ _ ran => h.error ran

theorem fairly {fair' : ε → Prop} (h : program.EndsFrom state fair post)
    (weaker : ∀ e, fair e → fair' e) : program.EndsFrom state fair' post :=
  .of_outcomes (fun _ _ ran => h.result ran) fun e _ ran => weaker e (h.error ran)

theorem done {a : α} (h : post a state) : (done a : Program ε α).EndsFrom state fair post :=
  h

theorem pure {a : α} (h : post a state) : (Pure.pure a : Program ε α).EndsFrom state fair post :=
  h

/-- A program that reads the state ends as it does for the state it starts from. -/
theorem inspect {next : State → Program ε α} (h : (next state).EndsFrom state fair post) :
    (inspect next).EndsFrom state fair post :=
  h

/-- Programs that go on with answers end as the second part does. -/
theorem bind {next : α → Program ε β} {post' : β → State → Prop}
    (first : program.EndsFrom state fair post)
    (later : ∀ a middle, post a middle → (next a).EndsFrom middle fair post') :
    (program >>= next).EndsFrom state fair post' := by
  rw [EndsFrom, run_bind]
  rcases ran : program.run state with ⟨e | a, middle⟩
  · exact first.error ran
  · exact later a middle (first.result ran)

/-- A program goes on with an answer that does not depend on the state. -/
theorem ofExcept_bind {x : Except ε α} {a : α} {next : α → Program ε β}
    {post' : β → State → Prop} (accepted : x = .ok a)
    (later : (next a).EndsFrom state fair post') :
    (Program.ofExcept x >>= next).EndsFrom state fair post' := by
  subst accepted
  exact later

/-- A program goes on with what it reads of the state. -/
theorem gets_bind {f : State → α} {next : α → Program ε β} {post' : β → State → Prop}
    (later : (next (f state)).EndsFrom state fair post') :
    (gets f >>= next).EndsFrom state fair post' :=
  later

/-- Both branches of a condition go on in the same way. -/
theorem ite_bind {c : Prop} [Decidable c] {other : Program ε α} {next : α → Program ε β}
    {post' : β → State → Prop} (branch : (if c then program else other).EndsFrom state fair post)
    (later : ∀ a middle, post a middle → (next a).EndsFrom middle fair post') :
    (if c then program >>= next else other >>= next).EndsFrom state fair post' := by
  split at branch
  next h =>
    rw [if_pos h]
    exact branch.bind later
  next h =>
    rw [if_neg h]
    exact branch.bind later

theorem mapError {f : ε → ε'} {fair' : ε' → Prop}
    (h : program.EndsFrom state (fun e => fair' (f e)) post) :
    (program.mapError f).EndsFrom state fair' post := by
  rw [EndsFrom, Program.mapError, run_resume]
  rcases ran : program.run state with ⟨e | a, next⟩
  · exact h.error ran
  · exact h.result ran

/-- A call that adds a layer is accepted if its kind infers a type from those of its operands. -/
theorem perform {e : Network.Edit} {kind : LayerKind} {fair : RuleError → Prop}
    {post : TensorId → State → Prop} (adds : e.kind? = some kind) {operands : List TensorType}
    {type : TensorType} (known : state.network.OperandTypes e.inputs operands)
    (infers : kind.Infers operands type)
    (h : post state.network.nextId { state with
      network := (state.network.pushLayer e.name kind e.inputs type.dtype type.dims).2 }) :
    (Lowering.perform e).EndsFrom state fair post := by
  have applied := (Network.call_eq_ok_iff adds).mpr ⟨operands, type, known, infers, rfl, rfl⟩
  have ran := run_perform_eq_ok_iff.mpr (State.edit_eq_ok_iff.mpr ⟨_, applied, rfl⟩)
  have accepted : (Program.perform e).EndsFrom state (fun e => fair (.network e)) post := by
    rw [EndsFrom, ran]
    exact h
  exact accepted.mapError

/-- A call that adds a layer is refused if its kind infers no type from those of its operands. -/
theorem perform_refused {e : Network.Edit} {kind : LayerKind} {fair : RuleError → Prop}
    {post : TensorId → State → Prop} (adds : e.kind? = some kind)
    (refused : ∀ operands type, state.network.OperandTypes e.inputs operands →
      ¬kind.Infers operands type)
    (h : ∀ e, fair (.network e)) : (Lowering.perform e).EndsFrom state fair post := by
  have ends : (Program.perform e).EndsFrom state (fun e => fair (.network e)) post := by
    rcases ran : (Program.perform e).run state with ⟨result, next⟩
    rw [EndsFrom, ran]
    cases result with
    | error => exact h _
    | ok id =>
      obtain ⟨network, applied, -⟩ := run_perform_eq_ok ran
      obtain ⟨operands, type, known, infers, -⟩ := (Network.call_eq_ok_iff adds).mp applied
      exact absurd infers (refused operands type known)
  exact ends.mapError

/-! ### Reading the network -/

section Reading

variable {fair : RuleError → Prop} {post : β → State → Prop} {type : TensorType} {x : TensorId}

theorem tensorOf_bind {next : NetworkTensor → Program RuleError β}
    (recorded : state.network.types[x.index]? = some type)
    (later : ∀ name, (next ⟨name, type.dtype, type.dims⟩).EndsFrom state fair post) :
    (tensorOf x >>= next).EndsFrom state fair post := by
  obtain ⟨name, known⟩ := Network.tensor_eq_ok_of_types recorded
  have read : (tensorOf x).EndsFrom state fair fun t middle => (next t).EndsFrom middle fair post := by
    refine .inspect ?_
    rw [known]
    exact .done (later name)
  exact read.bind fun _ _ held => held

theorem dimsOf_bind {next : Dims → Program RuleError β}
    (recorded : state.network.types[x.index]? = some type)
    (later : (next type.dims).EndsFrom state fair post) :
    (dimsOf x >>= next).EndsFrom state fair post := by
  have read : (dimsOf x).EndsFrom state fair fun dims middle =>
      (next dims).EndsFrom middle fair post :=
    tensorOf_bind recorded fun _ => .done later
  exact read.bind fun _ _ held => held

theorem requireStatic_bind {dims : Dims} {activity : String} {next : Unit → Program RuleError β}
    (static : dims.isStatic) (later : (next ()).EndsFrom state fair post) :
    (requireStatic dims activity >>= next).EndsFrom state fair post := by
  rw [requireStatic, if_pos static]
  exact later

end Reading

end EndsFrom

end TensorEngine.Lowering.Program
