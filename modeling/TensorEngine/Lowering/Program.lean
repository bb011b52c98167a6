import TensorEngine.Device.Descriptor
import TensorEngine.Lowering.Error

/-!
# Lowering programs

Lowering builds a network and a table that binds values of the graph to its tensors. What a rule
may do to them is a small set of steps: read the state, edit the network, freeze a constant, bind
a value, and note an observation in a journal. A program is a finite tree of such steps that goes
on with their answers and from the state that they leave; when a step is refused, the program decides
what to make of it.

## Main definitions

* `Lowering.State`: the network, the bindings and the journal
* `Lowering.Program`, `Lowering.Program.run`: programs and their effect
* `Lowering.Program.resume`: programs one after the other, also behind an error
-/

namespace TensorEngine.Lowering

/-- What a lowering is asked for. -/
structure Settings where
  /-- Some extents of inputs are unknown until the engine runs. -/
  dynamicShape : Bool
  device : DeviceDescriptor
  deriving DecidableEq, Repr

/-- The tensors that values are bound to, in the order of binding. -/
abbrev Bindings := List (ValueId × TensorId)

/-- Something a rule found out. -/
inductive Observation
  | nothing
  | flag (value : Bool)
  | number (value : Nat)
  | int (value : Int)
  | ints (values : List Int)
  | double (pattern : UInt64)
  | tensor (value : Tensor)
  | device (device : DeviceDescriptor)
  | binding (tensor : Option TensorId)
  | tableSize (count : Nat)
  | dims (dims : Dims)
  | id (id : TensorId)
  | failure (error : RuleError)
  deriving DecidableEq, Repr

/-- What a lowering has built so far. -/
structure State where
  settings : Settings
  network : Network
  bindings : Bindings
  /-- How many constants were frozen. -/
  frozen : Nat
  /-- What rules observed, earliest first. -/
  journal : List Observation
  deriving DecidableEq, Repr

namespace State

/-- The state before anything is lowered. -/
def start (settings : Settings) : State :=
  ⟨settings, .empty, [], 0, []⟩

/-- The tensor that a value is bound to. -/
def binding? (state : State) (id : ValueId) : Option TensorId :=
  state.bindings.lookup id

/-- Edits the network. -/
def edit (state : State) (e : Network.Edit) : Except NetworkError TensorId × State :=
  let (answer, network) := state.network.call e
  (answer, { state with network := network })

/-- Adds a constant layer under a name of its own. -/
def freeze (state : State) (weights : Tensor) : TensorId × State :=
  let name := s!"[Freeze Tensor {state.frozen}]"
  let (id, network) := state.network.addConstant name weights
  (id, { state with network := network, frozen := state.frozen + 1 })

/-- Binds a value to a tensor of the network; a value is bound once. -/
def bind (state : State) (value : ValueId) (tensor : TensorId) :
    Except RuleError TensorId × State :=
  match state.network.tensor tensor with
  | .error e => (.error (.network e), state)
  | .ok _ =>
    if (state.binding? value).isSome then (.error (.invalid (.alreadyBound value)), state)
    else (.ok tensor, { state with bindings := state.bindings ++ [(value, tensor)] })

/-- Notes an observation. -/
def note (state : State) (observation : Observation) : State :=
  { state with journal := state.journal ++ [observation] }

end State

/-- A finite program over the state of a lowering. -/
inductive Program (ε α : Type) : Type
  /-- Ends with a result. -/
  | done (result : α)
  /-- Ends with an error. -/
  | refuse (error : ε)
  /-- Reads the state. -/
  | inspect (next : State → Program ε α)
  /-- Notes an observation. -/
  | note (observation : Observation) (next : Program ε α)
  /-- Edits the network. -/
  | edit (e : Network.Edit) (next : Except NetworkError TensorId → Program ε α)
  /-- Freezes a constant. -/
  | freeze (weights : Tensor) (next : TensorId → Program ε α)
  /-- Binds a value. -/
  | bind (value : ValueId) (tensor : TensorId) (next : Except RuleError TensorId → Program ε α)

namespace Program

variable {ε ε' α β : Type}

/-- The result of a program, and the state after it. -/
def run : Program ε α → State → Except ε α × State
  | .done result, state => (.ok result, state)
  | .refuse error, state => (.error error, state)
  | .inspect next, state => (next state).run state
  | .note observation next, state => next.run (state.note observation)
  | .edit e next, state =>
    let (answer, state) := state.edit e
    (next answer).run state
  | .freeze weights next, state =>
    let (id, state) := state.freeze weights
    (next id).run state
  | .bind value tensor next, state =>
    let (answer, state) := state.bind value tensor
    (next answer).run state

/-- Goes on with `next` after the result, and with `recover` after an error. -/
def resume (program : Program ε α) (next : α → Program ε' β) (recover : ε → Program ε' β) :
    Program ε' β :=
  match program with
  | .done result => next result
  | .refuse error => recover error
  | .inspect k => .inspect fun state => (k state).resume next recover
  | .note observation k => .note observation (k.resume next recover)
  | .edit e k => .edit e fun answer => (k answer).resume next recover
  | .freeze weights k => .freeze weights fun id => (k id).resume next recover
  | .bind value tensor k => .bind value tensor fun answer => (k answer).resume next recover

/-- Goes on with the result. -/
def andThen (program : Program ε α) (next : α → Program ε β) : Program ε β :=
  program.resume next .refuse

instance : Monad (Program ε) where
  pure := .done
  bind := andThen

/-- The same program with its errors seen as others. -/
def mapError (program : Program ε α) (f : ε → ε') : Program ε' α :=
  program.resume .done fun error => .refuse (f error)

/-- Ends with a result or an error. -/
def ofExcept : Except ε α → Program ε α
  | .ok result => .done result
  | .error error => .refuse error

/-- A part of the state. -/
def gets (f : State → α) : Program ε α :=
  .inspect fun state => .done (f state)

/-- Edits the network, failing if it refuses. -/
def perform (e : Network.Edit) : Program NetworkError TensorId :=
  .edit e ofExcept

/-- Freezes a constant. -/
def frozen (weights : Tensor) : Program ε TensorId :=
  .freeze weights .done

/-- Binds a value, failing if that is refused. -/
def associate (value : ValueId) (tensor : TensorId) : Program RuleError TensorId :=
  .bind value tensor ofExcept

/-- The state after resuming is the state after resuming from where the program ended. -/
theorem run_resume (program : Program ε α) (next : α → Program ε' β)
    (recover : ε → Program ε' β) (state : State) :
    (program.resume next recover).run state =
      match program.run state with
      | (.ok result, state) => (next result).run state
      | (.error error, state) => (recover error).run state := by
  induction program generalizing state with
  | done | refuse => rfl
  | inspect k ih => exact ih state state
  | note observation k ih => exact ih _
  | edit e k ih => exact ih _ _
  | freeze weights k ih => exact ih _ _
  | bind value tensor k ih => exact ih _ _

theorem run_bind (program : Program ε α) (next : α → Program ε β) (state : State) :
    (program >>= next).run state =
      match program.run state with
      | (.ok result, state) => (next result).run state
      | (.error error, state) => (.error error, state) :=
  run_resume program next .refuse state

end Program

end TensorEngine.Lowering
