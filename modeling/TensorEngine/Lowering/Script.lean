import TensorEngine.Lowering.Layers

/-!
# Scripted rules

A rule given as data: a list of actions, carried out one after the other. The tensors that actions
yield are kept in numbered registers, and what every action yields is noted. The first action that
fails ends the script, unless it is only attempted.

## Main definitions

* `Action`, `Action.program`: what a script can do
* `Script.rule`: the rule that carries out a script
-/

namespace TensorEngine.Lowering

/-- One action of a script. Positions count the inputs of the node. -/
inductive Action
  | int (position : Nat)
  | ints (position : Nat)
  | scalar (position : Nat)
  | constantTensor (position : Nat)
  | isConstant (position : Nat)
  | isNone (position : Nat)
  | argumentCount
  | dynamicShape
  | device
  | binding (value : ValueId)
  | tableSize
  | dims (register : Nat)
  | fail (text : String)
  | failDynamic (text : String)
  /-- Binds an output of the node. -/
  | associate (output register : Nat)
  /-- Binds any value. -/
  | associateValue (value : ValueId) (register : Nat)
  | markOutput (register : Nat) (name : String)
  /-- Keeps the network tensor that an input is. -/
  | tensor (position : Nat)
  /-- Keeps the tensor of an input, freezing a constant. -/
  | freeze (position : Nat)
  /-- Keeps an id, whether there is such a tensor or not. -/
  | raw (id : TensorId)
  | addInput (name : String) (dtype : DType) (dims : Dims)
  | addConstant (name : String) (weights : Tensor)
  | addShuffle (name : String) (register : Nat) (spec : ShuffleSpec)
  | addElementWise (name : String) (lhs rhs : Nat) (op : ElementWiseOp)
  /-- Carries out an action and goes on whatever comes of it. -/
  | attempt (action : Action)
  deriving DecidableEq, Repr

/-- The actions of a rule. -/
abbrev Script := List Action

/-- The tensors kept so far. -/
abbrev Registers := List TensorId

/-- The input at a position. -/
def scriptArgument (arguments : List Argument) (position : Nat) : Except RuleError Argument :=
  match arguments[position]? with
  | some argument => .ok argument
  | none => .error (.invalid (.other "no such argument"))

/-- The tensor in a register. -/
def scriptTensor (registers : Registers) (register : Nat) : Except RuleError TensorId :=
  match registers[register]? with
  | some tensor => .ok tensor
  | none => .error (.invalid (.other "no such register"))

/-- The output of the node at a position. -/
def scriptOutput (node : Node) (position : Nat) : Except RuleError ValueId :=
  match node.outputs[position]? with
  | some id => .ok id
  | none => .error (.invalid (.other "no such output"))

/-- What an action yields, and the registers after it. -/
abbrev Yield := Program RuleError (Observation × Registers)

/-- Looks at the input at a position. -/
def inspectArgument (arguments : List Argument) (registers : Registers) (position : Nat)
    (look : Argument → Except RuleError Observation) : Yield := do
  let argument ← scriptArgument arguments position
  let observation ← look argument
  return (observation, registers)

/-- Keeps the tensor that a program yields. -/
def keep (registers : Registers) (program : Program RuleError TensorId) : Yield := do
  let tensor ← program
  return (.id tensor, registers ++ [tensor])

/-- What an action does. -/
def Action.program (node : Node) (arguments : List Argument) (registers : Registers) :
    Action → Yield
  | .int position =>
    inspectArgument arguments registers position fun a => a.int.map .int
  | .ints position =>
    inspectArgument arguments registers position fun a => a.ints.map .ints
  | .scalar position =>
    inspectArgument arguments registers position fun a => a.scalar.map .double
  | .constantTensor position =>
    inspectArgument arguments registers position fun a => a.constantTensor.map .tensor
  | .isConstant position =>
    inspectArgument arguments registers position fun a => .ok (.flag a.isConstant)
  | .isNone position =>
    inspectArgument arguments registers position fun a => .ok (.flag a.isNone)
  | .argumentCount => .done (.number arguments.length, registers)
  | .dynamicShape => .inspect fun state =>
    .done (.flag state.settings.dynamicShape, registers)
  | .device => .inspect fun state => .done (.device state.settings.device, registers)
  | .binding value => .inspect fun state => .done (.binding (state.binding? value), registers)
  | .tableSize => .inspect fun state => .done (.tableSize state.bindings.length, registers)
  | .dims register => do
    let tensor ← scriptTensor registers register
    let dims ← dimsOf tensor
    return (.dims dims, registers)
  | .fail text => .refuse (.invalid (.other text))
  | .failDynamic text => .refuse (.dynamicShape (.other text))
  | .associate output register => do
    let value ← scriptOutput node output
    let tensor ← scriptTensor registers register
    let id ← Program.associate value tensor
    return (.id id, registers)
  | .associateValue value register => do
    let tensor ← scriptTensor registers register
    let id ← Program.associate value tensor
    return (.id id, registers)
  | .markOutput register name => do
    let tensor ← scriptTensor registers register
    let _ ← perform (.markOutput tensor name)
    return (.nothing, registers)
  | .tensor position => keep registers do
    let argument ← scriptArgument arguments position
    argument.networkTensor
  | .freeze position => keep registers do
    let argument ← scriptArgument arguments position
    argument.tensorOrFreeze fun cause => cause
  | .raw id => keep registers (.done id)
  | .addInput name dtype extents => keep registers (perform (.addInput name dtype extents))
  | .addConstant name weights => keep registers (perform (.addConstant name weights))
  | .addShuffle name register spec => keep registers do
    let tensor ← scriptTensor registers register
    perform (.addShuffle name tensor spec)
  | .addElementWise name lhs rhs op => keep registers do
    let lhs ← scriptTensor registers lhs
    let rhs ← scriptTensor registers rhs
    perform (.addElementWise name lhs rhs op)
  | .attempt action =>
    (action.program node arguments registers).resume .done fun error =>
      .done (.failure error, registers)

/-- Carries out the actions and notes what each of them yields. -/
def Script.program (node : Node) (arguments : List Argument) :
    Registers → Script → Program RuleError Unit
  | _, [] => .done ()
  | registers, action :: rest =>
    (action.program node arguments registers).resume
      (fun (observation, registers) =>
        .note observation (Script.program node arguments registers rest))
      -- The error is noted as well, before it ends the script.
      fun error => .note (.failure error) (.refuse error)

/-- The rule that carries out a script. -/
def Script.rule (script : Script) : Rule := fun node arguments =>
  script.program node arguments []

end TensorEngine.Lowering
