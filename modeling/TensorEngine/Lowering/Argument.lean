import TensorEngine.Binary.Format
import TensorEngine.Lowering.Program

/-!
# Arguments of nodes

An input of a node reaches its rule either as a constant or as a tensor of the network.
-/

namespace TensorEngine.Lowering

/-- An input of a node. -/
inductive Argument
  | tensor (id : TensorId)
  | constant (value : Constant)
  deriving DecidableEq, Repr

namespace Argument

/-- The argument is a constant. -/
def isConstant : Argument → Bool
  | .constant _ => true
  | .tensor _ => false

/-- The argument is the constant that stands for none. -/
def isNone : Argument → Bool
  | .constant .none => true
  | _ => false

/-- The name of what an argument is. -/
def kind : Argument → String
  | .tensor _ => "a network tensor"
  | .constant c => c.kind

/-- The objection that something else was wanted. -/
def unexpected (argument : Argument) (wanted : String) : RuleError :=
  .invalid (.unexpectedArgument wanted argument.kind)

/-- The tensor of the network. -/
def networkTensor : Argument → Except RuleError TensorId
  | .tensor id => .ok id
  | argument => .error (argument.unexpected "network tensor")

/-- The value of an integer constant. -/
def int : Argument → Except RuleError Int
  | .constant (.int i) => .ok i
  | argument => .error (argument.unexpected "int")

/-- The values of a list of integers. -/
def ints : Argument → Except RuleError (List Int)
  | .constant (.ints is) => .ok is
  | argument => .error (argument.unexpected "int[]")

/-- The value of a number, as a double. -/
def scalar : Argument → Except RuleError UInt64
  | .constant (.int i) => .ok (Binary.doubleOfInt i)
  | .constant (.double pattern) => .ok pattern
  | argument => .error (argument.unexpected "Scalar")

/-- The constant tensor. -/
def constantTensor : Argument → Except RuleError Tensor
  | .constant (.tensor t) => .ok t
  | argument => .error (argument.unexpected "constant Tensor")

/-- A tensor of the network: a constant tensor becomes a constant layer. -/
def tensorOrFreeze {ε : Type} (ofRule : RuleError → ε) : Argument → Program ε TensorId
  | .tensor id => .done id
  | .constant (.tensor t) => .frozen t
  | argument => .refuse (ofRule (argument.unexpected "Tensor"))

end Argument

end TensorEngine.Lowering
