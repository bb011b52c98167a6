import TensorEngine.Device.Descriptor
import TensorEngine.Text.Integer

/-!
# Capabilities as text

A capability is given as two integers with a point between them; `sm_` may stand in front.
-/

namespace TensorEngine

/-- Why a text is not a capability. -/
inductive CapabilityFault
  | noPoint (text : String)
  | major (fault : Text.IntegerFault)
  | minor (fault : Text.IntegerFault)
  deriving DecidableEq, Repr

/-- The wordings of a fault and of its causes, outermost first. -/
def CapabilityFault.messages : CapabilityFault → List String
  | .noPoint text => [s!"invalid device capability: {text} (expected MAJOR.MINOR)"]
  | .major fault => ["invalid capability major", fault.message]
  | .minor fault => ["invalid capability minor", fault.message]

namespace Capability

/-- The characters without `sm_` in front. -/
def withoutMark : List Char → List Char
  | 's' :: 'm' :: '_' :: rest => rest
  | cs => cs

/-- The capability that a text writes. -/
def parse (text : String) : Except CapabilityFault Capability := do
  let cs := withoutMark text.toList
  let major := cs.takeWhile (· != '.')
  match cs.dropWhile (· != '.') with
  | [] => throw (.noPoint (String.ofList cs))
  | _ :: minor =>
    let major ← (Text.readInt32 (String.ofList major)).mapError .major
    let minor ← (Text.readInt32 (String.ofList minor)).mapError .minor
    return ⟨major, minor⟩

end Capability

end TensorEngine
