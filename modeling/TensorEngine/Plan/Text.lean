import TensorEngine.Network.Text
import TensorEngine.Plan.Basic

/-!
# Plans as JSON

The engine bytes of a plan are its compact JSON text, with the fields in a fixed order.

## Main definitions

* `EnginePlan.bytes`, `EnginePlan.parse?`: the engine bytes of a plan, and back
* `referenceBuilder`: the builder of the reference backend
-/

namespace TensorEngine

namespace Capability

/-- The value of a capability. -/
def toJson (c : Capability) : Json :=
  .ofMembers [("major", .ofInt c.major.toInt), ("minor", .ofInt c.minor.toInt)]

/-- The capability that a value describes. -/
def ofJson? (value : Json) : Option Capability := do
  let [major, minor] ← value.record? ["major", "minor"] | none
  let major ← Json.requiredField? Json.int32? major
  let minor ← Json.requiredField? Json.int32? minor
  return ⟨major, minor⟩

end Capability

namespace BindingSpec

/-- The value of what is bound to a slot. -/
def toJson (spec : BindingSpec) : Json :=
  .ofMembers [("name", .ofString spec.name.text), ("is_input", .bool spec.isInput),
    ("dtype", spec.dtype.toJson), ("dims", Dims.toJson spec.dims)]

/-- What is bound to a slot, as a value describes it. -/
def ofJson? (value : Json) : Option BindingSpec := do
  let [name, isInput, dtype, dims] ← value.record? ["name", "is_input", "dtype", "dims"] | none
  let name ← Json.requiredField? Json.text? name
  let isInput ← Json.requiredField? Json.bool? isInput
  let dtype ← Json.requiredField? DType.ofJson? dtype
  let dims ← Json.requiredField? Dims.ofJson? dims
  return ⟨⟨name⟩, isInput, dtype, dims⟩

end BindingSpec

namespace PlanBinding

/-- The value of a slot. -/
def toJson (binding : PlanBinding) : Json :=
  .ofMembers [("spec", binding.spec.toJson), ("tensor", binding.tensor.toJson)]

/-- The slot that a value describes. -/
def ofJson? (value : Json) : Option PlanBinding := do
  let [spec, tensor] ← value.record? ["spec", "tensor"] | none
  let spec ← Json.requiredField? BindingSpec.ofJson? spec
  let tensor ← Json.requiredField? TensorId.ofJson? tensor
  return ⟨spec, tensor⟩

end PlanBinding

namespace EnginePlan

/-- The names of the fields of a plan. -/
def fieldNames : List String :=
  ["format_version", "engine_name", "built_for", "network", "bindings"]

/-- The value of a plan. -/
def toJson (plan : EnginePlan) : Json :=
  .ofMembers [("format_version", .ofNat plan.formatVersion),
    ("engine_name", .ofString plan.engineName), ("built_for", plan.builtFor.toJson),
    ("network", plan.network.toJson), ("bindings", .ofList PlanBinding.toJson plan.bindings)]

/-- The plan that a value describes. -/
def ofJson? (value : Json) : Option EnginePlan := do
  let [version, name, capability, network, bindings] ← value.record? fieldNames | none
  let version ← Json.requiredField? (Json.natBelow? 0x100000000) version
  let name ← Json.requiredField? Json.text? name
  let capability ← Json.requiredField? Capability.ofJson? capability
  let network ← Json.requiredField? Network.ofJson? network
  let bindings ← Json.requiredField? (Json.list? PlanBinding.ofJson?) bindings
  return ⟨version, name, capability, network, bindings⟩

/-- The engine bytes of a plan. -/
def bytes (plan : EnginePlan) : Bytes :=
  plan.toJson.bytes

/-- The plan that engine bytes write. -/
def parse? (text : Bytes) : Option EnginePlan :=
  (Json.parse? text).bind ofJson?

end EnginePlan

/-- The builder of the reference backend: its engines are the texts of plans. -/
def referenceBuilder : EngineBuilder where
  name := "reference"
  supportsDynamicShapes := true
  maxRank := planRankLimit
  build := fun network config device => do
    let plan ← EnginePlan.ofNetwork network config device.capability
    return ⟨device, plan.bytes⟩

end TensorEngine
