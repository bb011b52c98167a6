import TensorEngine.Binding
import TensorEngine.Build.Builder
import TensorEngine.Sorting

/-!
# Plans

The engines of the reference backend are plans: the network itself, the capability it was built for
and, for every slot, which tensor of the network is bound to it.

## Main definitions

* `EnginePlan`: plans
* `EnginePlan.ofNetwork`: the plan of a network, when the network is within the limits
-/

namespace TensorEngine

/-- A slot of a plan: what is bound to it, and the tensor it stands for. -/
structure PlanBinding where
  spec : BindingSpec
  tensor : TensorId
  deriving DecidableEq, Repr

/-- An engine of the reference backend. -/
structure EnginePlan where
  formatVersion : Nat
  engineName : String
  builtFor : Capability
  network : Network
  /-- The bindings in the order of their slots. -/
  bindings : List PlanBinding
  deriving DecidableEq, Repr

/-- The version of the plan format. -/
def planFormatVersion : Nat := 1

/-- The largest rank of a tensor that a layer may compute. -/
def planRankLimit : Nat := 8

/-- The tensor of a network, as far as a builder is concerned. -/
def builtTensor (network : Network) (id : TensorId) : Except BuildError NetworkTensor :=
  (network.tensor id).mapError fun error => .unsupported (.network error)

/-- The bytes of a layer's constant. -/
def Layer.constantBytes (layer : Layer) : Nat :=
  match layer.kind with
  | .constant weights => weights.data.length
  | _ => 0

/-- The layer computes, rather than holds a constant. -/
def Layer.computes (layer : Layer) : Bool :=
  match layer.kind with
  | .constant _ => false
  | _ => true

/-- Layers compute in single precision, and in half precision where that is allowed. -/
def BuildConfig.accepts (config : BuildConfig) (dtype : DType) : Bool :=
  dtype = .f32 || (config.allowHalf && dtype = .f16)

/-- Every layer is within the limits. -/
def checkLayers (network : Network) (config : BuildConfig) : List Layer → Except BuildError Unit
  | [] => .ok ()
  | layer :: rest => do
    let output ← builtTensor network layer.output
    if planRankLimit < output.dims.rank then
      throw (.unsupported (.layerRank layer.name output.dims.rank planRankLimit))
    if layer.computes && !config.accepts output.dtype then
      throw (.unsupportedDType layer.name output.dtype)
    checkLayers network config rest

/-- The constants fit in the workspace. -/
def checkWorkspace (network : Network) (config : BuildConfig) : Except BuildError Unit :=
  let required := network.layers.foldr (fun layer total => layer.constantBytes + total) 0
  if config.maxWorkspaceBytes < required then
    .error (.resourceExhausted required config.maxWorkspaceBytes)
  else .ok ()

/-- The binding of an input or output of the network. -/
def planBinding (network : Network) (isInput : Bool) (id : TensorId) :
    Except BuildError PlanBinding := do
  let t ← builtTensor network id
  let _ ← (BindingName.mk t.name).logicalIndex.mapError .binding
  return ⟨⟨⟨t.name⟩, isInput, t.dtype, t.dims⟩, id⟩

/-- The bindings in the order of their names. -/
def sortedByName (bindings : List PlanBinding) : List PlanBinding :=
  sorted (fun a b => a.spec.name.text ≤ b.spec.name.text) bindings

/-- The plan of a network. -/
def EnginePlan.ofNetwork (network : Network) (config : BuildConfig) (capability : Capability) :
    Except BuildError EnginePlan := do
  if network.outputs.isEmpty then throw .emptyNetwork
  checkLayers network config network.layers
  checkWorkspace network config
  let inputs ← network.inputs.mapM (planBinding network true)
  let outputs ← network.outputs.mapM (planBinding network false)
  return {
    formatVersion := planFormatVersion
    engineName := config.engineName
    builtFor := capability
    network := network
    -- Names are ordered as texts, which is not the logical order once an index has two digits.
    bindings := sortedByName (inputs ++ outputs) }

end TensorEngine
