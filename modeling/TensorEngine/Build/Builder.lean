import TensorEngine.Binding
import TensorEngine.Build.Artifact
import TensorEngine.Build.Config
import TensorEngine.Lowering.Graph

/-!
# Builders

A builder turns a finished network into an engine. It states beforehand whether it can handle
unknown extents and tensors of which rank, and is only given networks within those limits.

## Main definitions

* `EngineBuilder`: a builder and its limits
* `networkFor`, `compile`: the network that a builder is given for a graph, and what it makes of it
-/

namespace TensorEngine

/-- Something a builder cannot handle. -/
inductive UnsupportedFeature
  | dynamicShapes (builder : String)
  | tensorRank (tensor : String) (rank : Nat) (builder : String) (limit : Nat)
  | layerRank (layer : String) (rank limit : Nat)
  | network (error : NetworkError)
  deriving DecidableEq, Repr

/-- The wording of an unsupported feature. -/
def UnsupportedFeature.message : UnsupportedFeature → String
  | .dynamicShapes builder => s!"backend `{builder}` does not support dynamic input shapes"
  | .tensorRank tensor rank builder limit =>
    s!"tensor `{tensor}` has rank {rank}, backend `{builder}` supports up to {limit}"
  | .layerRank layer rank limit => s!"layer `{layer}` has rank {rank}, limit is {limit}"
  | .network error => error.message

/-- Why a network is not built. -/
inductive BuildError
  | emptyNetwork
  | unsupportedDType (layer : String) (dtype : DType)
  | unsupported (feature : UnsupportedFeature)
  | resourceExhausted (required limit : Nat)
  | binding (error : MalformedBindingName)
  | serialize (reason : String)
  deriving DecidableEq, Repr

/-- The wording of a build error. -/
def BuildError.message : BuildError → String
  | .emptyNetwork => "network has no outputs"
  | .unsupportedDType layer dtype => s!"layer `{layer}` uses unsupported dtype {dtype}"
  | .unsupported feature => s!"unsupported network feature: {feature.message}"
  | .resourceExhausted required limit =>
    s!"engine needs {required} bytes of workspace, limit is {limit}"
  | .binding error => error.message
  | .serialize reason => s!"failed to serialize engine: {reason}"

/-- A builder: its name, its limits, and what it makes of a network. -/
structure EngineBuilder where
  name : String
  supportsDynamicShapes : Bool
  maxRank : Nat
  build : Network → BuildConfig → DeviceDescriptor → Except BuildError EngineArtifact

/-- Why a graph is not compiled. -/
inductive CompileError
  | lowering (error : LoweringError)
  | build (error : BuildError)
  deriving DecidableEq, Repr

/-- The wording of a compile error. -/
def CompileError.message : CompileError → String
  | .lowering error => error.message
  | .build error => s!"engine build failed: {error.message}"

open Lowering

/-- The network that a builder is given for a graph. -/
def networkFor (table : RuleTable) (settings : Settings) (builder : EngineBuilder) (graph : Graph) :
    Except CompileError Network := do
  if settings.dynamicShape && !builder.supportsDynamicShapes then
    throw (.build (.unsupported (.dynamicShapes builder.name)))
  let lowered ← (lower table settings graph).mapError .lowering
  match lowered.network.tensors.find? fun t => builder.maxRank < t.dims.rank with
  | some t =>
    throw (.build (.unsupported (.tensorRank t.name t.dims.rank builder.name builder.maxRank)))
  | none => return lowered.network

/-- The engine that a builder makes of a graph. -/
def compile (table : RuleTable) (settings : Settings) (builder : EngineBuilder)
    (config : BuildConfig) (graph : Graph) : Except CompileError EngineArtifact := do
  let network ← networkFor table settings builder graph
  (builder.build network config settings.device).mapError .build

/-- A builder that makes the same engine of every network, or always fails. -/
def EngineBuilder.constant (name : String) (supportsDynamicShapes : Bool) (maxRank : Nat)
    (result : Except BuildError Bytes) : EngineBuilder where
  name := name
  supportsDynamicShapes := supportsDynamicShapes
  maxRank := maxRank
  build := fun _ _ device => result.map (⟨device, ·⟩)

end TensorEngine
