import TensorEngine.Json.Record

/-!
# Build configuration

What a builder is told besides the network and the device. In a configuration file every field may
be left out.
-/

namespace TensorEngine

/-- The limits and the label of a build. -/
structure BuildConfig where
  maxWorkspaceBytes : Nat
  /-- Layers may compute in half precision. -/
  allowHalf : Bool
  engineName : String
  deriving DecidableEq, Repr

namespace BuildConfig

/-- The configuration when nothing is given. -/
def standard : BuildConfig :=
  ⟨0x40000000, false, "engine"⟩

/-- The names of the fields. -/
def fieldNames : List String :=
  ["max_workspace_bytes", "allow_fp16", "engine_name"]

/-- The value of a configuration. -/
def toJson (config : BuildConfig) : Json :=
  .ofMembers [("max_workspace_bytes", .ofNat config.maxWorkspaceBytes),
    ("allow_fp16", .bool config.allowHalf), ("engine_name", .ofString config.engineName)]

/-- The configuration that a value describes. -/
def ofJson? (value : Json) : Option BuildConfig := do
  let [bytes, half, name] ← value.openRecord? fieldNames | none
  let bytes ← Json.fieldOr? standard.maxWorkspaceBytes Json.size? bytes
  let half ← Json.fieldOr? standard.allowHalf Json.bool? half
  let name ← Json.fieldOr? standard.engineName Json.text? name
  return ⟨bytes, half, name⟩

/-- The configuration of a file. -/
def parse? (text : Bytes) : Option BuildConfig :=
  (Json.parse? text).bind ofJson?

end BuildConfig

end TensorEngine
