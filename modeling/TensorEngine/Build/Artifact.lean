import TensorEngine.Device.Descriptor

/-!
# Engine files

A build yields an engine, a byte string that only its backend understands, and the device it was
built for. It is kept as two byte strings: the device record, which may be missing, and the engine.
In a file the length of the record, as a 32-bit word, comes first, then the record, then the
engine.

## Main definitions

* `EngineArtifact`, `EnginePayload`: what a build yields, and what is kept of it
* `EnginePayload.toFile`, `EnginePayload.ofFile`: files
-/

namespace TensorEngine

/-- An engine in two parts. -/
structure EnginePayload where
  /-- The record of the device; it is empty when none was recorded. -/
  deviceRecord : Bytes
  engine : Bytes
  deriving DecidableEq, Repr

/-- An engine and the device it was built for. -/
structure EngineArtifact where
  device : DeviceDescriptor
  engine : Bytes
  deriving DecidableEq, Repr

/-- What is kept of a build. -/
def EngineArtifact.toPayload (artifact : EngineArtifact) : EnginePayload :=
  ⟨artifact.device.encode, artifact.engine⟩

/-- Why a file is not an engine file. -/
inductive PayloadError
  | truncated (offset needed : Nat)
  deriving DecidableEq, Repr

/-- The wording of a payload error. -/
def PayloadError.message : PayloadError → String
  | .truncated offset needed =>
    s!"engine payload truncated at byte {offset}: need {needed} more bytes"

namespace EnginePayload

/-- An engine without a device record. -/
def bare (engine : Bytes) : EnginePayload :=
  ⟨[], engine⟩

/-- The bytes of a file. -/
def toFile (payload : EnginePayload) : Bytes :=
  Bytes.ofNat 4 payload.deviceRecord.length ++ payload.deviceRecord ++ payload.engine

/-- The two parts of a file. -/
def ofFile (file : Bytes) : Except PayloadError EnginePayload :=
  if file.length < 4 then .error (.truncated 0 (4 - file.length))
  else
    let recordLength := Bytes.toNat (file.take 4)
    let rest := file.drop 4
    if rest.length < recordLength then .error (.truncated 4 (recordLength - rest.length))
    else .ok ⟨rest.take recordLength, rest.drop recordLength⟩

end EnginePayload

end TensorEngine
