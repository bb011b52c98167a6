import TensorEngine.Backend.Basic
import TensorEngine.Engine.Error

/-!
# Engines

An engine is what a backend has loaded, together with the device it belongs to and with the slots
of its logical inputs and outputs. Callers count inputs and outputs from zero; the engine routes
them to the slots in which the backend expects them.

## Main definitions

* `Engine.bindingMaps`: the slots of inputs and outputs, when their indices are exactly `0, 1, …`
* `Engine.restore`: an engine from its two persisted parts
* `Engine.execute`, `Engine.toPayload`: running an engine, and persisting it
-/

namespace TensorEngine

/-- Pairs of a slot and a logical index, in the order of the slots. -/
abbrev SlotMap := List (Nat × Nat)

namespace SlotMap

/-- The logical index of a slot. -/
def logical? (map : SlotMap) (slot : Nat) : Option Nat :=
  map.lookup slot

/-- The slot of a logical index. -/
def slot? (map : SlotMap) (logical : Nat) : Option Nat :=
  (map.find? (·.2 == logical)).map (·.1)

end SlotMap

/-- An engine that is ready to run. -/
structure Engine where
  name : String
  device : DeviceDescriptor
  loaded : LoadedEngine
  inputs : SlotMap
  outputs : SlotMap

namespace Engine

/-- A name in which every point is replaced by an underscore. -/
def slug (name : String) : String :=
  String.ofList (name.toList.map fun c => if c = '.' then '_' else c)

/-- The name of the engine of a module. -/
def nameOf (moduleName : String) : String :=
  slug moduleName ++ "_engine"

/-- The module name of an engine that is restored without one. -/
def restoredName : String := "deserialized_trt"

/-- A slot with its binding and the logical index in its name. -/
structure IndexedSlot where
  slot : Nat
  index : Nat
  spec : BindingSpec
  deriving DecidableEq, Repr

/-- The binding of a slot and its logical index. -/
def indexedSlot (loaded : LoadedEngine) (slot : Nat) : Except EngineError IndexedSlot :=
  match loaded.binding? slot with
  | none => .error (.backend (.deserialize (.noBinding slot)))
  | some spec =>
    match spec.name.logicalIndex with
    | .ok index => .ok ⟨slot, index, spec⟩
    | .error e => .error (.malformedBindingName e)

/-- Every index is below `count` and occurs once; `seen` are the indices before. -/
def checkIndices (count : Nat) : (seen : List Nat) → List IndexedSlot → Except EngineError Unit
  | _, [] => .ok ()
  | seen, s :: rest =>
    if count ≤ s.index then .error (.bindingIndex s.spec.name s.index .pastCount)
    else if s.index ∈ seen then .error (.bindingIndex s.spec.name s.index .usedTwice)
    else checkIndices count (s.index :: seen) rest

/-- The slot map of slots. -/
def slotMap (slots : List IndexedSlot) : SlotMap :=
  slots.map fun s => (s.slot, s.index)

/-- The slots of inputs and of outputs. -/
def bindingMaps (loaded : LoadedEngine) : Except EngineError (SlotMap × SlotMap) := do
  let slots ← (List.range loaded.slotCount).mapM (indexedSlot loaded)
  let inputs := slots.filter (·.spec.isInput)
  let outputs := slots.filter (!·.spec.isInput)
  -- As many different indices as slots, all below their number, are `0, 1, …` in some order.
  checkIndices inputs.length [] inputs
  checkIndices outputs.length [] outputs
  return (slotMap inputs, slotMap outputs)

/-- A device runs what was built for a capability. -/
def requireCapability (device : DeviceDescriptor) (builtFor : Capability) :
    Except EngineError Unit :=
  if device.capability.canRun builtFor then .ok () else .error (.deviceMismatch device builtFor)

/-- Loads engine bytes for the active device. -/
def loadFor (backend : Backend) (active : DeviceDescriptor) (engine : Bytes) :
    Except EngineError (LoadedEngine × SlotMap × SlotMap) := do
  backend.start.mapError .backend
  let loaded ← (backend.load engine).mapError .backend
  match loaded.builtFor with
  | some builtFor => requireCapability active builtFor
  -- An engine that records no capability is taken as it is.
  | none => pure ()
  loaded.prepare.mapError .backend
  let (inputs, outputs) ← bindingMaps loaded
  return (loaded, inputs, outputs)

variable {σ : Type} [DeviceDriver σ]

/-- Makes the recorded device the active one. -/
def selectRecorded (driver : σ) (record : Bytes) : Except EngineError (σ × DeviceDescriptor) := do
  let device ← (DeviceDescriptor.decode record).mapError .malformedDeviceRecord
  let driver ← (DeviceDriver.select driver device.id).mapError .device
  return (driver, device)

/-- An engine on the device that is recorded, once that device is the active one. -/
def onRecorded (driver : σ) (backend : Backend) (name : String) (recorded : DeviceDescriptor)
    (engine : Bytes) : Except EngineError Engine := do
  let active ← (DeviceDriver.active driver).mapError .device
  requireCapability active recorded.capability
  let (loaded, inputs, outputs) ← loadFor backend active engine
  return ⟨name, recorded, loaded, inputs, outputs⟩

/-- An engine on the device that happens to be active. -/
def onActive (driver : σ) (backend : Backend) (name : String) (engine : Bytes) :
    Except EngineError Engine := do
  let active ← (DeviceDriver.active driver).mapError .device
  let (loaded, inputs, outputs) ← loadFor backend active engine
  return ⟨name, active, loaded, inputs, outputs⟩

/-- An engine from its two parts, and the driver after that. A record that names a device makes
it the active one, whatever comes of the engine. -/
def restore (driver : σ) (backend : Backend) (moduleName : String) (payload : EnginePayload) :
    σ × Except EngineError Engine :=
  let name := nameOf moduleName
  if payload.deviceRecord.isEmpty then
    -- Without a record the engine belongs to the device that happens to be active.
    (driver, onActive driver backend name payload.engine)
  else
    match selectRecorded driver payload.deviceRecord with
    | .error e => (driver, .error e)
    | .ok (driver, recorded) =>
      (driver, onRecorded driver backend name recorded payload.engine)

/-- The number of inputs and outputs. -/
def counts (engine : Engine) : Nat × Nat :=
  (engine.inputs.length, engine.outputs.length)

/-- What is kept of an engine. -/
def toPayload (engine : Engine) : Except EngineError EnginePayload :=
  (engine.loaded.serialize.mapError .backend).map (⟨engine.device.encode, ·⟩)

/-- The slots with the inputs in the slots of their logical indices. -/
def inputSlots (engine : Engine) (inputs : List Tensor) : Slots :=
  (List.range engine.loaded.slotCount).map fun slot =>
    (engine.inputs.logical? slot).bind fun logical => inputs[logical]?

/-- What an execution has left in the slot of an output. -/
def output (engine : Engine) (slots : Slots) (logical : Nat) : Except EngineError Tensor :=
  match (engine.outputs.slot? logical).bind fun slot => slots[slot]?.join with
  | some t => .ok t
  | none => .error (.missingOutput logical)

/-- The outputs for these inputs, both in logical order. -/
def execute (engine : Engine) (inputs : List Tensor) : Except EngineError (List Tensor) := do
  -- The backend is not asked before the number of inputs is right.
  if inputs.length ≠ engine.inputs.length then
    throw (.inputCount engine.inputs.length inputs.length)
  let (slots, result) := engine.loaded.execute (engine.inputSlots inputs)
  result.mapError .backend
  (List.range engine.outputs.length).mapM (engine.output slots)

end Engine

end TensorEngine
