import TensorEngine.Proofs.Engine.Devices
import TensorEngine.Session

/-!
# Persisted engines

What is kept of an engine has a record of its device, even if the engine was restored without one and
belongs to the device that happened to be active. Restoring it again selects that device, whatever
device is active by then, and the checks that were passed once are passed again. The new engine is the
old one under another name, so keeping and restoring engines is a fixpoint after one step.

## Main results

* `Engine.restore_of_supported`: an engine on a device that runs it is restored again
* `Engine.execute_rename`, `Engine.toPayload_rename`: the name of an engine has no effect
* `persisted_engine_is_restored`: engines are restored from what is kept of them
-/

namespace TensorEngine

namespace Engine

variable {driver : SimulatedDriver} {name : String} {engine : Engine}

/-- An engine on a device that runs it is restored from its record and the bytes it was loaded from,
and its device is the active one then. -/
theorem restore_of_supported (supported : engine.Supported driver)
    (maps : bindingMaps engine.loaded = .ok (engine.inputs, engine.outputs)) (name : String) :
    ∃ bytes, engine.loaded.serialize = .ok bytes ∧
      restore driver referenceBackend name ⟨engine.device.encode, bytes⟩ =
        (driver.switched engine.device.id, .ok { engine with name := nameOf name }) := by
  obtain ⟨device, plan, bytes, known, recorded, read, loaded, runs⟩ := supported
  refine ⟨bytes, by rw [loaded]; rfl, ?_⟩
  obtain ⟨selected, active⟩ := SimulatedDriver.select_of_properties known
  have load : loadFor referenceBackend device bytes =
      .ok (engine.loaded, engine.inputs, engine.outputs) := by
    refine loadFor_eq_ok_iff.mpr ⟨rfl, referenceBackend_load_eq_ok_iff.mpr ⟨plan, read, loaded⟩,
      fun builtFor records => ?_, by rw [loaded]; rfl, maps⟩
    rw [loaded] at records
    cases records
    exact runs
  have selects : selectRecorded driver engine.device.encode =
      .ok (driver.switched engine.device.id, engine.device) :=
    bind_eq_ok_iff.mpr ⟨_, mapError_eq_ok_iff.mpr engine.device.decode_encode,
      bind_eq_ok_iff.mpr ⟨_, mapError_eq_ok_iff.mpr selected, rfl⟩⟩
  have restored : onRecorded (driver.switched engine.device.id) referenceBackend (nameOf name)
      engine.device bytes = .ok { engine with name := nameOf name } :=
    bind_eq_ok_iff.mpr ⟨device, mapError_eq_ok_iff.mpr active,
      bind_eq_ok_iff.mpr ⟨(), requireCapability_eq_ok_iff.mpr recorded,
        bind_eq_ok_iff.mpr ⟨_, load, rfl⟩⟩⟩
  have present : ¬engine.device.encode.isEmpty = true := by
    rw [List.isEmpty_iff, ← List.length_eq_zero_iff, engine.device.length_encode]
    decide
  unfold restore
  rw [if_neg present]
  dsimp only
  rw [selects]
  dsimp only
  rw [restored]

theorem toPayload_eq_ok {bytes : Bytes} (serialized : engine.loaded.serialize = .ok bytes) :
    engine.toPayload = .ok ⟨engine.device.encode, bytes⟩ := by
  rw [toPayload, serialized]
  rfl

/-- The name of an engine has no part in what is kept of it. -/
theorem toPayload_rename : { engine with name := name }.toPayload = engine.toPayload :=
  rfl

/-- The name of an engine has no part in what it answers. -/
theorem execute_rename (inputs : List Tensor) :
    { engine with name := name }.execute inputs = engine.execute inputs :=
  rfl

end Engine

/-- An engine that was restored in any form is restored again from the parts that are kept of it,
whatever device is active by then, as an engine with the same device, the same routes and the same
answers, of which the same parts are kept. -/
theorem persisted_engine_is_restored {capabilities : List Capability}
    {driver driver' later : SimulatedDriver} {form : RestoreForm} {payload : EnginePayload}
    {engine : Engine}
    (devices : driver.devices = (SimulatedDriver.ofCapabilities capabilities).devices)
    (restored : Engine.restore driver referenceBackend form.moduleName (form.select payload) =
      (driver', .ok engine))
    (same : later.devices = driver.devices) :
    ∃ parts later' again, engine.toPayload = .ok parts ∧
      Engine.restore later referenceBackend RestoreForm.parts.moduleName
        (RestoreForm.parts.select parts) = (later', .ok again) ∧
      again.device = engine.device ∧
      again.inputs = engine.inputs ∧ again.outputs = engine.outputs ∧
      again.counts = engine.counts ∧
      again.toPayload = .ok parts ∧
      ∀ inputs, again.execute inputs = engine.execute inputs := by
  have numbered := SimulatedDriver.numbered_of_devices devices
  have supported := Engine.supported_of_restore numbered restored
  have kept := Engine.devices_of_restore restored
  obtain ⟨bytes, serialized, again⟩ := Engine.restore_of_supported
    (supported.congr (same.trans kept.symm)) (Engine.restore_eq_ok restored).2
    RestoreForm.parts.moduleName
  have payload := Engine.toPayload_eq_ok serialized
  exact ⟨_, _, _, payload, again, rfl, rfl, rfl, rfl, Engine.toPayload_rename.trans payload,
    Engine.execute_rename⟩

/-- An older device and a newer one, which is active. -/
def twoDevices : SimulatedDriver :=
  ⟨[⟨0, 8, 6⟩, ⟨1, 9, 0⟩], 1, 4⟩

/-- The engine of the plan that turns a matrix, restored without a record on a newer device. -/
def turnedLegacyEngine : Engine :=
  { turnedEngine with name := Engine.nameOf Engine.restoredName, device := ⟨1, 9, 0⟩ }

theorem restore_turnedPlan_bare :
    Engine.restore twoDevices referenceBackend Engine.restoredName (.bare turnedPlan.bytes) =
      (twoDevices, .ok turnedLegacyEngine) := by
  obtain ⟨load, maps⟩ := Engine.restore_eq_ok restore_turnedPlan
  have loads : Engine.loadFor referenceBackend ⟨1, 9, 0⟩ turnedPlan.bytes =
      .ok (turnedEngine.loaded, turnedEngine.inputs, turnedEngine.outputs) := by
    refine Engine.loadFor_eq_ok_iff.mpr ⟨rfl, load, fun builtFor records => ?_, rfl, maps⟩
    cases records
    decide
  have restored : Engine.onActive twoDevices referenceBackend
      (Engine.nameOf Engine.restoredName) turnedPlan.bytes = .ok turnedLegacyEngine :=
    bind_eq_ok_iff.mpr ⟨⟨1, 9, 0⟩, rfl, bind_eq_ok_iff.mpr ⟨_, loads, rfl⟩⟩
  exact Prod.ext rfl restored

/-- It is restored again after the older device became the active one. -/
theorem persisted_engine_is_restored_legacy :
    Engine.restore twoDevices referenceBackend RestoreForm.engineOnly.moduleName
        (RestoreForm.engineOnly.select ⟨[7], turnedPlan.bytes⟩) =
      (twoDevices, .ok turnedLegacyEngine) ∧
    ∃ later again, Engine.restore (twoDevices.switched 0) referenceBackend Engine.restoredName
        ⟨DeviceDescriptor.encode ⟨1, 9, 0⟩, turnedPlan.bytes⟩ = (later, .ok again) ∧
      again.device = ⟨1, 9, 0⟩ ∧
      again.execute [squareMatrix] = .ok [turnedMatrix, squareMatrix] := by
  have devices : twoDevices.devices =
      (SimulatedDriver.ofCapabilities [⟨8, 6⟩, ⟨9, 0⟩]).devices := rfl
  have restored : Engine.restore twoDevices referenceBackend RestoreForm.engineOnly.moduleName
      (RestoreForm.engineOnly.select ⟨[7], turnedPlan.bytes⟩) =
        (twoDevices, .ok turnedLegacyEngine) := restore_turnedPlan_bare
  have same : (twoDevices.switched 0).devices = twoDevices.devices := rfl
  obtain ⟨parts, later, again, kept, restored', device, -, -, -, -, executes⟩ :=
    persisted_engine_is_restored devices restored same
  cases kept
  exact ⟨restored, later, again, restored', device, (executes _).trans execute_turnedEngine⟩

end TensorEngine
