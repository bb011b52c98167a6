import Mathlib.Data.Prod.Lex
import TensorEngine.Proofs.Engine.Loading

/-!
# Devices of restored engines

An engine is restored on the device that its record names, or on the active one if it has no record.
Which device is active afterwards depends on the record alone. An engine that was restored by the
reference backend is on a device that exists and that runs both what the engine records and what its
plan was built for, so that it is restored again from what is kept of it.

## Main definitions

* `Capability.version`: capabilities as pairs in lexicographic order
* `recordedDevice?`: the existing device that a record names
* `Engine.Supported`: an engine on a device that runs it

## Main results

* `Engine.loadFor_eq_ok_iff`: what loading an engine for a device checks
* `Engine.restore_driver`: the driver after an engine was restored, or was not
* `Engine.supported_of_restore`: restored engines are on devices that run them
-/

namespace TensorEngine

/-- A capability as a pair of numbers, in lexicographic order. -/
def Capability.version (c : Capability) : ℤ ×ₗ ℤ :=
  toLex (c.major.toInt, c.minor.toInt)

/-- A device runs what was built for capabilities up to its own. -/
theorem Capability.canRun_iff {device builtFor : Capability} :
    device.canRun builtFor = true ↔ builtFor.version ≤ device.version := by
  simp only [canRun, Bool.or_eq_true, Bool.and_eq_true, decide_eq_true_eq, beq_iff_eq, version,
    Prod.Lex.toLex_le_toLex, Int32.lt_iff_toInt_lt, Int32.le_iff_toInt_le, Int32.toInt_inj]

/-! ### Devices by their positions -/

namespace SimulatedDriver

/-- The id of every device is its position. -/
def Numbered (driver : SimulatedDriver) : Prop :=
  ∀ (position : Nat) device, driver.devices[position]? = some device →
    device.id = Int32.ofNat position

theorem numbered_of_devices {driver : SimulatedDriver} {capabilities : List Capability}
    (devices : driver.devices = (ofCapabilities capabilities).devices) : driver.Numbered := by
  intro position device listed
  rw [devices, ofCapabilities, List.getElem?_map, Option.map_eq_some_iff] at listed
  obtain ⟨⟨capability, position'⟩, listed, rfl⟩ := listed
  rw [List.getElem?_zipIdx, Option.map_eq_some_iff] at listed
  obtain ⟨_, -, same⟩ := listed
  simp only [Nat.zero_add, Prod.mk.injEq] at same
  exact congrArg Int32.ofNat same.2.symm

theorem properties_eq_ok_iff {driver : SimulatedDriver} {id : Int32} {device : DeviceDescriptor} :
    DeviceDriver.properties driver id = .ok device ↔
      0 ≤ id ∧ driver.devices[id.toInt.toNat]? = some device := by
  refine find_eq_ok_iff.trans ?_
  split <;> simp_all

/-- A device is found under its own id. -/
theorem id_of_properties {driver : SimulatedDriver} (numbered : driver.Numbered) {id : Int32}
    {device : DeviceDescriptor} (known : DeviceDriver.properties driver id = .ok device) :
    device.id = id := by
  obtain ⟨least, listed⟩ := properties_eq_ok_iff.mp known
  have nonneg : 0 ≤ id.toInt := Int32.le_iff_toInt_le.mp least
  rw [numbered _ _ listed, ← Int32.ofInt_eq_ofNat, Int.toNat_of_nonneg nonneg, Int32.ofInt_toInt]

/-- The same devices under the same ids. -/
theorem properties_congr {driver other : SimulatedDriver} (devices : other.devices = driver.devices)
    {id : Int32} {device : DeviceDescriptor} :
    DeviceDriver.properties other id = .ok device ↔
      DeviceDriver.properties driver id = .ok device := by
  rw [properties_eq_ok_iff, properties_eq_ok_iff, devices]

/-- The driver with another active device, one switch later. -/
def switched (driver : SimulatedDriver) (id : Int32) : SimulatedDriver :=
  { driver with activeId := id, switches := driver.switches + 1 }

/-- A device can be made the active one if its id is a position. -/
theorem select_eq_ok_iff {driver driver' : SimulatedDriver} {id : Int32} :
    DeviceDriver.select driver id = .ok driver' ↔
      (0 ≤ id ∧ id.toInt < driver.devices.length) ∧ driver' = driver.switched id := by
  constructor
  · intro selected
    obtain ⟨device, found, result⟩ := bind_eq_ok_iff.mp selected
    obtain ⟨least, listed⟩ := properties_eq_ok_iff.mp
      (find_eq_ok_iff.mpr (find_eq_ok_iff.mp found))
    have below := (List.getElem?_eq_some_iff.mp listed).1
    exact ⟨⟨least, by omega⟩, (Except.ok.inj result).symm⟩
  · rintro ⟨⟨least, below⟩, rfl⟩
    have nonneg : 0 ≤ id.toInt := Int32.le_iff_toInt_le.mp least
    have within : id.toInt.toNat < driver.devices.length := by omega
    have known : DeviceDriver.properties driver id = .ok driver.devices[id.toInt.toNat] :=
      properties_eq_ok_iff.mpr ⟨least, List.getElem?_eq_getElem within⟩
    exact (select_of_properties known).1

end SimulatedDriver

/-! ### Records -/

theorem DeviceDescriptor.decode_eq_ok_iff {record : Bytes} {device : DeviceDescriptor} :
    decode record = .ok device ↔ record.length = deviceRecordLength ∧
      device = ⟨Bytes.toInt32 (record.take 4), Bytes.toInt32 ((record.drop 4).take 4),
        Bytes.toInt32 (record.drop 8)⟩ := by
  unfold decode
  split <;> simp_all [eq_comm]

/-- The id in a record of the right length, if one of `count` devices has it. -/
def recordedDevice? (count : Nat) (record : Bytes) : Option Int32 :=
  let id := Bytes.toInt32 (record.take 4)
  if record.length = deviceRecordLength ∧ 0 ≤ id ∧ id.toInt < count then some id else none

theorem recordedDevice?_eq_some_iff {count : Nat} {record : Bytes} {id : Int32} :
    recordedDevice? count record = some id ↔
      record.length = deviceRecordLength ∧ id = Bytes.toInt32 (record.take 4) ∧
        0 ≤ id ∧ id.toInt < count := by
  unfold recordedDevice?
  grind

namespace Engine

variable {backend : Backend} {engine : Engine} {loaded : LoadedEngine} {inputs outputs : SlotMap}

theorem requireCapability_eq_ok_iff {device : DeviceDescriptor} {builtFor : Capability} :
    requireCapability device builtFor = .ok () ↔ builtFor.version ≤ device.capability.version := by
  rw [← Capability.canRun_iff]
  unfold requireCapability
  split <;> simp_all

/-- Loading succeeds when each of its stages does. -/
theorem loadFor_eq_ok_iff {active : DeviceDescriptor} {bytes : Bytes} :
    loadFor backend active bytes = .ok (loaded, inputs, outputs) ↔
      backend.start = .ok () ∧ backend.load bytes = .ok loaded ∧
      (∀ builtFor, loaded.builtFor = some builtFor →
        builtFor.version ≤ active.capability.version) ∧
      loaded.prepare = .ok () ∧ bindingMaps loaded = .ok (inputs, outputs) := by
  have prepared : ∀ loaded' : LoadedEngine, (do
      loaded'.prepare.mapError EngineError.backend
      let maps ← bindingMaps loaded'
      return (loaded', maps)) = Except.ok (loaded, inputs, outputs) ↔
        loaded' = loaded ∧ loaded.prepare = .ok () ∧
          bindingMaps loaded = .ok (inputs, outputs) := by
    intro loaded'
    simp only [bind_eq_ok_iff, mapError_eq_ok_iff]
    constructor
    · rintro ⟨_, prepares, maps, bound, result⟩
      cases result
      exact ⟨rfl, prepares, bound⟩
    · rintro ⟨rfl, prepares, bound⟩
      exact ⟨(), prepares, _, bound, rfl⟩
  unfold loadFor
  simp only [bind_eq_ok_iff, mapError_eq_ok_iff]
  constructor
  · rintro ⟨_, started, loaded', load, h⟩
    split at h
    next builtFor records =>
      obtain ⟨_, capable, h⟩ := bind_eq_ok_iff.mp h
      obtain ⟨rfl, rest⟩ := (prepared loaded').mp h
      refine ⟨started, load, fun other same => ?_, rest⟩
      cases records.symm.trans same
      exact requireCapability_eq_ok_iff.mp capable
    next records =>
      obtain ⟨rfl, rest⟩ := (prepared loaded').mp h
      exact ⟨started, load, fun other same => by simp [records] at same, rest⟩
  · rintro ⟨started, load, capable, rest⟩
    refine ⟨(), started, loaded, load, ?_⟩
    split
    next builtFor records =>
      exact bind_eq_ok_iff.mpr ⟨(), requireCapability_eq_ok_iff.mpr (capable _ records),
        (prepared loaded).mpr ⟨rfl, rest⟩⟩
    next => exact (prepared loaded).mpr ⟨rfl, rest⟩

/-- The recorded device becomes the active one if the record has the right length and the device is
there. -/
theorem selectRecorded_eq_ok_iff {driver driver' : SimulatedDriver} {record : Bytes}
    {device : DeviceDescriptor} : selectRecorded driver record = .ok (driver', device) ↔
      DeviceDescriptor.decode record = .ok device ∧
        recordedDevice? driver.devices.length record = some device.id ∧
        driver' = driver.switched device.id := by
  unfold selectRecorded
  simp only [bind_eq_ok_iff, mapError_eq_ok_iff]
  constructor
  · rintro ⟨device', decoded, driver'', selected, result⟩
    cases result
    obtain ⟨bounds, rfl⟩ := SimulatedDriver.select_eq_ok_iff.mp selected
    refine ⟨decoded, ?_, rfl⟩
    obtain ⟨length, rfl⟩ := DeviceDescriptor.decode_eq_ok_iff.mp decoded
    exact if_pos ⟨length, bounds⟩
  · rintro ⟨decoded, named, rfl⟩
    obtain ⟨-, -, bounds⟩ := recordedDevice?_eq_some_iff.mp named
    exact ⟨device, decoded, _, SimulatedDriver.select_eq_ok_iff.mpr ⟨bounds, rfl⟩, rfl⟩

variable {driver driver' : SimulatedDriver} {name : String} {payload : EnginePayload}

/-- After an engine was restored, or was not, the recorded device is active if there is one that
exists, and the driver is as it was otherwise. -/
theorem restore_driver : (restore driver backend name payload).1 =
    match recordedDevice? driver.devices.length payload.deviceRecord with
    | some id => driver.switched id
    | none => driver := by
  unfold restore
  by_cases bare : payload.deviceRecord.isEmpty
  · rw [if_pos bare, List.isEmpty_iff.mp bare]
    rfl
  · rw [if_neg bare]
    cases named : recordedDevice? driver.devices.length payload.deviceRecord with
    | some id =>
      obtain ⟨length, rfl, -⟩ := recordedDevice?_eq_some_iff.mp named
      have decoded := DeviceDescriptor.decode_eq_ok_iff.mpr ⟨length, rfl⟩
      rw [selectRecorded_eq_ok_iff.mpr ⟨decoded, named, rfl⟩]
    | none =>
      cases selected : selectRecorded driver payload.deviceRecord with
      | error e => rfl
      | ok result =>
        obtain ⟨driver', device⟩ := result
        cases named.symm.trans (selectRecorded_eq_ok_iff.mp selected).2.1

/-- The devices stay the same. -/
theorem devices_of_restore {result : Except EngineError Engine}
    (h : restore driver backend name payload = (driver', result)) :
    driver'.devices = driver.devices := by
  obtain rfl : _ = driver' := restore_driver.symm.trans (congrArg Prod.fst h)
  split <;> rfl

/-- The device of an engine exists, and its capability is at least the one that the engine records
and the one that its plan was built for. -/
def Supported (driver : SimulatedDriver) (engine : Engine) : Prop :=
  ∃ device plan bytes, DeviceDriver.properties driver engine.device.id = .ok device ∧
    engine.device.capability.version ≤ device.capability.version ∧
    EnginePlan.load bytes = .ok plan ∧ engine.loaded = .ofPlan plan bytes ∧
    plan.builtFor.version ≤ device.capability.version

theorem Supported.congr (supported : engine.Supported driver)
    (devices : driver'.devices = driver.devices) : engine.Supported driver' := by
  obtain ⟨device, plan, bytes, known, rest⟩ := supported
  exact ⟨device, plan, bytes, (SimulatedDriver.properties_congr devices).mpr known, rest⟩

/-- What was loaded for a device runs on it. -/
theorem supported_of_loadFor {active : DeviceDescriptor} {bytes : Bytes}
    (known : DeviceDriver.properties driver engine.device.id = .ok active)
    (capable : engine.device.capability.version ≤ active.capability.version)
    (load : loadFor referenceBackend active bytes =
      .ok (engine.loaded, engine.inputs, engine.outputs)) : engine.Supported driver := by
  obtain ⟨-, load, runs, -⟩ := loadFor_eq_ok_iff.mp load
  obtain ⟨plan, read, same⟩ := referenceBackend_load_eq_ok_iff.mp load
  exact ⟨active, plan, bytes, known, capable, read, same, runs _ (by rw [same]; rfl)⟩

/-- A restored engine is on a device that exists and runs it, with or without a record. -/
theorem supported_of_restore (numbered : driver.Numbered)
    (h : restore driver referenceBackend name payload = (driver', .ok engine)) :
    engine.Supported driver' := by
  unfold restore at h
  dsimp only at h
  split at h
  next =>
    obtain ⟨rfl, made⟩ := Prod.mk.inj h
    obtain ⟨active, known, made⟩ := bind_eq_ok_iff.mp made
    obtain ⟨⟨loaded, inputs, outputs⟩, load, result⟩ := bind_eq_ok_iff.mp made
    cases result
    have known := mapError_eq_ok_iff.mp known
    have own := SimulatedDriver.id_of_properties numbered known
    exact supported_of_loadFor (own ▸ known) le_rfl load
  next =>
    split at h
    next => cases h
    next driver'' recorded selected =>
      obtain ⟨rfl, made⟩ := Prod.mk.inj h
      obtain ⟨active, known, made⟩ := bind_eq_ok_iff.mp made
      obtain ⟨_, capable, made⟩ := bind_eq_ok_iff.mp made
      obtain ⟨⟨loaded, inputs, outputs⟩, load, result⟩ := bind_eq_ok_iff.mp made
      cases result
      obtain ⟨-, -, rfl⟩ := selectRecorded_eq_ok_iff.mp selected
      exact supported_of_loadFor (mapError_eq_ok_iff.mp known)
        (requireCapability_eq_ok_iff.mp capable) load

end Engine

end TensorEngine
