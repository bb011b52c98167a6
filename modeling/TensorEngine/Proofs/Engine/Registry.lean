import TensorEngine.Engine.Table
import TensorEngine.Proofs.Engine.Devices

/-!
# Registries of engines

A registry is a table of engines on a simulated driver. Loading is the only command that changes the
driver, and it may do so before a later check fails. What every run keeps is that the active device and
the count of switches are those of the loads that named an existing device, and that every engine in
the table is on a device that runs it.

## Main definitions

* `Registry`, `Registry.step`, `Registry.run`: commands on a table of engines
* `Registry.Keeps`: the invariant, over the ids that loads have selected so far

## Main results

* `Registry.Keeps.step`, `Registry.Keeps.run`: the invariant holds after every command and run
* `registered_engines_are_supported`: devices and capabilities after every run
-/

namespace TensorEngine

/-- Registered engines, and the driver of their devices. -/
structure Registry where
  driver : SimulatedDriver
  table : EngineTable

namespace Registry

/-- What a registry can be told. -/
inductive Command
  | load (moduleName : String) (payload : EnginePayload)
  | execute (id : EngineId) (inputs : List Tensor)
  | persist (id : EngineId)
  | remove (id : EngineId)

/-- What a registry answers. -/
inductive Answer
  | loaded (id : EngineId)
  | outputs (tensors : List Tensor)
  | persisted (payload : EnginePayload)
  | removed (engine : Engine)
  /-- No engine is registered under the id. -/
  | unknown

/-- A registry without engines, on a driver of devices with these capabilities. -/
def start (capabilities : List Capability) : Registry :=
  ⟨.ofCapabilities capabilities, .empty⟩

/-- An answer about the engine with an id. -/
def about (registry : Registry) (id : EngineId) (answer : Engine → Except EngineError Answer) :
    Except EngineError Answer :=
  match registry.table.get? id with
  | some engine => answer engine
  | none => .ok .unknown

/-- The effect of a command, and its answer. -/
def step (registry : Registry) : Command → Registry × Except EngineError Answer
  | .load moduleName payload =>
    let (driver, table, result) :=
      registry.table.load registry.driver referenceBackend moduleName payload
    (⟨driver, table⟩, result.map .loaded)
  | .execute id inputs =>
    (registry, registry.about id fun engine => (engine.execute inputs).map .outputs)
  | .persist id => (registry, registry.about id fun engine => engine.toPayload.map .persisted)
  | .remove id =>
    ({ registry with table := registry.table.erase id },
      registry.about id fun engine => .ok (.removed engine))

/-- The registry after commands. -/
def run (registry : Registry) (commands : List Command) : Registry :=
  commands.foldl (fun registry command => (registry.step command).1) registry

/-- The id that a command makes the active one, of `count` devices: the one that the record of a load
names, whatever comes of the load. -/
def Command.selects? (count : Nat) : Command → Option Int32
  | .load _ payload => recordedDevice? count payload.deviceRecord
  | _ => none

/-- What every run keeps, over the ids that its loads have selected. -/
structure Keeps (capabilities : List Capability) (selected : List Int32) (registry : Registry) :
    Prop where
  devices : registry.driver.devices = (SimulatedDriver.ofCapabilities capabilities).devices
  active : registry.driver.activeId = selected.getLast?.getD 0
  switches : registry.driver.switches = selected.length
  supported : ∀ entry ∈ registry.table.entries, entry.2.Supported registry.driver

variable {capabilities : List Capability} {selected : List Int32} {registry : Registry}
  {moduleName : String} {payload : EnginePayload}

theorem keeps_start : (start capabilities).Keeps capabilities [] where
  devices := rfl
  active := rfl
  switches := rfl
  supported _ member := absurd member List.not_mem_nil

/-- A table is changed by loads that succeed only, which add an engine. -/
theorem step_load : registry.step (.load moduleName payload) =
    match Engine.restore registry.driver referenceBackend moduleName payload with
    | (driver, .error e) => (⟨driver, registry.table⟩, .error e)
    | (driver, .ok engine) =>
      (⟨driver, (registry.table.insert engine).2⟩, .ok (.loaded registry.table.nextId)) := by
  rw [step, EngineTable.load]
  rcases Engine.restore registry.driver referenceBackend moduleName payload with
    ⟨driver, _ | engine⟩ <;> rfl

/-- The driver after a load. -/
theorem driver_step_load : (registry.step (.load moduleName payload)).1.driver =
    (Engine.restore registry.driver referenceBackend moduleName payload).1 := by
  rw [step_load]
  split <;> simp_all

/-- A load keeps the engines in the table on devices that run them, and so is the one it adds. -/
theorem Keeps.supported_load (h : registry.Keeps capabilities selected) :
    ∀ entry ∈ (registry.step (.load moduleName payload)).1.table.entries,
      entry.2.Supported (registry.step (.load moduleName payload)).1.driver := by
  have before : ∀ entry ∈ registry.table.entries,
      entry.2.Supported (registry.step (.load moduleName payload)).1.driver := by
    intro entry member
    refine (h.supported entry member).congr ?_
    rw [driver_step_load]
    exact Engine.devices_of_restore rfl
  rcases restored : Engine.restore registry.driver referenceBackend moduleName payload with
    ⟨driver, _ | engine⟩
  · rw [step_load, restored] at before ⊢
    exact before
  · rw [step_load, restored] at before ⊢
    intro entry member
    rcases List.mem_append.mp member with old | new
    · exact before entry old
    · obtain rfl := List.mem_singleton.mp new
      exact Engine.supported_of_restore (SimulatedDriver.numbered_of_devices h.devices) restored

/-- A load makes the recorded device the active one. -/
theorem Keeps.load (h : registry.Keeps capabilities selected) :
    (registry.step (.load moduleName payload)).1.Keeps capabilities
      (selected ++ (recordedDevice? capabilities.length payload.deviceRecord).toList) := by
  have count : registry.driver.devices.length = capabilities.length := by
    rw [h.devices, SimulatedDriver.ofCapabilities, List.length_map, List.length_zipIdx]
  have driver : (registry.step (.load moduleName payload)).1.driver = _ :=
    driver_step_load.trans Engine.restore_driver
  rw [count] at driver
  cases named : recordedDevice? capabilities.length payload.deviceRecord with
  | some id =>
    rw [named] at driver
    refine ⟨?_, ?_, ?_, h.supported_load⟩
    · rw [driver]
      exact h.devices
    · rw [driver, Option.toList_some, List.getLast?_concat]
      rfl
    · rw [driver, Option.toList_some, List.length_append, ← h.switches]
      rfl
  | none =>
    rw [named] at driver
    rw [Option.toList_none, List.append_nil]
    exact ⟨by rw [driver]; exact h.devices, by rw [driver]; exact h.active,
      by rw [driver]; exact h.switches, h.supported_load⟩

/-- What a command keeps. -/
theorem Keeps.step (h : registry.Keeps capabilities selected) (command : Command) :
    (registry.step command).1.Keeps capabilities
      (selected ++ (command.selects? capabilities.length).toList) := by
  cases command with
  | load moduleName payload => exact h.load
  | execute id inputs => exact (List.append_nil selected).symm ▸ h
  | persist id => exact (List.append_nil selected).symm ▸ h
  | remove id =>
    refine (List.append_nil selected).symm ▸ ⟨h.devices, h.active, h.switches,
      fun entry member => h.supported entry (List.mem_of_mem_filter member)⟩

/-- What a run keeps. -/
theorem Keeps.run (h : registry.Keeps capabilities selected) (commands : List Command) :
    (registry.run commands).Keeps capabilities
      (selected ++ commands.filterMap (·.selects? capabilities.length)) := by
  induction commands generalizing registry selected with
  | nil => exact (List.append_nil selected).symm ▸ h
  | cons command commands ih =>
    have rest := ih (h.step command)
    rw [List.append_assoc] at rest
    rw [List.filterMap_cons, run, List.foldl_cons]
    cases named : command.selects? capabilities.length <;> rw [named] at rest <;> exact rest

end Registry

/-- After any commands, a load that fails leaves the table as it was; the active device is the one
that was last named by a load with a record of the right length, whether or not the load failed later,
and it is counted how often that happened; and every registered engine is on a device that exists and
whose capability is at least the one that the engine records and the one its plan was built for. -/
theorem registered_engines_are_supported (capabilities : List Capability)
    (commands : List Registry.Command) :
    let registry := (Registry.start capabilities).run commands
    let selected := commands.filterMap (·.selects? capabilities.length)
    (∀ moduleName payload error,
      (registry.step (.load moduleName payload)).2 = .error error →
      (registry.step (.load moduleName payload)).1.table = registry.table) ∧
    DeviceDriver.activeId registry.driver = selected.getLast?.getD 0 ∧
    DeviceDriver.switches registry.driver = some selected.length ∧
    ∀ entry ∈ registry.table.entries, ∃ device plan bytes,
      DeviceDriver.properties registry.driver entry.2.device.id = .ok device ∧
      device.id = entry.2.device.id ∧
      entry.2.device.capability.version ≤ device.capability.version ∧
      EnginePlan.load bytes = .ok plan ∧ entry.2.loaded = .ofPlan plan bytes ∧
      plan.builtFor.version ≤ device.capability.version := by
  intro registry selected
  have keeps : registry.Keeps capabilities selected := Registry.keeps_start.run commands
  refine ⟨fun moduleName payload error failed => ?_, keeps.active, congrArg some keeps.switches,
    fun entry member => ?_⟩
  · rw [Registry.step_load] at failed ⊢
    split at failed
    · rfl
    · cases failed
  · obtain ⟨device, plan, bytes, known, rest⟩ := keeps.supported entry member
    have numbered := SimulatedDriver.numbered_of_devices keeps.devices
    exact ⟨device, plan, bytes, known, SimulatedDriver.id_of_properties numbered known, rest⟩

end TensorEngine
