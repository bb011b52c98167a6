import TensorEngine.Device.Descriptor

/-!
# Device drivers

A driver knows the devices of a machine and which of them is active. The active device is the only
thing that can change.

## Main definitions

* `DeviceDriver`: what a driver can do
* `SimulatedDriver`: devices numbered from zero, with a count of the switches
* `TableDriver`: any devices, under any ids
-/

namespace TensorEngine

/-- Why a call of a driver fails. -/
inductive DriverFault
  | invalidOrdinal (count : Nat)
  | noDriver
  deriving DecidableEq, Repr

/-- The wording of a driver fault. -/
def DriverFault.message : DriverFault → String
  | .invalidOrdinal count => s!"invalid device ordinal ({count} devices)"
  | .noDriver => "no driver"

/-- Why there is no such device. -/
inductive DeviceError
  | notFound (id : Int32)
  | driver (call : String) (id : Int32) (reason : DriverFault)
  deriving DecidableEq, Repr

/-- The wording of a device error. -/
def DeviceError.message : DeviceError → String
  | .notFound id => s!"device {id.toInt} was never enumerated"
  | .driver call id reason =>
    s!"device driver call `{call}` failed for device {id.toInt}: {reason.message}"

/-- What a driver can do; `σ` is its state. -/
class DeviceDriver (σ : Type) where
  /-- The number of devices. -/
  count : σ → Except DeviceError Int32
  /-- The device with an id. -/
  properties : σ → Int32 → Except DeviceError DeviceDescriptor
  /-- Makes a device the active one. -/
  select : σ → Int32 → Except DeviceError σ
  /-- The id of the active device. -/
  activeId : σ → Int32
  /-- How often a device was made the active one, if the driver counts that. -/
  switches : σ → Option Nat

namespace DeviceDriver

variable {σ : Type} [DeviceDriver σ]

/-- The active device. -/
def active (driver : σ) : Except DeviceError DeviceDescriptor :=
  properties driver (activeId driver)

end DeviceDriver

/-- A driver whose device ids are the positions in a list. -/
structure SimulatedDriver where
  devices : List DeviceDescriptor
  activeId : Int32
  switches : Nat
  deriving DecidableEq, Repr

namespace SimulatedDriver

/-- The driver of devices with these capabilities; the first one is active. -/
def ofCapabilities (capabilities : List Capability) : SimulatedDriver where
  devices := capabilities.zipIdx.map fun (c, position) =>
    ⟨Int32.ofNat position, c.major, c.minor⟩
  activeId := 0
  switches := 0

/-- The device at the position that an id is. -/
def find (driver : SimulatedDriver) (call : String) (id : Int32) :
    Except DeviceError DeviceDescriptor :=
  match if 0 ≤ id then driver.devices[id.toInt.toNat]? else none with
  | some device => .ok device
  | none => .error (.driver call id (.invalidOrdinal driver.devices.length))

/-- Makes a device the active one and counts that. -/
def select (driver : SimulatedDriver) (id : Int32) : Except DeviceError SimulatedDriver := do
  let _ ← driver.find "set_device" id
  return { driver with activeId := id, switches := driver.switches + 1 }

instance : DeviceDriver SimulatedDriver where
  count driver := .ok (Int32.ofNat driver.devices.length)
  properties driver id := driver.find "properties" id
  select := select
  activeId := activeId
  switches driver := some driver.switches

end SimulatedDriver

/-- A driver that is told its devices, how many it reports, and which one is active. -/
structure TableDriver where
  devices : List DeviceDescriptor
  /-- Without a count the driver cannot report its devices. -/
  count : Option Int32
  activeId : Int32
  deriving DecidableEq, Repr

namespace TableDriver

/-- The first device with an id. -/
def find (driver : TableDriver) (id : Int32) : Except DeviceError DeviceDescriptor :=
  match driver.devices.find? (·.id == id) with
  | some device => .ok device
  | none => .error (.notFound id)

/-- Makes a device the active one. -/
def select (driver : TableDriver) (id : Int32) : Except DeviceError TableDriver := do
  let _ ← driver.find id
  return { driver with activeId := id }

instance : DeviceDriver TableDriver where
  count driver :=
    match driver.count with
    | some count => .ok count
    | none => .error (.driver "device_count" (-1) .noDriver)
  properties := find
  select := select
  activeId := activeId
  switches _ := none

end TableDriver

end TensorEngine
