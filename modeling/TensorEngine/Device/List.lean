import TensorEngine.Device.Driver

/-!
# Device lists

The devices that were found on a machine, in the order of their ids.

## Main definitions

* `DeviceList`, `DeviceList.insert`, `DeviceList.find`: devices by id
* `DeviceList.enumerate`: the devices that a driver reports
-/

namespace TensorEngine

/-- Devices under ids, in ascending order of the ids. -/
structure DeviceList where
  entries : List (Int32 × DeviceDescriptor)
  deriving DecidableEq, Repr

namespace DeviceList

/-- The list without devices. -/
def empty : DeviceList :=
  ⟨[]⟩

/-- Puts an entry at its place, replacing one with the same id. -/
def insertEntry (id : Int32) (device : DeviceDescriptor) :
    List (Int32 × DeviceDescriptor) → List (Int32 × DeviceDescriptor)
  | [] => [(id, device)]
  | (other, found) :: rest =>
    if id < other then (id, device) :: (other, found) :: rest
    else if id = other then (id, device) :: rest
    else (other, found) :: insertEntry id device rest

/-- The list with a device under an id. -/
def insert (list : DeviceList) (id : Int32) (device : DeviceDescriptor) : DeviceList :=
  ⟨insertEntry id device list.entries⟩

/-- The number of devices. -/
def size (list : DeviceList) : Nat :=
  list.entries.length

/-- The devices. -/
def devices (list : DeviceList) : List DeviceDescriptor :=
  list.entries.map (·.2)

/-- The device under an id. -/
def find (list : DeviceList) (id : Int32) : Except DeviceError DeviceDescriptor :=
  match list.entries.lookup id with
  | some device => .ok device
  | none => .error (.notFound id)

/-- The device under an id runs what was built for a capability. -/
def supports (list : DeviceList) (id : Int32) (builtFor : Capability) :
    Except DeviceError Bool :=
  (list.find id).map (·.capability.canRun builtFor)

/-- One indented line for each device. -/
def text (list : DeviceList) : String :=
  String.join (list.devices.map fun device => s!"    {device.text}\n")

variable {σ : Type} [DeviceDriver σ]

/-- The devices that a driver reports, none when it cannot. A device whose properties are not
known is left out. -/
def enumerate (driver : σ) : DeviceList :=
  match DeviceDriver.count driver with
  | .error _ => empty
  | .ok count =>
    (List.range count.toInt.toNat).foldl (fun list position =>
      let id := Int32.ofNat position
      match DeviceDriver.properties driver id with
      | .ok device => list.insert id device
      | .error _ => list) empty

end DeviceList

end TensorEngine
