import TensorEngine.Bytes

/-!
# Devices

A device has an id and a capability, which is a pair of version numbers ordered lexicographically.
Its record is twelve bytes: id, major and minor version, each a 32-bit word.

## Main definitions

* `Capability`, `Capability.canRun`: what a device can run
* `DeviceDescriptor`, `DeviceDescriptor.encode`, `DeviceDescriptor.decode`: devices and records
-/

namespace TensorEngine

/-- The compute capability of a device. -/
structure Capability where
  major : Int32
  minor : Int32
  deriving DecidableEq, Repr

namespace Capability

/-- A device of capability `device` runs what was built for `builtFor`: its capability is the same
or a later one. -/
def canRun (device builtFor : Capability) : Bool :=
  builtFor.major < device.major ||
    (builtFor.major == device.major && builtFor.minor ≤ device.minor)

/-- The text of a capability. -/
def text (c : Capability) : String :=
  s!"sm_{c.major.toInt}.{c.minor.toInt}"

end Capability

/-- A device: its id and its capability. -/
structure DeviceDescriptor where
  id : Int32
  major : Int32
  minor : Int32
  deriving DecidableEq, Repr

/-- A device record of the wrong length. -/
structure MalformedDeviceRecord where
  length : Nat
  deriving DecidableEq, Repr

/-- The length of a device record. -/
def deviceRecordLength : Nat := 12

/-- The wording of a malformed record. -/
def MalformedDeviceRecord.message (e : MalformedDeviceRecord) : String :=
  s!"device record must be exactly {deviceRecordLength} bytes, got {e.length}"

/-- The bytes of a 32-bit word. -/
def Bytes.ofInt32 (i : Int32) : Bytes :=
  Bytes.ofNat 4 i.toUInt32.toNat

/-- The 32-bit word with these bytes. -/
def Bytes.toInt32 (bytes : Bytes) : Int32 :=
  (UInt32.ofNat bytes.toNat).toInt32

namespace DeviceDescriptor

/-- The device that is meant when none is given. -/
def zero : DeviceDescriptor :=
  ⟨0, 0, 0⟩

/-- The capability of a device. -/
def capability (device : DeviceDescriptor) : Capability :=
  ⟨device.major, device.minor⟩

/-- The record of a device. -/
def encode (device : DeviceDescriptor) : Bytes :=
  Bytes.ofInt32 device.id ++ Bytes.ofInt32 device.major ++ Bytes.ofInt32 device.minor

/-- The device of a record. -/
def decode (record : Bytes) : Except MalformedDeviceRecord DeviceDescriptor :=
  if record.length = deviceRecordLength then
    .ok
      { id := Bytes.toInt32 (record.take 4)
        major := Bytes.toInt32 ((record.drop 4).take 4)
        minor := Bytes.toInt32 (record.drop 8) }
  else .error ⟨record.length⟩

/-- The text of a device. -/
def text (device : DeviceDescriptor) : String :=
  s!"Device(id: {device.id.toInt}, {device.capability.text})"

end DeviceDescriptor

end TensorEngine
