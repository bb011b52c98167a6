import TensorEngine.Proofs.Engine.Devices
import TensorEngine.Proofs.Engine.Loading

/-!
# Engine files and device records

A file is a number of four bytes, as many bytes of a record, and an engine. Every byte string that is
long enough for the number and for the record is the file of exactly one payload, and a payload has a file
that is read as this payload exactly if the length of its record is a number of four bytes. Device records
are all the byte strings of twelve bytes, and each is the record of exactly one device.

## Main results

* `DeviceDescriptor.decode_eq_ok_iff_encode`: the record of a device
* `EnginePayload.ofFile_eq_error_iff`: what is refused, and how many bytes are missed
* `EnginePayload.ofFile_eq_ok_iff_toFile`: the file of a payload
* `engine_files_are_reproduced`: files and records in both directions
-/

namespace TensorEngine

/-! ### Device records -/

theorem Bytes.ofInt32_toInt32 {bytes : Bytes} (length : bytes.length = 4) :
    ofInt32 (toInt32 bytes) = bytes := by
  have small : bytes.toNat < UInt32.size := by
    have below := bytes.toNat_lt
    rwa [length] at below
  rw [ofInt32, toInt32, UInt32.toUInt32_toInt32, UInt32.toNat_ofNat_of_lt' small, ← length,
    ofNat_toNat]

/-- The record that a device was decoded from is its record. -/
theorem DeviceDescriptor.decode_eq_ok_iff_encode {record : Bytes} {device : DeviceDescriptor} :
    decode record = .ok device ↔ device.encode = record := by
  constructor
  · intro decoded
    obtain ⟨length, rfl⟩ := decode_eq_ok_iff.mp decoded
    rw [deviceRecordLength] at length
    have first : (record.take 4).length = 4 := by simp [length]
    have second : ((record.drop 4).take 4).length = 4 := by simp [length]
    have third : (record.drop 8).length = 4 := by simp [length]
    have rest : record.drop 8 = (record.drop 4).drop 4 := by rw [List.drop_drop]
    rw [encode, Bytes.ofInt32_toInt32 first, Bytes.ofInt32_toInt32 second,
      Bytes.ofInt32_toInt32 third, rest, List.append_assoc, List.take_append_drop,
      List.take_append_drop]
  · rintro rfl
    exact decode_encode device

/-! ### Files -/

namespace EnginePayload

variable {file : Bytes} {payload : EnginePayload}

/-- The length of the record that a file declares. -/
def declared (file : Bytes) : Nat :=
  Bytes.toNat (file.take 4)

theorem declared_lt (file : Bytes) : declared file < 0x100000000 := by
  have below : declared file < 256 ^ (file.take 4).length := Bytes.toNat_lt _
  have width : 256 ^ (file.take 4).length ≤ 256 ^ 4 :=
    Nat.pow_le_pow_right (by decide) (List.length_take_le ..)
  exact Nat.lt_of_lt_of_le below width

/-- What is missing is the rest of the length, or else the rest of the record. -/
theorem ofFile_eq_error_iff {e : PayloadError} : ofFile file = .error e ↔
    file.length < 4 ∧ e = .truncated 0 (4 - file.length) ∨
      4 ≤ file.length ∧ file.length < 4 + declared file ∧
        e = .truncated 4 (4 + declared file - file.length) := by
  unfold ofFile declared
  grind

/-- The longest record that can be declared, of which one byte is there. -/
example : ofFile [255, 255, 255, 255, 0] = .error (.truncated 4 0xfffffffe) := by
  decide

/-- A file that is long enough is cut behind the length and behind the record. -/
theorem ofFile_eq_ok_iff : ofFile file = .ok payload ↔
    4 + declared file ≤ file.length ∧
      payload = ⟨(file.drop 4).take (declared file), (file.drop 4).drop (declared file)⟩ := by
  unfold ofFile declared
  grind

/-- The payload of a file is the only one with this file, and its record is short. -/
theorem ofFile_eq_ok_iff_toFile : ofFile file = .ok payload ↔
    payload.deviceRecord.length < 0x100000000 ∧ payload.toFile = file := by
  constructor
  · intro read
    obtain ⟨long, rfl⟩ := ofFile_eq_ok_iff.mp read
    have width : (file.take 4).length = 4 := by
      rw [List.length_take]
      omega
    have record : ((file.drop 4).take (declared file)).length = declared file := by
      rw [List.length_take, List.length_drop]
      omega
    have number : Bytes.ofNat 4 (declared file) = file.take 4 := by
      have written := Bytes.ofNat_toNat (file.take 4)
      rwa [width] at written
    refine ⟨record.symm ▸ declared_lt file, ?_⟩
    rw [toFile, record, number, List.append_assoc, List.take_append_drop, List.take_append_drop]
  · rintro ⟨short, rfl⟩
    exact ofFile_toFile short

end EnginePayload

/-- Files and payloads correspond, and so do records and devices. A payload is read from its file exactly
if the length of its record is a number of four bytes, and a file that is read is the file of what was
read. A file is refused exactly if it is shorter than four bytes or than the record that it declares. A
device is read from its record, every record of twelve bytes is that of the device that it is read as,
and no other record is read. So the device and the engine of a build survive in its file. -/
theorem engine_files_are_reproduced :
    (∀ payload : EnginePayload, EnginePayload.ofFile payload.toFile = .ok payload ↔
        payload.deviceRecord.length < 2 ^ 32) ∧
      (∀ file payload, EnginePayload.ofFile file = .ok payload → payload.toFile = file) ∧
      (∀ file, (∃ e, EnginePayload.ofFile file = .error e) ↔
        file.length < 4 ∨ file.length < 4 + Bytes.toNat (file.take 4)) ∧
      (∀ device : DeviceDescriptor, DeviceDescriptor.decode device.encode = .ok device) ∧
      (∀ record : Bytes, record.length = 12 →
        ∃ device, DeviceDescriptor.decode record = .ok device ∧ device.encode = record) ∧
      (∀ record : Bytes, record.length ≠ 12 →
        DeviceDescriptor.decode record = .error ⟨record.length⟩) ∧
      ∀ artifact : EngineArtifact, ∃ payload,
        EnginePayload.ofFile artifact.toPayload.toFile = .ok payload ∧
          DeviceDescriptor.decode payload.deviceRecord = .ok artifact.device ∧
          payload.engine = artifact.engine := by
  refine ⟨?_, ?_, ?_, DeviceDescriptor.decode_encode, ?_, ?_, ?_⟩
  · intro payload
    rw [EnginePayload.ofFile_eq_ok_iff_toFile]
    exact and_iff_left rfl
  · intro file payload read
    exact (EnginePayload.ofFile_eq_ok_iff_toFile.mp read).2
  · intro file
    simp only [EnginePayload.ofFile_eq_error_iff, EnginePayload.declared]
    constructor
    · rintro ⟨e, ⟨short, -⟩ | ⟨-, short, -⟩⟩
      · exact .inl short
      · exact .inr short
    · intro short
      by_cases few : file.length < 4
      · exact ⟨_, .inl ⟨few, rfl⟩⟩
      · exact ⟨_, .inr ⟨Nat.not_lt.mp few, short.resolve_left few, rfl⟩⟩
  · intro record length
    have decoded := DeviceDescriptor.decode_eq_ok_iff.mpr ⟨length, rfl⟩
    exact ⟨_, decoded, DeviceDescriptor.decode_eq_ok_iff_encode.mp decoded⟩
  · intro record other
    exact if_neg other
  · intro artifact
    have short : artifact.toPayload.deviceRecord.length < 0x100000000 := by
      rw [EngineArtifact.toPayload, DeviceDescriptor.length_encode]
      decide
    exact ⟨_, EnginePayload.ofFile_toFile short, DeviceDescriptor.decode_encode _, rfl⟩

end TensorEngine
