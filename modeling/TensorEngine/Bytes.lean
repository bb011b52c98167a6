/-!
# Byte strings

Tensor data, engine files and device records are strings of bytes. Numbers in them are written
least significant byte first, text is written in UTF-8.

## Main definitions

* `Bytes.ofNat`, `Bytes.toNat`: the fixed-width encoding of a number and its value
* `Bytes.chunks`: a byte string cut into cells of equal width
* `Bytes.ofString`, `Bytes.toString?`: text

## Main results

* `Bytes.toNat_ofNat`, `Bytes.ofNat_toNat`: the encoding is exact in both directions
* `Bytes.toString?_ofString`: text reads back
-/

namespace TensorEngine

/-- A string of bytes. -/
abbrev Bytes := List UInt8

namespace Bytes

/-- The `width` lowest bytes of `n`, least significant first. -/
def ofNat : (width n : Nat) → Bytes
  | 0, _ => []
  | width + 1, n => UInt8.ofNat n :: ofNat width (n / 256)

/-- The number whose bytes these are, least significant first. -/
def toNat : Bytes → Nat
  | [] => 0
  | byte :: rest => byte.toNat + 256 * toNat rest

/-- The first `count` cells of `width` bytes each. -/
def chunks (width : Nat) : (count : Nat) → Bytes → List Bytes
  | 0, _ => []
  | count + 1, bytes => bytes.take width :: chunks width count (bytes.drop width)

/-- The UTF-8 form of a text. -/
def ofString (text : String) : Bytes :=
  text.toByteArray.data.toList

/-- The text that these bytes are the UTF-8 form of. -/
def toString? (bytes : Bytes) : Option String :=
  String.fromUTF8? ⟨bytes.toArray⟩

@[simp]
theorem length_ofNat (width n : Nat) : (ofNat width n).length = width := by
  induction width generalizing n with
  | zero => rfl
  | succ width ih => simp [ofNat, ih]

theorem toNat_ofNat (width n : Nat) : toNat (ofNat width n) = n % Nat.pow 256 width := by
  induction width generalizing n with
  | zero => simp [ofNat, toNat, Nat.mod_one]
  | succ width ih =>
    have hlow : (UInt8.ofNat n).toNat = n % 256 := UInt8.toNat_ofNat'
    simp only [ofNat, toNat, hlow, ih, Nat.pow_eq]
    rw [Nat.pow_succ, Nat.mul_comm _ 256, Nat.mod_mul]

theorem toNat_lt (bytes : Bytes) : toNat bytes < Nat.pow 256 bytes.length := by
  induction bytes with
  | nil => simp [toNat]
  | cons byte rest ih =>
    have := byte.toNat_lt
    simp only [toNat, List.length_cons, Nat.pow_eq, Nat.pow_succ] at ih ⊢
    omega

/-- A byte string is the encoding of its value at its own width. -/
theorem ofNat_toNat (bytes : Bytes) : ofNat bytes.length (toNat bytes) = bytes := by
  induction bytes with
  | nil => rfl
  | cons byte rest ih =>
    have hbyte := byte.toNat_lt
    have hlow : UInt8.ofNat (toNat (byte :: rest)) = byte := by
      apply UInt8.toNat.inj
      simp only [toNat, UInt8.toNat_ofNat']
      omega
    have hrest : toNat (byte :: rest) / 256 = toNat rest := by
      simp only [toNat]
      omega
    rw [List.length_cons, ofNat, hlow, hrest, ih]

@[simp]
theorem length_chunks (width count : Nat) (bytes : Bytes) :
    (chunks width count bytes).length = count := by
  induction count generalizing bytes with
  | zero => rfl
  | succ count ih => simp [chunks, ih]

theorem flatten_chunks {width count : Nat} {bytes : Bytes} (h : bytes.length = width * count) :
    (chunks width count bytes).flatten = bytes := by
  induction count generalizing bytes with
  | zero => simp_all [chunks]
  | succ count ih =>
    have hdrop : (bytes.drop width).length = width * count := by
      rw [List.length_drop, h, Nat.mul_succ]
      omega
    simp [chunks, ih hdrop]

@[simp]
theorem toString?_ofString (text : String) : toString? (ofString text) = some text := by
  have hvalid := text.isValidUTF8
  simp [toString?, ofString, String.fromUTF8?, hvalid, String.fromUTF8]

end Bytes

end TensorEngine
