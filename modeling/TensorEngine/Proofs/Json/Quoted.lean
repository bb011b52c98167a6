import Mathlib.Data.List.Basic
import TensorEngine.Json.Quoted

/-!
# Quoted texts read back

A text between quotes is escaped byte by byte. Each byte is written in one of three ways: as a
letter escape, as a `\u` escape with two leading zeros, or as itself. The reader that looks for the
closing quote passes over each of them as a whole, and the reader that resolves escapes takes each
back to the byte it came from.

## Main results

* `Quoted.span?_encode`: the closing quote behind an encoded text is found
* `Quoted.decode?_encode`: an encoded text reads back
-/

namespace TensorEngine.Json.Quoted

/-- The ways in which a byte is written between quotes. -/
inductive Escaped (byte : UInt8) : Bytes → Prop
  /-- A letter stands for the byte. -/
  | letter (l : UInt8) (h : letterEscape? l = some byte) (plain : isControl l = false) :
      Escaped byte [0x5C, l]
  /-- Four hexadecimal digits stand for the byte, which is a control character. -/
  | hex (c d : UInt8) (h : hexValue4? 0x30 0x30 c d = some byte.toNat)
      (control : byte.toNat < 0x20) (plain : isControl c = false ∧ isControl d = false) :
      Escaped byte [0x5C, 0x75, 0x30, 0x30, c, d]
  /-- The byte stands for itself. -/
  | plain (quote : byte ≠ 0x22) (escape : byte ≠ 0x5C) (plain : isControl byte = false) :
      Escaped byte [byte]

private theorem hexValue4?_hexDigit :
    ∀ n < 0x20, hexValue4? 0x30 0x30 (hexDigit (n / 16)) (hexDigit (n % 16)) = some n := by
  decide

private theorem isControl_hexDigit : ∀ n < 16, isControl (hexDigit n) = false := by
  decide

private theorem toNat_lt_of_isControl {byte : UInt8} (h : isControl byte = true) :
    byte.toNat < 0x20 := by
  simpa [isControl, UInt8.lt_iff_toNat_lt] using h

/-- Every byte is written in one of the three ways. -/
theorem escaped_escape (byte : UInt8) : Escaped byte (escape byte) := by
  unfold escape
  split_ifs with quote slash bell feed line ret tab control
  · exact .letter 0x22 (by rw [quote]; decide) (by decide)
  · exact .letter 0x5C (by rw [slash]; decide) (by decide)
  · exact .letter 0x62 (by rw [bell]; decide) (by decide)
  · exact .letter 0x66 (by rw [feed]; decide) (by decide)
  · exact .letter 0x6E (by rw [line]; decide) (by decide)
  · exact .letter 0x72 (by rw [ret]; decide) (by decide)
  · exact .letter 0x74 (by rw [tab]; decide) (by decide)
  · have small := toNat_lt_of_isControl control
    exact .hex _ _ (hexValue4?_hexDigit _ small) small
      ⟨isControl_hexDigit _ (by omega), isControl_hexDigit _ (by omega)⟩
  · exact .plain quote slash (by simpa using control)

/-! ### Finding the closing quote -/

/-- The reader passes over an escaped byte as a whole. -/
theorem spanFrom?_escaped {byte : UInt8} {written : Bytes} (h : Escaped byte written)
    (seen rest : Bytes) :
    spanFrom? seen (written ++ rest) = spanFrom? (written.reverse ++ seen) rest := by
  cases h with
  | letter l h _ =>
    rw [List.cons_append, spanFrom?.eq_def]
    simp [h]
  | hex c d h _ _ =>
    have form : letterEscape? 0x75 = none := by decide
    rw [List.cons_append, spanFrom?.eq_def]
    simp [form, h]
  | plain quote slash _ =>
    rw [List.cons_append, spanFrom?.eq_def]
    simp [quote, slash]

private theorem spanFrom?_flatMap (bytes seen rest : Bytes) :
    spanFrom? seen (bytes.flatMap escape ++ 0x22 :: rest) =
      some (seen.reverse ++ bytes.flatMap escape, rest) := by
  induction bytes generalizing seen with
  | nil =>
    rw [List.flatMap_nil, List.nil_append, spanFrom?.eq_def]
    simp
  | cons byte bytes ih =>
    rw [List.flatMap_cons, List.append_assoc, spanFrom?_escaped (escaped_escape byte), ih]
    simp

/-- The closing quote behind an encoded text is found. -/
theorem span?_encode (text : String) (rest : Bytes) :
    span? (encode text ++ 0x22 :: rest) = some (encode text, rest) :=
  spanFrom?_flatMap _ [] rest

/-! ### Resolving escapes -/

/-- The piece that a byte is read as when it is written in this way. -/
def pieceOf (byte : UInt8) (written : Bytes) : Piece :=
  if written.length = 6 then .unit byte.toNat else .byte byte

/-- The reader takes an escaped byte as one piece. -/
theorem piecesFrom?_escaped {byte : UInt8} {written : Bytes} (h : Escaped byte written)
    (seen : List Piece) (rest : Bytes) :
    piecesFrom? seen (written ++ rest) = piecesFrom? (pieceOf byte written :: seen) rest := by
  cases h with
  | letter l h _ =>
    rw [List.cons_append, piecesFrom?.eq_def]
    simp [h, pieceOf]
  | hex c d h _ _ =>
    have form : letterEscape? 0x75 = none := by decide
    rw [List.cons_append, piecesFrom?.eq_def]
    simp [form, h, pieceOf]
  | plain _ slash _ =>
    rw [List.cons_append, piecesFrom?.eq_def]
    simp [slash, pieceOf]

private theorem piecesFrom?_flatMap (bytes : Bytes) (seen : List Piece) :
    piecesFrom? seen (bytes.flatMap escape) =
      some (seen.reverse ++ bytes.map fun byte => pieceOf byte (escape byte)) := by
  induction bytes generalizing seen with
  | nil => simp [piecesFrom?]
  | cons byte bytes ih =>
    rw [List.flatMap_cons, piecesFrom?_escaped (escaped_escape byte), ih]
    simp

private theorem codePoint_control :
    ∀ n < 0x20, isHighSurrogate n = false ∧ codePoint n = [UInt8.ofNat n] := by
  decide

/-- A piece that comes from a byte stands for that byte, whatever follows it. -/
theorem bytesFrom_pieceOf {byte : UInt8} {written : Bytes} (h : Escaped byte written)
    (done : Bytes) (rest : List Piece) :
    Piece.bytesFrom done (pieceOf byte written :: rest) =
      Piece.bytesFrom (byte :: done) rest := by
  cases h with
  | letter l h _ => simp [pieceOf, Piece.bytesFrom]
  | hex c d _ control _ =>
    obtain ⟨notHigh, point⟩ := codePoint_control _ control
    -- A control character is no half of a pair, so the piece behind it stays apart.
    rcases rest with _ | ⟨_ | low, rest⟩ <;>
      simp [pieceOf, Piece.bytesFrom, notHigh, point]
  | plain _ _ _ => simp [pieceOf, Piece.bytesFrom]

private theorem bytesFrom_map (bytes done : Bytes) :
    Piece.bytesFrom done (bytes.map fun byte => pieceOf byte (escape byte)) =
      done.reverse ++ bytes := by
  induction bytes generalizing done with
  | nil => simp [Piece.bytesFrom]
  | cons byte bytes ih =>
    rw [List.map_cons, bytesFrom_pieceOf (escaped_escape byte), ih]
    simp

/-- The bytes of a text come out of its encoding. -/
theorem resolve?_encode (text : String) : resolve? (encode text) = some (Bytes.ofString text) := by
  rw [resolve?, encode, piecesFrom?_flatMap, Option.map_some, List.reverse_nil, List.nil_append,
    bytesFrom_map]
  rfl

private theorem escapesControls_escaped {byte : UInt8} {written : Bytes}
    (h : Escaped byte written) : escapesControls written = true := by
  have slash : isControl 0x5C = false := by decide
  have mark : isControl 0x75 = false := by decide
  have zero : isControl 0x30 = false := by decide
  cases h with
  | letter l _ plain => simp [escapesControls, slash, plain]
  | hex c d _ _ plain => simp [escapesControls, slash, mark, zero, plain]
  | plain _ _ plain => simp [escapesControls, plain]

/-- An encoded text holds no control character. -/
theorem escapesControls_encode (text : String) : escapesControls (encode text) = true := by
  simp only [encode, escapesControls, List.all_flatMap, List.all_eq_true]
  intro byte _
  exact List.all_eq_true.mp (escapesControls_escaped (escaped_escape byte))

/-- An encoded text reads back. -/
@[simp] theorem decode?_encode (text : String) : decode? (encode text) = some text := by
  rw [decode?, if_pos (escapesControls_encode text), resolve?_encode, Option.bind_some,
    Bytes.toString?_ofString]

end TensorEngine.Json.Quoted
