import TensorEngine.Bytes

/-!
# Quoted strings

The bytes between the quotes of a JSON string, and what they stand for. Encoding writes the quote,
the backslash and the control characters below the blank as escapes and everything else as it is.
A string may be read as bytes or as a text. As bytes its escapes are resolved and all else stands
for itself; a `\u` escape that is half of a surrogate pair joins with its other half, and one that
stands alone gives the three bytes that its code point would have. As a text the string has to
escape its control characters, and its bytes have to be UTF-8, which no lone half is.

## Main definitions

* `Quoted.span?`: the bytes up to the closing quote
* `Quoted.resolve?`: the bytes that a string stands for
* `Quoted.encode`, `Quoted.decode?`: texts as quoted bytes, and back
-/

namespace TensorEngine.Json.Quoted

/-- The ASCII character of a byte. -/
def asciiChar (byte : UInt8) : Char :=
  Char.ofNat byte.toNat

/-- The byte of an ASCII character. -/
def asciiByte (c : Char) : UInt8 :=
  UInt8.ofNat c.toNat

/-- The value of a hexadecimal digit. -/
def hexValue? (byte : UInt8) : Option Nat :=
  let n := byte.toNat
  if 48 ≤ n ∧ n ≤ 57 then some (n - 48)
  else if 97 ≤ n ∧ n ≤ 102 then some (n - 87)
  else if 65 ≤ n ∧ n ≤ 70 then some (n - 55)
  else none

/-- The byte of a hexadecimal digit, in lower case. -/
def hexDigit (n : Nat) : UInt8 :=
  UInt8.ofNat (if n < 10 then 48 + n else 87 + n)

/-- The value of four hexadecimal digits. -/
def hexValue4? (a b c d : UInt8) : Option Nat := do
  let a ← hexValue? a
  let b ← hexValue? b
  let c ← hexValue? c
  let d ← hexValue? d
  return ((a * 16 + b) * 16 + c) * 16 + d

/-- The byte that a one-letter escape stands for. -/
def letterEscape? (byte : UInt8) : Option UInt8 :=
  match asciiChar byte with
  | '"' => some 0x22
  | '\\' => some 0x5C
  | '/' => some 0x2F
  | 'b' => some 0x08
  | 'f' => some 0x0C
  | 'n' => some 0x0A
  | 'r' => some 0x0D
  | 't' => some 0x09
  | _ => none

/-- Splits at the closing quote: the bytes before it, after those in `seen` (last first), and the
bytes behind it. Every escape before it has to be well formed. -/
def spanFrom? (seen : Bytes) : Bytes → Option (Bytes × Bytes)
  | [] => none
  | byte :: rest =>
    -- The closing quote.
    if byte = 0x22 then some (seen.reverse, rest)
    else if byte = 0x5C then
      match rest with
      | [] => none
      | letter :: rest =>
        -- An escape is checked for its form and kept as it is written.
        if (letterEscape? letter).isSome then spanFrom? (letter :: byte :: seen) rest
        else if letter = 0x75 then
          match rest with
          | a :: b :: c :: d :: rest =>
            if (hexValue4? a b c d).isSome then
              spanFrom? (d :: c :: b :: a :: letter :: byte :: seen) rest
            else none
          | _ => none
        else none
    else spanFrom? (byte :: seen) rest

/-- The bytes up to the closing quote, and the bytes behind it. -/
def span? (bytes : Bytes) : Option (Bytes × Bytes) :=
  spanFrom? [] bytes

/-- A control character, which a text has to escape. -/
def isControl (byte : UInt8) : Bool :=
  byte < 0x20

/-- Every control character is written as an escape. -/
def escapesControls (body : Bytes) : Bool :=
  body.all fun byte => !isControl byte

/-- The high half of a surrogate pair. -/
def isHighSurrogate (n : Nat) : Bool :=
  0xD800 ≤ n && n ≤ 0xDBFF

/-- The low half of a surrogate pair. -/
def isLowSurrogate (n : Nat) : Bool :=
  0xDC00 ≤ n && n ≤ 0xDFFF

/-- The code point of a surrogate pair. -/
def joinSurrogates (high low : Nat) : Nat :=
  0x10000 + (high - 0xD800) * 0x400 + (low - 0xDC00)

/-- The bytes of a code point: its UTF-8 form. Half of a surrogate pair has none and is written as
its neighbours are, in three bytes that hold four, six and six of its bits. -/
def codePoint (n : Nat) : Bytes :=
  if isHighSurrogate n || isLowSurrogate n then
    [0xED, UInt8.ofNat (0x80 + n / 0x40 % 0x40), UInt8.ofNat (0x80 + n % 0x40)]
  else String.utf8EncodeChar (Char.ofNat n)

/-- What a string is made of: bytes, and the numbers of its `\u` escapes. -/
inductive Piece
  | byte (value : UInt8)
  | unit (value : Nat)
  deriving DecidableEq, Repr

/-- The pieces of a string, behind those in `seen` (last first). -/
def piecesFrom? (seen : List Piece) : Bytes → Option (List Piece)
  | [] => some seen.reverse
  | byte :: rest =>
    if byte = 0x5C then
      match rest with
      | [] => none
      | letter :: rest =>
        match letterEscape? letter with
        | some resolved => piecesFrom? (.byte resolved :: seen) rest
        | none =>
          if letter = 0x75 then
            match rest with
            | a :: b :: c :: d :: rest =>
              match hexValue4? a b c d with
              | some n => piecesFrom? (.unit n :: seen) rest
              | none => none
            | _ => none
          else none
    else piecesFrom? (.byte byte :: seen) rest

/-- The bytes of pieces, behind those in `done` (last first). A low half directly behind its high
half makes one code point with it. -/
def Piece.bytesFrom (done : Bytes) : List Piece → Bytes
  | [] => done.reverse
  | .byte value :: rest => bytesFrom (value :: done) rest
  | .unit high :: .unit low :: rest =>
    if isHighSurrogate high && isLowSurrogate low then
      bytesFrom ((codePoint (joinSurrogates high low)).reverse ++ done) rest
    else bytesFrom ((codePoint high).reverse ++ done) (.unit low :: rest)
  | .unit value :: rest => bytesFrom ((codePoint value).reverse ++ done) rest

/-- The bytes that a string stands for. -/
def resolve? (body : Bytes) : Option Bytes :=
  (piecesFrom? [] body).map (Piece.bytesFrom [])

/-- The text that a string stands for. -/
def decode? (body : Bytes) : Option String :=
  if escapesControls body then (resolve? body).bind Bytes.toString? else none

/-- A byte as it is written between quotes. -/
def escape (byte : UInt8) : Bytes :=
  if byte = 0x22 then [0x5C, 0x22]
  else if byte = 0x5C then [0x5C, 0x5C]
  else if byte = 0x08 then [0x5C, 0x62]
  else if byte = 0x0C then [0x5C, 0x66]
  else if byte = 0x0A then [0x5C, 0x6E]
  else if byte = 0x0D then [0x5C, 0x72]
  else if byte = 0x09 then [0x5C, 0x74]
  else if isControl byte then
    [0x5C, 0x75, 0x30, 0x30, hexDigit (byte.toNat / 16), hexDigit (byte.toNat % 16)]
  else [byte]

/-- The bytes between the quotes of a text. -/
def encode (text : String) : Bytes :=
  (Bytes.ofString text).flatMap escape

end TensorEngine.Json.Quoted
