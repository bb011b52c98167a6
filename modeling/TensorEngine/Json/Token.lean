import TensorEngine.Decimal.Numeral
import TensorEngine.Json.Quoted

/-!
# Tokens of JSON text

The words of JSON text: punctuation, literals, numerals and quoted strings. Strings are kept as
they are quoted and numerals as they are written, so that a value nobody looks at is checked for
its form only.

## Main definitions

* `Token`, `Token.bytes`: the tokens, and how they are written
* `Token.next?`, `Token.all?`: the first token of a text, and all of them
-/

namespace TensorEngine.Json

open Decimal Quoted

/-- A token of JSON text. -/
inductive Token
  | leftBracket
  | rightBracket
  | leftBrace
  | rightBrace
  | comma
  | colon
  | null
  | bool (value : Bool)
  | number (numeral : Numeral)
  | string (body : Bytes)
  deriving DecidableEq, Repr

/-- The bytes of ASCII characters. -/
def asciiBytes (cs : List Char) : Bytes :=
  cs.map asciiByte

/-- A token as it is written. -/
def Token.bytes : Token → Bytes
  | .leftBracket => [0x5B]
  | .rightBracket => [0x5D]
  | .leftBrace => [0x7B]
  | .rightBrace => [0x7D]
  | .comma => [0x2C]
  | .colon => [0x3A]
  | .null => asciiBytes ['n', 'u', 'l', 'l']
  | .bool true => asciiBytes ['t', 'r', 'u', 'e']
  | .bool false => asciiBytes ['f', 'a', 'l', 's', 'e']
  | .number n => asciiBytes n.text
  | .string body => 0x22 :: body ++ [0x22]

/-- The blanks of JSON text: space, tabulator, line feed and carriage return. -/
def isBlank (byte : UInt8) : Bool :=
  byte = 0x20 || byte = 0x09 || byte = 0x0A || byte = 0x0D

/-- A decimal digit. -/
def isDigit (byte : UInt8) : Bool :=
  0x30 ≤ byte && byte ≤ 0x39

/-- The digits at the start, and the bytes behind them. -/
def spanDigits (bytes : Bytes) : List Char × Bytes :=
  ((bytes.takeWhile isDigit).map asciiChar, bytes.dropWhile isDigit)

/-- An optional minus sign. -/
def spanMinus : Bytes → Bool × Bytes
  | [] => (false, [])
  | byte :: rest => if byte = 0x2D then (true, rest) else (false, byte :: rest)

/-- An optional fraction: after a point there has to be a digit. -/
def spanFraction? : Bytes → Option (List Char × Bytes)
  | [] => some ([], [])
  | byte :: rest =>
    if byte = 0x2E then
      let (ds, rest) := spanDigits rest
      if ds.isEmpty then none else some (ds, rest)
    else some ([], byte :: rest)

/-- An optional sign of an exponent. -/
def spanSign : Bytes → Option Char × Bytes
  | [] => (none, [])
  | byte :: rest =>
    if byte = 0x2B then (some '+', rest)
    else if byte = 0x2D then (some '-', rest)
    else (none, byte :: rest)

/-- An optional exponent: after its letter and sign there has to be a digit. -/
def spanExponent? : Bytes → Option (Option Exponent × Bytes)
  | [] => some (none, [])
  | byte :: rest =>
    if byte = 0x65 ∨ byte = 0x45 then
      let (sign, rest) := spanSign rest
      let (ds, rest) := spanDigits rest
      if ds.isEmpty then none else some (some ⟨sign, ds⟩, rest)
    else some (none, byte :: rest)

/-- A whole part has a digit, and starts with zero only if that is all of it. -/
def isWholePart : List Char → Bool
  | [] => false
  | [_] => true
  | c :: _ => c != '0'

/-- The numeral at the start, and the bytes behind it. -/
def spanNumeral? (bytes : Bytes) : Option (Numeral × Bytes) := do
  let (negative, bytes) := spanMinus bytes
  let (whole, bytes) := spanDigits bytes
  guard (isWholePart whole)
  let (fraction, bytes) ← spanFraction? bytes
  let (exponent, bytes) ← spanExponent? bytes
  return (⟨negative, whole, fraction, exponent⟩, bytes)

/-- The bytes behind a literal, when they start with it. -/
def afterLiteral? (literal : List Char) (bytes : Bytes) : Option Bytes :=
  if (asciiBytes literal).isPrefixOf bytes then some (bytes.drop literal.length) else none

/-- The token that starts with `byte`, and the bytes behind it. -/
def Token.next? (byte : UInt8) (rest : Bytes) : Option (Token × Bytes) :=
  match asciiChar byte with
  | '[' => some (.leftBracket, rest)
  | ']' => some (.rightBracket, rest)
  | '{' => some (.leftBrace, rest)
  | '}' => some (.rightBrace, rest)
  | ',' => some (.comma, rest)
  | ':' => some (.colon, rest)
  | '"' => (span? rest).map fun (body, rest) => (.string body, rest)
  | 'n' => (afterLiteral? ['u', 'l', 'l'] rest).map (.null, ·)
  | 't' => (afterLiteral? ['r', 'u', 'e'] rest).map (.bool true, ·)
  | 'f' => (afterLiteral? ['a', 'l', 's', 'e'] rest).map (.bool false, ·)
  | _ => (spanNumeral? (byte :: rest)).map fun (n, rest) => (.number n, rest)

/-- At most `fuel` tokens, after those in `seen` (last first). -/
def Token.allFrom? : (fuel : Nat) → (seen : List Token) → Bytes → Option (List Token)
  | _, seen, [] => some seen.reverse
  | 0, _, _ :: _ => none
  | fuel + 1, seen, byte :: rest =>
    -- A blank separates tokens and is none itself.
    if isBlank byte then allFrom? fuel seen rest
    else
      match Token.next? byte rest with
      | none => none
      | some (token, rest) => allFrom? fuel (token :: seen) rest

/-- The tokens of a text. Every token and every blank takes at least one byte. -/
def Token.all? (bytes : Bytes) : Option (List Token) :=
  allFrom? bytes.length [] bytes

end TensorEngine.Json
