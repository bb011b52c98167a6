import TensorEngine.Binary.Format
import TensorEngine.Word

/-!
# Decimal numerals

A numeral as it is written: sign, digits, fraction and exponent. Its value is read either as an
integer, when it is written as one and fits in 64 bits, or as the nearest double that one rounded
scaling by a power of ten yields.

## Main definitions

* `Numeral`, `Numeral.text`: the parts of a numeral, and how they are written
* `Numeral.integer?`, `Numeral.double?`, `Numeral.single?`: its values
-/

namespace TensorEngine.Decimal

open Binary

/-- The exponent part of a numeral: its sign as written, if any, and its digits. -/
structure Exponent where
  sign : Option Char
  digits : List Char
  deriving DecidableEq, Repr

/-- A decimal numeral. An empty fraction is not written, and neither is its point. -/
structure Numeral where
  negative : Bool
  whole : List Char
  fraction : List Char
  exponent : Option Exponent
  deriving DecidableEq, Repr

/-- The decimal digits of a number, highest first. -/
def digits (n : Nat) : List Char :=
  Nat.toDigits 10 n

/-- The number that digits write. -/
def value (ds : List Char) : Nat :=
  Nat.ofDigitChars 10 ds 0

@[simp]
theorem value_digits (n : Nat) : value (digits n) = n :=
  Nat.ofDigitChars_toDigits (by decide) (by decide)

namespace Numeral

/-- The numeral of an integer. -/
def ofInt (i : Int) : Numeral :=
  ⟨i < 0, digits i.natAbs, [], none⟩

/-- The characters of a numeral. -/
def text (n : Numeral) : List Char :=
  (if n.negative then ['-'] else []) ++ n.whole ++
    (if n.fraction.isEmpty then [] else '.' :: n.fraction) ++
    match n.exponent with
    | none => []
    | some e => 'e' :: e.sign.toList ++ e.digits

/-- Takes digits as long as the number they write fits in 64 bits: the number, and the digits that
were left. -/
def leading (start : Nat) : List Char → Nat × List Char
  | [] => (start, [])
  | c :: cs =>
    let next := start * 10 + (c.toNat - '0'.toNat)
    if next < Unsigned.bound then leading next cs else (start, c :: cs)

/-- The value of a numeral without fraction and exponent that fits in a 64-bit word: unsigned if
it has no sign, signed and not zero if it has one. -/
def integer? (n : Numeral) : Option Int :=
  if n.fraction.isEmpty && n.exponent.isNone then
    let magnitude := value n.whole
    if n.negative then
      -- A negative zero has no integer value: it would lose its sign.
      if 0 < magnitude ∧ magnitude ≤ 0x8000000000000000 then some (-magnitude) else none
    else if magnitude < Unsigned.bound then some magnitude
    else none
  else none

/-- The significand and the power of ten that a double is computed from: the leading digits that
fit in 64 bits. Further digits of the whole part raise the power, further digits of the fraction
are dropped. -/
def scaled (n : Numeral) : Nat × Int :=
  let (whole, dropped) := leading 0 n.whole
  let (significand, unread) := leading whole n.fraction
  -- Each whole digit left out raises the power, each fraction digit taken lowers it.
  let shift : Int := dropped.length - (n.fraction.length - unread.length : Int)
  let power : Int :=
    match n.exponent with
    | none => 0
    | some e => if e.sign = some '-' then -(value e.digits : Int) else value e.digits
  (significand, shift + power)

/-- The magnitude of a numeral as a double; none when it is not finite. -/
def magnitude? (n : Numeral) : Option Nat :=
  let (significand, power) := n.scaled
  double.ofDecimal significand power

/-- The double that a numeral stands for; none when it is not finite. -/
def double? (n : Numeral) : Option UInt64 :=
  match n.integer? with
  | some i => some (doubleOfInt i)
  | none => n.magnitude?.map fun m => UInt64.ofNat (double.withSign n.negative m)

/-- The single precision number that a numeral stands for. Integers are rounded directly, other
numerals by way of the double. -/
def single? (n : Numeral) : Option UInt32 :=
  match n.integer? with
  | some i => some (singleOfInt i)
  | none => n.double?.map narrow

end Numeral

end TensorEngine.Decimal
