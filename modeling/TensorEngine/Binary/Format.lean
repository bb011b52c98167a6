/-!
# Binary interchange formats

A finite number of a binary interchange format is a significand times a power of two. The library
keeps such numbers as their bit patterns; this file rounds exact ratios to them and converts
between them, in integer arithmetic throughout. Rounding goes to the nearest number, and of two
equally near ones to the one with the even significand.

## Main definitions

* `Format.nearest`: the pattern of the number nearest to a ratio
* `Format.decode`: the significand and the exponent behind a pattern
* `Format.ofDecimal`: the number that a decimal significand and exponent stand for
* `narrow`, `widen`: conversions between single and double precision
-/

namespace TensorEngine.Binary

/-- A binary format: the number of significand bits, the leading one included, and the number of
exponent bits. -/
structure Format where
  precision : Nat
  exponentBits : Nat
  deriving DecidableEq, Repr

/-- Single precision: 32-bit patterns. -/
def single : Format := ⟨24, 8⟩

/-- Double precision: 64-bit patterns. -/
def double : Format := ⟨53, 11⟩

/-- The quotient rounded to the nearest integer, a half to the even neighbour. -/
def roundHalfEven (num den : Nat) : Nat :=
  let whole := num / den
  let rest := num % den
  if den < 2 * rest ∨ (den = 2 * rest ∧ whole % 2 = 1) then whole + 1 else whole

/-- Numerator and denominator of `significand * 2 ^ exponent`. -/
def ratio (significand : Nat) (exponent : Int) : Nat × Nat :=
  if 0 ≤ exponent then (significand * Nat.pow 2 exponent.toNat, 1)
  else (significand, Nat.pow 2 (-exponent).toNat)

/-- The exponent of the largest power of two that is at most `num / den`. -/
def binaryExponent (num den : Nat) : Int :=
  -- The lengths of the two numbers give the exponent or the one above it.
  let estimate : Int := (Nat.log2 num : Int) - Nat.log2 den
  let (scale, one) := ratio den estimate
  if num * one < scale then estimate - 1 else estimate

namespace Format

variable (f : Format)

/-- The exponent of the smallest positive number. -/
def leastExponent : Int :=
  3 - Int.ofNat (Nat.pow 2 (f.exponentBits - 1)) - f.precision

/-- The weight of the lowest exponent bit in a pattern. -/
def exponentUnit : Nat :=
  Nat.pow 2 (f.precision - 1)

/-- The pattern of positive infinity. -/
def infinity : Nat :=
  (Nat.pow 2 f.exponentBits - 1) * f.exponentUnit

/-- The pattern of negative zero, which is the sign bit alone. -/
def signBit : Nat :=
  Nat.pow 2 f.exponentBits * f.exponentUnit

/-- The pattern of the number nearest to `num / den`; infinity from half a unit past the greatest
number on. -/
def nearest (num den : Nat) : Nat :=
  if num = 0 then 0
  else
    -- Below the least exponent the spacing stays, and leading bits are lost instead.
    let exponent := max f.leastExponent (binaryExponent num den - (f.precision - 1))
    let (scale, one) := ratio den exponent
    let significand := roundHalfEven (num * one) scale
    -- The leading bit of the significand counts as one in the exponent, and so does the carry of a
    -- significand that was rounded up to a power of two.
    min ((exponent - f.leastExponent).toNat * f.exponentUnit + significand) f.infinity

/-- Significand and exponent of a pattern without its sign. -/
def decode (magnitude : Nat) : Nat × Int :=
  let biased := magnitude / f.exponentUnit
  let fraction := magnitude % f.exponentUnit
  -- The smallest numbers have no leading bit that goes without saying.
  if biased = 0 then (fraction, f.leastExponent)
  else (f.exponentUnit + fraction, f.leastExponent + biased - 1)

/-- Numerator and denominator of a finite pattern without its sign. -/
def ratioOf (magnitude : Nat) : Nat × Nat :=
  let (significand, exponent) := f.decode magnitude
  ratio significand exponent

/-- The product of two magnitudes, rounded once. -/
def times (a b : Nat) : Nat :=
  let (num, den) := f.ratioOf a
  let (num', den') := f.ratioOf b
  f.nearest (num * num') (den * den')

/-- The quotient of two magnitudes, rounded once. -/
def quotient (a b : Nat) : Nat :=
  let (num, den) := f.ratioOf a
  let (num', den') := f.ratioOf b
  f.nearest (num * den') (den * num')

/-- The sign bit if `negative`, and the magnitude. -/
def withSign (negative : Bool) (magnitude : Nat) : Nat :=
  if negative then f.signBit + magnitude else magnitude

/-- The number nearest to an integer. -/
def ofInt (i : Int) : Nat :=
  f.withSign (i < 0) (f.nearest i.natAbs 1)

/-- A power of ten, rounded. -/
def powerOfTen (k : Nat) : Nat :=
  f.nearest (Nat.pow 10 k) 1

/-- The number `a` divided by `10 ^ k`, at most 308 powers in one step, each step rounded. -/
def shrink (a k : Nat) : Nat :=
  if k ≤ 308 then f.quotient a (f.powerOfTen k)
  else if a = 0 then a
  else shrink (f.quotient a (f.powerOfTen 308)) (k - 308)
termination_by k

/-- The magnitude that `significand * 10 ^ exponent` stands for: both factors are rounded and so
is their product. There is none when it is not finite. -/
def ofDecimal (significand : Nat) (exponent : Int) : Option Nat :=
  let a := f.nearest significand 1
  if exponent < 0 then some (f.shrink a (-exponent).toNat)
  else if exponent ≤ 308 then
    let product := f.times a (f.powerOfTen exponent.toNat)
    if product = f.infinity then none else some product
  -- Past the 308th, no power of ten is finite.
  else if a = 0 then some a
  else none

end Format

/-- The single precision number nearest to a double. What is not a number stays so, with the
leading bits of its payload and the quiet bit set. -/
def narrow (pattern : UInt64) : UInt32 :=
  let negative := double.signBit ≤ pattern.toNat
  let magnitude := pattern.toNat % double.signBit
  let result :=
    if double.infinity < magnitude then
      -- The quiet bit is set, so that cutting the payload cannot yield infinity.
      let payload :=
        magnitude % double.exponentUnit / Nat.pow 2 (double.precision - single.precision)
      single.infinity + (payload ||| single.exponentUnit / 2)
    else if magnitude = double.infinity then single.infinity
    else
      let (num, den) := double.ratioOf magnitude
      single.nearest num den
  UInt32.ofNat (single.withSign negative result)

/-- The double that equals a finite single precision number, without its sign. -/
def widen (magnitude : Nat) : Nat :=
  let (num, den) := single.ratioOf magnitude
  double.nearest num den

/-- The double nearest to an integer. -/
def doubleOfInt (i : Int) : UInt64 :=
  UInt64.ofNat (double.ofInt i)

/-- The single precision number nearest to an integer. -/
def singleOfInt (i : Int) : UInt32 :=
  UInt32.ofNat (single.ofInt i)

/-- The double one. -/
def doubleOne : UInt64 := 0x3FF0000000000000

end TensorEngine.Binary
