import TensorEngine.Decimal.Numeral

/-!
# Shortest decimal digits

Every finite double has an interval of reals that round to it. Its shortest decimal form is the
number with the fewest digits inside that interval, and of those the nearest to the double. The
search goes through the digit counts 1 to 17: on the grid of numbers with that many digits only
the two neighbours of the double can be the answer, and the first grid with a neighbour inside the
interval wins. Of two neighbours equally near, the one with the even last digit is taken.

## Main definitions

* `shortest`: digits and exponent of a positive double
* `shortestNumeral?`: the numeral of a double: positional for exponents from -5 to 15, scientific
  otherwise
-/

namespace TensorEngine.Decimal

open Binary

/-- A positive decimal number: `digits * 10 ^ exponent`. -/
structure Scientific where
  digits : Nat
  exponent : Int
  deriving DecidableEq, Repr

/-- Numerator and denominator of `n * 10 ^ exponent`. -/
def decimalRatio (n : Nat) (exponent : Int) : Nat × Nat :=
  if 0 ≤ exponent then (n * Nat.pow 10 exponent.toNat, 1) else (n, Nat.pow 10 (-exponent).toNat)

/-- The exponent of the largest power of ten that is at most `num / den`. -/
def decimalExponent (num den : Nat) : Int :=
  if den ≤ num then ((digits (num / den)).length : Int) - 1
  -- Below one, count the digits of the largest whole number under the inverse.
  else -((digits ((den + num - 1) / num - 1)).length : Int)

/-- Four times the double and its interval, over one denominator: lower end, value, upper end,
denominator, and whether the ends belong to the interval. -/
structure Interval where
  low : Nat
  value : Nat
  high : Nat
  den : Nat
  closed : Bool

/-- The interval of reals that round to a positive magnitude. Below the smallest significand of an
exponent the numbers lie twice as dense. -/
def Interval.ofDouble (magnitude : Nat) : Interval :=
  let (significand, exponent) := double.decode magnitude
  -- Counted in quarters of the last place, the value and both ends are whole.
  let (unit, den) := ratio 1 (exponent - 2)
  let below :=
    if significand = double.exponentUnit ∧ double.leastExponent < exponent then 1 else 2
  { low := (4 * significand - below) * unit
    value := 4 * significand * unit
    high := (4 * significand + 2) * unit
    den := den
    closed := significand % 2 = 0 }

/-- The ratio `num / den` lies in the interval. -/
def Interval.contains (interval : Interval) (num den : Nat) : Bool :=
  let low := interval.low * den
  let high := interval.high * den
  let x := num * interval.den
  if interval.closed then low ≤ x && x ≤ high else low < x && x < high

/-- The number with `count` digits that lies in the interval, the nearest if there are two. -/
def candidate? (interval : Interval) (count : Nat) : Option Scientific :=
  -- The grid of numbers with `count` digits, and its point at or below the value.
  let exponent := decimalExponent interval.value interval.den - (count - 1 : Int)
  let (unit, one) := decimalRatio 1 exponent
  let lower := interval.value * one / (interval.den * unit)
  let inside (n : Nat) : Bool :=
    let (num, den) := decimalRatio n exponent
    n ≠ 0 && interval.contains num den
  -- The other neighbour wins when it is nearer, and a tie goes to the even last digit.
  let rest := interval.value * one % (interval.den * unit)
  let upperNearer := interval.den * unit < 2 * rest ∨
    (interval.den * unit = 2 * rest ∧ lower % 2 = 1)
  if inside lower ∧ (¬ inside (lower + 1) ∨ ¬ upperNearer) then some ⟨lower, exponent⟩
  else if inside (lower + 1) then some ⟨lower + 1, exponent⟩
  else none

/-- The shortest decimal form of a positive finite magnitude. -/
def shortest (magnitude : Nat) : Option Scientific :=
  (List.range 17).findSome? fun n => candidate? (Interval.ofDouble magnitude) (n + 1)

/-- The digits without trailing zeros, and how many zeros were cut. -/
def stripZeros (digits : List Char) : List Char × Nat :=
  let kept := (digits.reverse.dropWhile (· == '0')).reverse
  (kept, digits.length - kept.length)

/-- The numeral of a decimal number. With `point` digits before the decimal point it is positional
for `point` from -4 to 16, and otherwise has one digit before the point and a signed exponent. -/
def Scientific.numeral (negative : Bool) (x : Scientific) : Numeral :=
  let (ds, zeros) := stripZeros (Decimal.digits x.digits)
  let exponent := x.exponent + zeros
  let point : Int := exponent + ds.length
  if 0 ≤ exponent ∧ point ≤ 16 then
    -- A whole number: zeros fill the places up to the point.
    ⟨negative, ds ++ List.replicate exponent.toNat '0', ['0'], none⟩
  else if 0 < point ∧ point ≤ 16 then
    -- The point falls among the digits.
    ⟨negative, ds.take point.toNat, ds.drop point.toNat, none⟩
  else if -5 < point ∧ point ≤ 0 then
    -- Zeros stand between the point and the digits.
    ⟨negative, ['0'], List.replicate (-point).toNat '0' ++ ds, none⟩
  else
    let power := point - 1
    let sign := if power < 0 then '-' else '+'
    ⟨negative, ds.take 1, ds.drop 1, some ⟨some sign, Decimal.digits power.natAbs⟩⟩

/-- The shortest numeral of a double, none for what is infinite or not a number. -/
def shortestNumeral? (pattern : Nat) : Option Numeral :=
  let negative := double.signBit ≤ pattern
  let magnitude := pattern % double.signBit
  if double.infinity ≤ magnitude then none
  else if magnitude = 0 then some ⟨negative, ['0'], ['0'], none⟩
  else (shortest magnitude).map (·.numeral negative)

end TensorEngine.Decimal
