import TensorEngine.Fault

/-!
# Machine words

Sizes and extents are 64-bit words. The library computes with `Nat` and `Int` and says explicitly
where a result has to fit: a product that does not fit is `none`, and a sum, quotient or difference
that has no result is a fault.

## Main definitions

* `Signed.least`, `Signed.greatest`, `Unsigned.bound`: the limits of the two kinds of word
* `Signed.InRange`, `Signed.product?`: the range of a signed word, and products within it
* `Signed.ofUnsigned`: the signed reading of an unsigned word
* `Unsigned.product?`: products within the unsigned range

## Main results

* `Unsigned.product?_eq_some`: a product that fits is the exact product
-/

namespace TensorEngine

namespace Signed

variable {ε : Type} [HasFault ε]

/-- The least signed 64-bit word. -/
abbrev least : Int := -0x8000000000000000

/-- The greatest signed 64-bit word. -/
abbrev greatest : Int := 0x7FFFFFFFFFFFFFFF

/-- The integer fits in a signed 64-bit word. -/
def InRange (a : Int) : Prop :=
  least ≤ a ∧ a ≤ greatest

instance (a : Int) : Decidable (InRange a) :=
  inferInstanceAs (Decidable (_ ∧ _))

/-- The signed reading of an unsigned 64-bit word: values above `greatest` are negative. -/
def ofUnsigned (n : Nat) : Int :=
  Int.bmod n 0x10000000000000000

/-- The product, when it fits. -/
def mul? (a b : Int) : Option Int :=
  if InRange (a * b) then some (a * b) else none

/-- The product of a list from left to right, when every partial product fits. -/
def product? (factors : List Int) : Option Int :=
  factors.foldlM mul? 1

/-- The sum, a fault when it does not fit. -/
def add (a b : Int) : Except ε Int :=
  if InRange (a + b) then .ok (a + b) else .error (ofFault .overflow)

/-- The quotient rounded toward zero. -/
def quotient (a b : Int) : Except ε Int :=
  if b = 0 then .error (ofFault .divisionByZero)
  else if InRange (a.tdiv b) then .ok (a.tdiv b)
  else .error (ofFault .overflow)

/-- The remainder that belongs to the quotient rounded toward zero. -/
def remainder (a b : Int) : Except ε Int :=
  if b = 0 then .error (ofFault .divisionByZero)
  else if InRange (a.tdiv b) then .ok (a.tmod b)
  else .error (ofFault .overflow)

theorem mul?_eq_some_iff {a b c : Int} : mul? a b = some c ↔ InRange (a * b) ∧ a * b = c := by
  by_cases h : InRange (a * b) <;> simp [mul?, h]

end Signed

namespace Unsigned

variable {ε : Type} [HasFault ε]

/-- The number of unsigned 64-bit words. -/
abbrev bound : Nat := 0x10000000000000000

/-- The product, when it fits in an unsigned 64-bit word. -/
def mul? (a b : Nat) : Option Nat :=
  if a * b < bound then some (a * b) else none

/-- The product of `start` and the factors from left to right, when every partial product fits. -/
def product? (start : Nat) (factors : List Nat) : Option Nat :=
  factors.foldlM mul? start

/-- The difference, a fault when it would be negative. -/
def sub (a b : Nat) : Except ε Nat :=
  if b ≤ a then .ok (a - b) else .error (ofFault .overflow)

/-- The quotient. -/
def quotient (a b : Nat) : Except ε Nat :=
  if b = 0 then .error (ofFault .divisionByZero) else .ok (a / b)

/-- The remainder that belongs to the quotient. -/
def remainder (a b : Nat) : Except ε Nat :=
  if b = 0 then .error (ofFault .divisionByZero) else .ok (a % b)

theorem mul?_eq_some_iff {a b c : Nat} : mul? a b = some c ↔ a * b < bound ∧ a * b = c := by
  by_cases h : a * b < bound <;> simp only [mul?, h, if_true, if_false] <;> simp

/-- A product that fits is the exact product. -/
theorem product?_eq_some {start : Nat} {factors : List Nat} {n : Nat}
    (h : product? start factors = some n) : n = start * factors.foldr (· * ·) 1 := by
  induction factors generalizing start with
  | nil => simp_all [product?]
  | cons factor factors ih =>
    simp only [product?, List.foldlM_cons, Option.bind_eq_bind, Option.bind_eq_some_iff] at h
    obtain ⟨next, hnext, hrest⟩ := h
    rw [ih hrest, ← (mul?_eq_some_iff.1 hnext).2, List.foldr_cons, Nat.mul_assoc]

end Unsigned

end TensorEngine
