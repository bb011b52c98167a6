/-!
# Faults

An operation on machine words can leave the word's range, divide by zero, or reach past the end of
its data. The library never lets such an operation answer with an arbitrary value: it answers with
a *fault*, which every error type of the library can carry. A theorem that a computation stays in
range is then the statement that no fault comes out of it.

## Main definitions

* `Fault`, `HasFault`: the three ways to go wrong, and error types that can report them
* `entry`, `slice`: checked access to a list
-/

namespace TensorEngine

/-- The ways in which an operation on machine words or on stored data has no result. -/
inductive Fault
  /-- A result does not fit in its word. -/
  | overflow
  /-- A divisor is zero. -/
  | divisionByZero
  /-- A position or a stretch lies outside the data. -/
  | outOfRange
  deriving DecidableEq, Repr

/-- The text of a fault. -/
def Fault.message : Fault → String
  | .overflow => "arithmetic overflow"
  | .divisionByZero => "division by zero"
  | .outOfRange => "position out of range"

/-- Error types that can report a fault. -/
class HasFault (ε : Type) where
  /-- The error that reports `fault`. -/
  ofFault (fault : Fault) : ε

export HasFault (ofFault)

instance : HasFault Fault := ⟨id⟩

variable {ε α : Type} [HasFault ε]

/-- The entry of `xs` at `position`, a fault when there is none. -/
def entry (xs : List α) (position : Nat) : Except ε α :=
  match xs[position]? with
  | some x => .ok x
  | none => .error (ofFault .outOfRange)

/-- The entry of `xs` at `position`, a fault when there is none. -/
def arrayEntry (xs : Array α) (position : Nat) : Except ε α :=
  match xs[position]? with
  | some x => .ok x
  | none => .error (ofFault .outOfRange)

/-- The entries of `xs` from position `start` up to, but without, position `stop`. -/
def slice (xs : List α) (start stop : Nat) : Except ε (List α) :=
  if start ≤ stop ∧ stop ≤ xs.length then
    .ok ((xs.drop start).take (stop - start))
  else
    .error (ofFault .outOfRange)

theorem entry_eq_ok_iff {xs : List α} {position : Nat} {x : α} :
    (entry xs position : Except ε α) = .ok x ↔ xs[position]? = some x := by
  unfold entry
  split <;> simp_all

end TensorEngine
