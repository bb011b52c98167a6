import TensorEngine.DType
import TensorEngine.Dims

/-!
# Bindings

An engine is given its inputs and returns its outputs in numbered slots. Each slot is bound to a
tensor with a name that ends in an underscore and a decimal number: its logical index among the
inputs or among the outputs.

## Main definitions

* `BindingName`, `BindingName.logicalIndex`: names, and the index at their end
* `BindingSpec`: what is bound to a slot

## Main results

* `BindingName.logicalIndex_labelled`: a label, an underscore and the digits of a word read back
-/

namespace TensorEngine

/-- The name of a binding. -/
structure BindingName where
  text : String
  deriving DecidableEq, Repr

/-- A binding name without a logical index. -/
structure MalformedBindingName where
  name : BindingName
  deriving DecidableEq, Repr

/-- The wording of a malformed name. -/
def MalformedBindingName.message (e : MalformedBindingName) : String :=
  s!"binding name `{e.name.text}` does not end in `_<index>`"

namespace BindingName

/-- The name with this label and index. -/
def labelled (label : String) (index : Nat) : BindingName :=
  ⟨s!"{label}_{index}"⟩

/-- The name of an input. -/
def input (index : Nat) : BindingName :=
  labelled "input" index

/-- The name of an output. -/
def output (index : Nat) : BindingName :=
  labelled "output" index

/-- The characters after the last underscore, none when there is no underscore. -/
def indexText? (name : List Char) : Option (List Char) :=
  if '_' ∈ name then some (name.reverse.takeWhile (· != '_')).reverse else none

/-- The word that a nonempty run of decimal digits writes. -/
def indexOfText? (digits : List Char) : Option Nat :=
  if digits ≠ [] ∧ digits.all Char.isDigit ∧ Nat.ofDigitChars 10 digits 0 < Unsigned.bound then
    some (Nat.ofDigitChars 10 digits 0)
  else none

/-- The logical index: the decimal number after the last underscore. -/
def logicalIndex (name : BindingName) : Except MalformedBindingName Nat :=
  match (indexText? name.text.toList).bind indexOfText? with
  | some index => .ok index
  | none => .error ⟨name⟩

theorem toList_labelled (label : String) (index : Nat) :
    (labelled label index).text.toList = label.toList ++ '_' :: Nat.toDigits 10 index := by
  simp [labelled, toString, Nat.repr]

theorem isDigit_of_mem_toDigits {c : Char} {n : Nat} (h : c ∈ Nat.toDigits 10 n) :
    c.isDigit = true :=
  Nat.isDigit_of_mem_toDigits (by decide) (by decide) h

theorem indexText?_append {label digits : List Char} (h : '_' ∉ digits) :
    indexText? (label ++ '_' :: digits) = some digits := by
  have hall : ∀ c ∈ digits.reverse, (c != '_') = true := by
    intro c hc
    rw [bne_iff_ne]
    rintro rfl
    exact h (List.mem_reverse.1 hc)
  simp [indexText?, List.takeWhile_append_of_pos hall]

/-- A label, an underscore and the decimal digits of a word read back as that word. -/
theorem logicalIndex_labelled (label : String) {index : Nat} (h : index < Unsigned.bound) :
    (labelled label index).logicalIndex = .ok index := by
  have hdigits : ∀ c ∈ Nat.toDigits 10 index, c.isDigit = true :=
    fun _ => isDigit_of_mem_toDigits
  have hmark : '_' ∉ Nat.toDigits 10 index := fun hmem => by
    simpa using hdigits _ hmem
  have hvalue : Nat.ofDigitChars 10 (Nat.toDigits 10 index) 0 = index :=
    Nat.ofDigitChars_toDigits (by decide) (by decide)
  have hne : Nat.toDigits 10 index ≠ [] := by
    intro hnil
    have := Nat.length_toDigits_pos (b := 10) (n := index)
    simp [hnil] at this
  simp only [logicalIndex, toList_labelled, indexText?_append hmark, Option.bind_some,
    indexOfText?, hvalue]
  rw [if_pos ⟨hne, List.all_eq_true.2 hdigits, h⟩]

end BindingName

/-- What is bound to a slot of an engine. -/
structure BindingSpec where
  name : BindingName
  isInput : Bool
  dtype : DType
  dims : Dims
  deriving DecidableEq, Repr

end TensorEngine
