import Mathlib.Data.List.Induction
import Mathlib.Data.Nat.Digits.Defs
import TensorEngine.Binding

/-!
# Binding names

A name has a logical index if it ends in an underscore and decimal digits whose value is a word. What
stands in front of the underscore is the label: it may be empty, and it may have underscores of its
own. Digits are no underscores, so that a name can be split in one way only: at its last underscore.

## Main definitions

* `BindingName.Reads`: a label, an underscore and digits, and the number that they write

## Main results

* `BindingName.indexText?_eq_some_iff`: what stands behind the last underscore
* `BindingName.index_is_read_iff`: names with a logical index, and the names of inputs and outputs
-/

namespace TensorEngine.BindingName

variable {name : BindingName} {label digits label' digits' : List Char} {index index' : Nat}

/-- The decimal value of a run of digits, the last of which counts the units. -/
def decimalValue (digits : List Char) : Nat :=
  Nat.ofDigits 10 (digits.map fun c => c.toNat - '0'.toNat).reverse

/-- The name is a label, an underscore and at least one digit, and the digits write a word. -/
structure Reads (name : BindingName) (label digits : List Char) (index : Nat) : Prop where
  split : name.text.toList = label ++ '_' :: digits
  nonempty : digits ≠ []
  decimal : ∀ c ∈ digits, '0' ≤ c ∧ c ≤ '9'
  value : decimalValue digits = index
  word : index < Unsigned.bound

/-- A digit that follows others multiplies their value by ten, and adds its own. -/
theorem ofDigitChars_eq_decimalValue (digits : List Char) :
    Nat.ofDigitChars 10 digits 0 = decimalValue digits := by
  induction digits using List.reverseRecOn with
  | nil => rfl
  | append_singleton digits c ih =>
    rw [Nat.ofDigitChars_append, ih, Nat.ofDigitChars_cons, Nat.ofDigitChars_nil]
    simp [decimalValue, Nat.ofDigits_cons, Nat.add_comm]

theorem isDigit_iff {c : Char} : c.isDigit = true ↔ '0' ≤ c ∧ c ≤ '9' := by
  simp [Char.isDigit, Char.le_def]

theorem underscore_notMem (decimal : ∀ c ∈ digits, '0' ≤ c ∧ c ≤ '9') : '_' ∉ digits :=
  fun member => absurd (decimal '_' member) (by decide)

/-- What stands behind the last underscore of a name. -/
theorem indexText?_eq_some_iff {text : List Char} :
    indexText? text = some digits ↔ ∃ label, text = label ++ '_' :: digits ∧ '_' ∉ digits := by
  constructor
  · intro found
    have member : '_' ∈ text := by
      by_contra absent
      simp [indexText?, absent] at found
    -- The last underscore is the first one from behind.
    obtain ⟨after, before, reversed, absent⟩ :=
      List.eq_append_cons_of_mem (List.mem_reverse.mpr member)
    have split : text = before.reverse ++ '_' :: after.reverse := by
      simpa using congrArg List.reverse reversed
    have absent' : '_' ∉ after.reverse := mt List.mem_reverse.mp absent
    rw [split, indexText?_append absent'] at found
    cases found
    exact ⟨before.reverse, split, absent'⟩
  · rintro ⟨label, rfl, absent⟩
    exact indexText?_append absent

theorem indexOfText?_eq_some_iff : indexOfText? digits = some index ↔
    digits ≠ [] ∧ (∀ c ∈ digits, '0' ≤ c ∧ c ≤ '9') ∧ decimalValue digits = index ∧
      index < Unsigned.bound := by
  simp only [indexOfText?, ofDigitChars_eq_decimalValue, List.all_eq_true, isDigit_iff]
  constructor
  · intro read
    split at read
    next readable =>
      cases read
      exact ⟨readable.1, readable.2.1, rfl, readable.2.2⟩
    next => cases read
  · rintro ⟨nonempty, decimal, rfl, word⟩
    rw [if_pos ⟨nonempty, decimal, word⟩]

/-- Digits have no underscore, so a name is split at its last one. -/
theorem Reads.unique (h : name.Reads label digits index) (h' : name.Reads label' digits' index') :
    label = label' ∧ digits = digits' ∧ index = index' := by
  have here : indexText? name.text.toList = some digits :=
    h.split ▸ indexText?_append (underscore_notMem h.decimal)
  have there : indexText? name.text.toList = some digits' :=
    h'.split ▸ indexText?_append (underscore_notMem h'.decimal)
  have same : digits = digits' := Option.some.inj (here.symm.trans there)
  subst same
  exact ⟨List.append_cancel_right (h.split.symm.trans h'.split), rfl, h.value.symm.trans h'.value⟩

/-- A name has a logical index if it is a label, an underscore and digits that write it. -/
theorem logicalIndex_eq_ok_iff :
    name.logicalIndex = .ok index ↔ ∃ label digits, name.Reads label digits index := by
  have found : name.logicalIndex = .ok index ↔
      (indexText? name.text.toList).bind indexOfText? = some index := by
    unfold logicalIndex
    cases (indexText? name.text.toList).bind indexOfText? <;> simp
  simp only [found, Option.bind_eq_some_iff, indexText?_eq_some_iff, indexOfText?_eq_some_iff]
  constructor
  · rintro ⟨digits, ⟨label, split, -⟩, nonempty, decimal, value, word⟩
    exact ⟨label, digits, split, nonempty, decimal, value, word⟩
  · rintro ⟨label, digits, split, nonempty, decimal, value, word⟩
    exact ⟨digits, ⟨label, split, underscore_notMem decimal⟩, nonempty, decimal, value, word⟩

/-- Whatever a name is: it has the logical index `index` exactly if it is a label, an underscore and
at least one decimal digit, with nothing behind and with `index` as their value, which is a word. There
is at most one such reading. A name without one is reported as malformed. Inputs and outputs are named
so that each of their indices is read back. -/
theorem index_is_read_iff (name : BindingName) :
    (∀ index, name.logicalIndex = .ok index ↔ ∃ label digits, name.Reads label digits index) ∧
      (∀ label digits index label' digits' index', name.Reads label digits index →
        name.Reads label' digits' index' →
          label = label' ∧ digits = digits' ∧ index = index') ∧
      (∀ e, name.logicalIndex = .error e ↔
        e = ⟨name⟩ ∧ ¬ ∃ label digits index, name.Reads label digits index) ∧
      ∀ index < Unsigned.bound,
        (input index).logicalIndex = .ok index ∧ (output index).logicalIndex = .ok index := by
  refine ⟨fun _ => logicalIndex_eq_ok_iff, fun _ _ _ _ _ _ => Reads.unique, fun e => ?_,
    fun index word => ⟨logicalIndex_labelled _ word, logicalIndex_labelled _ word⟩⟩
  have read : (∃ label digits index, name.Reads label digits index) ↔
      ∃ index, name.logicalIndex = .ok index := by
    simp only [logicalIndex_eq_ok_iff]
    exact ⟨fun ⟨label, digits, index, reads⟩ => ⟨index, label, digits, reads⟩,
      fun ⟨index, label, digits, reads⟩ => ⟨label, digits, index, reads⟩⟩
  rw [read]
  unfold logicalIndex
  split <;> simp [eq_comm]

/-- The label has an underscore, and the digits start with zeros. -/
theorem index_is_read_iff_padded : (BindingName.mk "a_b_007").logicalIndex = .ok 7 ∧
    (2 < Unsigned.bound ∧ (input 2).logicalIndex = .ok 2) := by
  have reads : (BindingName.mk "a_b_007").Reads ['a', '_', 'b'] ['0', '0', '7'] 7 :=
    ⟨by decide, by decide, by simp, by decide, by decide⟩
  exact ⟨((index_is_read_iff _).1 7).mpr ⟨_, _, reads⟩, by decide,
    ((index_is_read_iff ⟨""⟩).2.2.2 2 (by decide)).1⟩

end TensorEngine.BindingName
