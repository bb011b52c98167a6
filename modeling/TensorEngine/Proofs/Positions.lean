import Mathlib.Algebra.BigOperators.Group.List.Basic
import Mathlib.Algebra.Ring.Nat
import TensorEngine.Proofs.Entries

/-!
# Positions and multi-indices

Within a shape, multi-indices and positions in storage determine each other. A position in a
broadcast shape belongs to a position in every operand that stretches to the shape, and stepping
through a shape whose axes were put in another order stays within the storage of the original.

## Main definitions

* `Shape.Within`: multi-indices below the extents of a shape
* `Shape.Covers`: shapes that have a place for every multi-index within another one
* `Shape.Stretches`: shapes that are broadcast to another one

## Main results

* `Shape.offset_index`, `Shape.index_offset`: the two conversions are inverse to each other
* `Shape.walk_eq`: stepping from one multi-index to the next leads through all positions in order
* `Shape.Covers.spread_lt`: positions that stay within an operand
-/

namespace TensorEngine.Shape

variable {shape result operand : Shape} {idx : List Nat} {position : Nat}

/-- The multi-index is below the extents. -/
def Within (idx : List Nat) (shape : Shape) : Prop :=
  List.Forall₂ (· < ·) idx shape

instance (idx : List Nat) (shape : Shape) : Decidable (Within idx shape) :=
  inferInstanceAs (Decidable (List.Forall₂ _ _ _))

/-- Every extent is at least that of the other shape, or one. -/
def Covers (operand result : Shape) : Prop :=
  List.Forall₂ (fun n m => m ≤ n ∨ n = 1) operand result

/-- Every extent is that of the other shape, or one. -/
def Stretches (operand result : Shape) : Prop :=
  List.Forall₂ (fun n m => n = m ∨ n = 1) operand result

theorem dot_cons (i n : Nat) (xs ys : List Nat) : dot (i :: xs) (n :: ys) = i * n + dot xs ys :=
  rfl

theorem offset_cons (i n : Nat) (idx : List Nat) (shape : Shape) :
    offset (n :: shape) (i :: idx) = i * size shape + offset shape idx :=
  rfl

theorem size_cons (n : Nat) (shape : Shape) : size (n :: shape) = n * size shape :=
  rfl

theorem size_eq_prod (shape : Shape) : size shape = shape.prod := by
  rw [List.prod_eq_foldr]

theorem size_pos_iff : 0 < shape.size ↔ ∀ n ∈ shape, 0 < n := by
  induction shape with
  | nil => simp
  | cons n shape ih =>
    rw [size_cons, List.forall_mem_cons, ← ih]
    exact ⟨fun h => ⟨Nat.pos_of_mul_pos_right h, Nat.pos_of_mul_pos_left h⟩,
      fun h => Nat.mul_pos h.1 h.2⟩

theorem length_strides (shape : Shape) : shape.strides.length = shape.length := by
  induction shape with
  | nil => rfl
  | cons _ _ ih => simp [strides, ih]

/-- A multi-index within a shape has a position within its storage. -/
theorem offset_lt (h : Within idx shape) : offset shape idx < size shape := by
  induction h with
  | nil => exact Nat.one_pos
  | @cons i n idx shape first _ ih =>
    rw [offset_cons, size_cons]
    calc i * size shape + offset shape idx < i * size shape + size shape :=
          Nat.add_lt_add_left ih _
      _ = (i + 1) * size shape := (Nat.succ_mul i _).symm
      _ ≤ n * size shape := Nat.mul_le_mul_right _ first

/-- The multi-index of a position within a shape is within the shape. -/
theorem within_index (h : position < size shape) : Within (index shape position) shape := by
  induction shape generalizing position with
  | nil => exact .nil
  | cons n shape ih =>
    rw [size_cons] at h
    -- The quotient indexes the first axis, the remainder is a position in the others.
    have tail_pos : 0 < size shape := Nat.pos_of_mul_pos_left (Nat.zero_lt_of_lt h)
    exact .cons ((Nat.div_lt_iff_lt_mul tail_pos).mpr h) (ih (Nat.mod_lt _ tail_pos))

/-- The position of the multi-index of a position. -/
theorem offset_index (h : position < size shape) : offset shape (index shape position) = position := by
  induction shape generalizing position with
  | nil => exact (Nat.lt_one_iff.mp h).symm
  | cons n shape ih =>
    rw [size_cons] at h
    have tail_pos : 0 < size shape := Nat.pos_of_mul_pos_left (Nat.zero_lt_of_lt h)
    rw [index, offset_cons, ih (Nat.mod_lt _ tail_pos)]
    exact Nat.div_add_mod' position (size shape)

theorem index_cons {n i : Nat} (h : position < size shape) :
    index (n :: shape) (i * size shape + position) = i :: index shape position := by
  have first : (i * size shape + position) / size shape = i := by
    rw [Nat.mul_comm, Nat.mul_add_div (Nat.zero_lt_of_lt h), Nat.div_eq_of_lt h, Nat.add_zero]
  have later : (i * size shape + position) % size shape = position := by
    rw [Nat.mul_comm, Nat.mul_add_mod, Nat.mod_eq_of_lt h]
  rw [index, first, later]

/-- The multi-index of the position of a multi-index. -/
theorem index_offset (h : Within idx shape) : index shape (offset shape idx) = idx := by
  induction h with
  | nil => rfl
  | cons _ rest ih => rw [offset_cons, index_cons (offset_lt rest), ih]

/-! ### One multi-index after the other -/

theorem index_zero (shape : Shape) : index shape 0 = List.replicate shape.rank 0 := by
  induction shape with
  | nil => rfl
  | cons n shape ih => rw [index, Nat.zero_div, Nat.zero_mod, ih]; rfl

/-- The next multi-index is that of the next position. Behind the last one all axes start over. -/
theorem advance_index (h : position < size shape) :
    advance shape (index shape position) =
      (index shape ((position + 1) % size shape), decide (position + 1 = size shape)) := by
  induction shape generalizing position with
  | nil =>
    obtain rfl := Nat.lt_one_iff.mp h
    rfl
  | cons n shape ih =>
    rw [size_cons] at h ⊢
    have tail_pos : 0 < size shape := Nat.pos_of_mul_pos_left (Nat.zero_lt_of_lt h)
    -- The first axis and a position in the others.
    obtain ⟨i, p, below, rfl⟩ : ∃ i p, p < size shape ∧ i * size shape + p = position :=
      ⟨_, _, Nat.mod_lt _ tail_pos, Nat.div_add_mod' position (size shape)⟩
    have first : (i + 1) * size shape ≤ n * size shape := by
      apply Nat.mul_le_mul_right
      exact Nat.lt_of_mul_lt_mul_right (Nat.lt_of_le_of_lt (Nat.le_add_right _ p) h)
    rw [index_cons below, advance, ih below]
    by_cases carry : p + 1 = size shape
    · have next : i * size shape + p + 1 = (i + 1) * size shape := by
        rw [Nat.succ_mul, Nat.add_assoc, carry]
      rw [next, carry, Nat.mod_self]
      by_cases more : i + 1 < n
      · have inside : (i + 1) * size shape < n * size shape :=
          Nat.mul_lt_mul_of_pos_right more tail_pos
        have row : index (n :: shape) ((i + 1) * size shape) = (i + 1) :: index shape 0 :=
          index_cons tail_pos
        simp [more, Nat.mod_eq_of_lt inside, inside.ne, row]
      · have last : (i + 1) * size shape = n * size shape := by
          apply Nat.le_antisymm first
          exact Nat.mul_le_mul_right _ (Nat.not_lt.mp more)
        simp [more, last, index]
    · have later : p + 1 < size shape := Nat.lt_of_le_of_ne below carry
      have inside : i * size shape + (p + 1) < n * size shape := by
        rw [Nat.succ_mul] at first
        omega
      have row : index (n :: shape) (i * size shape + (p + 1)) = i :: index shape (p + 1) :=
        index_cons later
      simp [carry, Nat.add_assoc, Nat.mod_eq_of_lt later, Nat.mod_eq_of_lt inside, inside.ne, row]

theorem walk_index {count : Nat} (h : position + count ≤ size shape) :
    walk shape count (index shape position) = (List.range' position count).map (index shape) := by
  induction count generalizing position with
  | zero => rfl
  | succ count ih =>
    rw [walk, advance_index (by omega), List.range'_succ, List.map_cons]
    cases count with
    | zero => rfl
    | succ count => rw [Nat.mod_eq_of_lt (by omega), ih (by omega)]

/-- From the first multi-index on, as many steps as there are elements lead through all of them in the
order of their positions. -/
theorem walk_eq (shape : Shape) : walk shape (size shape) (List.replicate shape.rank 0) =
    (List.range (size shape)).map (index shape) := by
  rw [← index_zero, walk_index (Nat.le_of_eq (Nat.zero_add _)), List.range_eq_range']

/-! ### Operands that are broadcast -/

theorem Stretches.covers (stretches : Stretches operand result) : Covers operand result :=
  List.Forall₂.imp (fun _ _ extent => extent.imp_left fun same => Nat.le_of_eq same.symm) stretches

theorem pin_within (covers : Covers operand result) (h : Within idx result) :
    Within (pin operand idx) operand := by
  -- An axis of extent one is pinned to zero, any other one is at least as long as that of the
  -- result.
  induction covers generalizing idx with
  | nil => exact .nil
  | cons extent _ ih =>
    obtain _ | ⟨below, rest⟩ := h
    refine .cons ?_ (ih rest)
    split
    next one => exact one ▸ Nat.one_pos
    next other => exact Nat.lt_of_lt_of_le below (extent.resolve_right other)

/-- A position in a shape belongs to a position in every operand that covers it. -/
theorem Covers.spread_lt (covers : Covers operand result) (h : position < size result) :
    spread result operand position < size operand :=
  offset_lt (pin_within covers (within_index h))

theorem pin_of_within (h : Within idx shape) : pin shape idx = idx := by
  induction h with
  | nil => rfl
  | @cons i n idx shape first _ ih =>
    rw [pin, ih]
    split
    next one =>
      subst one
      rw [Nat.lt_one_iff.mp first]
    next => rfl

/-- An operand that is not stretched contributes the number at the same position. -/
theorem spread_self (h : position < size shape) : spread shape shape position = position := by
  rw [spread, pin_of_within (within_index h), offset_index h]

/-- An operand with nothing but extents of one contributes its only number everywhere. -/
theorem spread_ones (result : Shape) (rank position : Nat) :
    spread result (List.replicate rank 1) position = 0 := by
  unfold spread
  generalize result.index position = idx
  induction rank generalizing idx with
  | zero => cases idx <;> rfl
  | succ rank ih =>
    cases idx with
    | nil => rfl
    | cons i idx =>
      rw [List.replicate_succ, pin, if_pos rfl, offset_cons, ih, Nat.zero_mul]

theorem dot_eq_sum (xs ys : List Nat) : dot xs ys = ((xs.zip ys).map fun p => p.1 * p.2).sum := by
  induction xs generalizing ys with
  | nil => rfl
  | cons x xs ih =>
    cases ys with
    | nil => rfl
    | cons y ys => rw [dot_cons, ih]; rfl

/-- Steps along reordered axes with the strides reordered alike lead to the position that the steps
in the original order lead to. -/
theorem dot_arranged {order : List Nat} {xs xs' ys ys' : List Nat}
    (permutation : IsPermutation order xs.length) (length : xs.length = xs'.length)
    (h : Arranged order xs ys) (h' : Arranged order xs' ys') : dot ys ys' = dot xs xs' := by
  rw [dot_eq_sum, dot_eq_sum]
  -- As a sum over pairs of index and stride, the order of the axes does not matter.
  have zipped := (h.zip h').perm (by rwa [List.length_zip, ← length, Nat.min_self])
  exact (zipped.map _).sum_eq

/-- Stepping through a shape with reordered axes by strides reordered alike is stepping through the
original: every multi-index is the arrangement of one of the original shape. -/
theorem exists_index_of_arranged {order : List Nat} {moved strides : List Nat}
    (permutation : IsPermutation order shape.length) (extents : Arranged order shape moved)
    (steps : Arranged order shape.strides strides) (h : Within idx moved) :
    ∃ source, Arranged order source idx ∧ Within source shape ∧
      dot idx strides = offset shape source := by
  have length : idx.length = shape.length := by
    rw [List.Forall₂.length_eq h, extents.length_eq, permutation.1]
  obtain ⟨source, count, arranged⟩ := Arranged.exists_source permutation length
  refine ⟨source, arranged, ?_, ?_⟩
  · exact Arranged.forall₂_of (count ▸ permutation) count arranged extents h
  · exact dot_arranged (count ▸ permutation) (count.trans (length_strides shape).symm) arranged steps

end TensorEngine.Shape
