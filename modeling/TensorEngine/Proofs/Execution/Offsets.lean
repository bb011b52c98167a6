import TensorEngine.Execution.Kernels
import TensorEngine.Proofs.Positions

/-!
# Offsets in kernels

A kernel finds its way in an operand axis by axis, dividing by the extents of the shape that the
operand is broadcast to. Within that shape no extent is zero, so that no step fails, and the offset
is the position that `Shape.spread` gives.

## Main results

* `broadcastSteps_eq`: what the steps through the axes arrive at
* `broadcastOffset_eq`: the offset that belongs to a position
* `flatten_table`, `flatten_tables`: tables of entries as one list, by position
-/

namespace TensorEngine

open Shape

variable {result operand : Shape}

/-- Where no axis is empty, every step divides by a positive extent: the position is left divided by
the size of the axes behind it, and the stride is the size of the operand's axes. -/
theorem broadcastSteps_eq (rank : operand.rank = result.rank) (positive : ∀ d ∈ result, 0 < d)
    (position : Nat) : broadcastSteps result operand position =
      .ok (position / size result, spread result operand (position % size result),
        size operand) := by
  induction result generalizing operand with
  | nil =>
    obtain rfl := List.length_eq_zero_iff.mp rank
    simp [broadcastSteps, spread, offset, dot, pin]
  | cons d result ih =>
    obtain _ | ⟨n, operand⟩ := operand
    · cases rank
    have d_pos : d ≠ 0 := Nat.ne_of_gt (positive d List.mem_cons_self)
    have rest := ih (Nat.succ.inj rank) fun e member => positive e (List.mem_cons_of_mem d member)
    -- The index along the first axis is what the later axes leave, less whole turns of that axis.
    have first : position % (d * size result) / size result = position / size result % d :=
      Nat.mod_mul_left_div_self position (size result) d
    have later : position % (d * size result) % size result = position % size result :=
      Nat.mod_mul_left_mod position d (size result)
    simp only [broadcastSteps, rest, ok_bind, Unsigned.remainder, Unsigned.quotient, if_neg d_pos]
    simp only [spread, index, pin, size_cons, offset_cons, first, later,
      Nat.div_div_eq_div_mul, Nat.mul_comm (size result) d, Nat.mul_comm (size operand) n]
    split <;> simp [Nat.add_comm, pure, Except.pure]

/-- Within the shape that an operand is broadcast to, the offset is defined and is the position that
the operand contributes. -/
theorem broadcastOffset_eq {position : Nat} (rank : operand.rank = result.rank)
    (within : position < size result) :
    broadcastOffset result operand position = .ok (spread result operand position) := by
  have positive := size_pos_iff.mp (Nat.zero_lt_of_lt within)
  rw [broadcastOffset, broadcastSteps_eq rank positive, Nat.mod_eq_of_lt within]
  rfl

/-- Rows of equal length, one after the other, give the entries by position. -/
theorem flatten_table {α : Type} (rows columns : Nat) (entry : Nat → Nat → α) :
    ((List.range rows).map fun i => (List.range columns).map (entry i)).flatten =
      (List.range (rows * columns)).map fun q => entry (q / columns) (q % columns) := by
  induction rows with
  | zero => simp
  | succ rows ih =>
    have last : ∀ j ∈ List.range columns, entry rows j =
        entry ((rows * columns + j) / columns) ((rows * columns + j) % columns) := by
      intro j member
      have below := List.mem_range.mp member
      have turn : (rows * columns + j) / columns = rows := by
        rw [Nat.mul_comm, Nat.mul_add_div (Nat.zero_lt_of_lt below), Nat.div_eq_of_lt below,
          Nat.add_zero]
      rw [turn, Nat.mul_comm, Nat.mul_add_mod, Nat.mod_eq_of_lt below]
    rw [List.range_succ, List.map_append, List.flatten_append, ih, Nat.succ_mul, List.range_add,
      List.map_append, List.map_map]
    simp only [List.map_cons, List.map_nil, List.flatten_singleton]
    rw [List.map_congr_left last]
    rfl

/-- A stack of tables, one after the other, gives the entries by position. -/
theorem flatten_tables {α : Type} (count rows columns : Nat) (entry : Nat → Nat → Nat → α) :
    ((List.range count).map fun h =>
      (List.range rows).map fun i => (List.range columns).map (entry h i)).flatten.flatten =
      (List.range (count * (rows * columns))).map fun q =>
        entry (q / (rows * columns)) (q / columns % rows) (q % columns) := by
  rw [flatten_table count rows fun h i => (List.range columns).map (entry h i),
    flatten_table (count * rows) columns fun q => entry (q / rows) (q % rows), Nat.mul_assoc]
  simp only [Nat.div_div_eq_div_mul, Nat.mul_comm columns rows]

end TensorEngine
