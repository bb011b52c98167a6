import TensorEngine.Proofs.Execution.Products

/-!
# Results by multi-index

The operations on tensors are given by positions in storage. By multi-index they read as they are
commonly written: an operand that is broadcast contributes the number at the last indices, with zero
on its axes of extent one, and a number of a matrix product is the sum over the inner index.

## Main definitions

* `Tensor.number`: the number at a multi-index
* `Shape.broadcast?`, `Shape.aligned`: shapes and multi-indices aligned from the right
* `Shape.stack`, `Shape.rows`, `Shape.columns`, `Shape.width`, `Shape.height`: the parts of a factor
* `Shape.product?`: the shape of a matrix product
* `Tensor.IsProduct`, `Tensor.IsCombination`: what operations compute, by multi-index

## Main results

* `Tensor.isProduct_of_product?`, `Tensor.isCombination_of_combine?`: the operations by multi-index
-/

namespace TensorEngine

namespace Shape

/-- The shape that two shapes are broadcast to, aligned from the right. -/
def broadcast? (xs ys : Shape) : Option Shape :=
  stretched? (xs.padded (max xs.rank ys.rank)) (ys.padded (max xs.rank ys.rank))

/-- The multi-index in an operand that belongs to one in a shape that the operand is broadcast to:
the last indices, with zero on the operand's axes of extent one. -/
def aligned (operand : Shape) (idx : List Nat) : List Nat :=
  operand.pin (idx.drop (idx.length - operand.rank))

/-- The extents of the stack that a factor is. A matrix and a vector have none. -/
def stack (xs : Shape) : Shape :=
  xs.take (xs.rank - 2)

/-- The extents of the matrices of a factor, or that of a vector. -/
def matrix (xs : Shape) : Shape :=
  xs.drop (xs.rank - 2)

/-- The number of rows of a left factor, which a vector has none of. -/
def rows (xs : Shape) : Shape :=
  xs.matrix.dropLast

/-- The number of columns of a right factor, which a vector has none of. -/
def columns (xs : Shape) : Shape :=
  xs.matrix.tail

/-- The length of the rows of a left factor. -/
def width (xs : Shape) : Nat :=
  xs.matrix.getLastD 0

/-- The length of the columns of a right factor. -/
def height (xs : Shape) : Nat :=
  xs.matrix.headD 0

/-- The shape of a matrix product: the inner extents agree and the stacks are broadcast. -/
def product? (xs ys : Shape) : Option Shape :=
  if xs.width = ys.height then
    (broadcast? xs.stack ys.stack).map fun stack => stack ++ xs.rows ++ ys.columns
  else none

variable {xs ys shape result operand s : Shape} {idx idx' : List Nat}

theorem Within.append (h : Within idx xs) (h' : Within idx' ys) : Within (idx ++ idx') (xs ++ ys) :=
  List.rel_append h h'

theorem offset_append (length : idx.length = xs.length) :
    offset (xs ++ ys) (idx ++ idx') = offset xs idx * size ys + offset ys idx' := by
  induction xs generalizing idx with
  | nil =>
    obtain rfl := List.length_eq_zero_iff.mp length
    simp [offset, dot]
  | cons n xs ih =>
    obtain _ | ⟨i, idx⟩ := idx
    · cases length
    rw [List.cons_append, List.cons_append, offset_cons, offset_cons, ih (Nat.succ.inj length),
      size_append, Nat.add_mul, Nat.mul_assoc, Nat.add_assoc]

theorem pin_append (length : idx.length = xs.length) :
    pin (xs ++ ys) (idx ++ idx') = pin xs idx ++ pin ys idx' := by
  induction xs generalizing idx with
  | nil =>
    obtain rfl := List.length_eq_zero_iff.mp length
    cases ys <;> rfl
  | cons n xs ih =>
    obtain _ | ⟨i, idx⟩ := idx
    · cases length
    simp [pin, ih (Nat.succ.inj length)]

theorem length_pin (length : idx.length = xs.length) : (pin xs idx).length = xs.length := by
  induction xs generalizing idx with
  | nil => rfl
  | cons n xs ih =>
    obtain _ | ⟨i, idx⟩ := idx
    · cases length
    simp [pin, ih (Nat.succ.inj length)]

theorem offset_pin_ones (rank : Nat) (idx : List Nat) :
    offset (List.replicate rank 1) (pin (List.replicate rank 1) idx) = 0 := by
  induction rank generalizing idx with
  | zero => cases idx <;> rfl
  | succ rank ih =>
    cases idx with
    | nil => rfl
    | cons i idx => rw [List.replicate_succ, pin, if_pos rfl, offset_cons, ih, Nat.zero_mul]

/-- Padding pins indices in front. -/
theorem pin_padded (operand : Shape) (idx : List Nat) : pin (operand.padded idx.length) idx =
    pin (List.replicate (idx.length - operand.rank) 1) (idx.take (idx.length - operand.rank)) ++
      operand.aligned idx := by
  have front : (idx.take (idx.length - operand.rank)).length =
      (List.replicate (idx.length - operand.rank) 1).length := by simp
  rw [aligned, ← pin_append front, List.take_append_drop, padded]

/-- The operand is read at the multi-index that is aligned from the right. -/
theorem spread_padded (within : Within idx result) :
    spread result (operand.padded result.rank) (result.offset idx) =
      operand.offset (operand.aligned idx) := by
  have length : result.rank = idx.length := (List.Forall₂.length_eq within).symm
  rw [spread, index_offset within, length, pin_padded, padded, offset_append, offset_pin_ones,
    Nat.zero_mul, Nat.zero_add]
  exact length_pin (by simp)

theorem aligned_append (low : xs.rank ≤ idx.length) (length : idx'.length = ys.length) :
    aligned (xs ++ ys) (idx ++ idx') = aligned xs idx ++ pin ys idx' := by
  have skipped : (idx ++ idx').length - rank (xs ++ ys) = idx.length - xs.rank := by
    simp only [List.length_append, rank]
    omega
  rw [aligned, skipped, List.drop_append_of_le_length (Nat.sub_le _ _), pin_append, ← aligned]
  rw [List.length_drop]
  exact Nat.sub_sub_self low

theorem length_aligned (low : operand.rank ≤ idx.length) :
    (operand.aligned idx).length = operand.rank :=
  length_pin (by rw [List.length_drop]; exact Nat.sub_sub_self low)

theorem size_singleton (n : Nat) : size [n] = n :=
  Nat.mul_one n

theorem offset_singleton (n i : Nat) : offset [n] [i] = i :=
  Nat.mul_one i

/-- A position in a stack of matrices determines the matrix, the row and the column. -/
theorem place_in_stack (matrix : Nat) {row column m n : Nat} (inRows : row < m)
    (inColumns : column < n) :
    ((matrix * m + row) * n + column) / (m * n) = matrix ∧
      ((matrix * m + row) * n + column) / n % m = row ∧
      ((matrix * m + row) * n + column) % n = column := by
  have rowOf : ((matrix * m + row) * n + column) / n = matrix * m + row := by
    rw [Nat.mul_comm, Nat.mul_add_div (Nat.zero_lt_of_lt inColumns), Nat.div_eq_of_lt inColumns,
      Nat.add_zero]
  refine ⟨?_, ?_, ?_⟩
  · rw [Nat.mul_comm m n, ← Nat.div_div_eq_div_mul, rowOf, Nat.mul_comm,
      Nat.mul_add_div (Nat.zero_lt_of_lt inRows), Nat.div_eq_of_lt inRows, Nat.add_zero]
  · rw [rowOf, Nat.mul_comm, Nat.mul_add_mod, Nat.mod_eq_of_lt inRows]
  · rw [Nat.mul_comm, Nat.mul_add_mod, Nat.mod_eq_of_lt inColumns]

theorem length_stretched? (h : stretched? xs ys = some s) :
    s.length = xs.length ∧ s.length = ys.length := by
  induction xs generalizing ys s with
  | nil =>
    cases ys with
    | nil => cases h; exact ⟨rfl, rfl⟩
    | cons => cases h
  | cons n xs ih =>
    cases ys with
    | nil => cases h
    | cons m ys =>
      simp only [stretched?, Option.bind_eq_bind, Option.bind_eq_some_iff] at h
      obtain ⟨rest, tail, head⟩ := h
      obtain ⟨left, right⟩ := ih tail
      split_ifs at head <;> cases head <;> exact ⟨congrArg Nat.succ left, congrArg Nat.succ right⟩

theorem rank_broadcast? (h : broadcast? xs ys = some s) : s.rank = max xs.rank ys.rank := by
  have length := (length_stretched? h).1
  rw [padded, List.length_append, List.length_replicate] at length
  exact length.trans (Nat.sub_add_cancel (Nat.le_max_left ..))

/-- Known extents are broadcast as those of shapes are. -/
theorem broadcastExtents?_toDims (xs ys : Shape) :
    broadcastExtents? xs.toDims ys.toDims = (stretched? xs ys).map toDims := by
  induction xs generalizing ys with
  | nil => cases ys <;> rfl
  | cons n xs ih =>
    cases ys with
    | nil => rfl
    | cons m ys =>
      have head : broadcastExtent? n m = (if n = m ∨ m = 1 then some (n : Int)
          else if n = 1 then some (m : Int) else none) := by
        unfold broadcastExtent?
        split_ifs <;> first | rfl | omega
      rw [toDims, toDims, List.map_cons, List.map_cons, broadcastExtents?, ← toDims, ← toDims, ih,
        head, stretched?]
      by_cases first : n = m ∨ m = 1
      · cases stretched? xs ys <;> simp [first, toDims]
      · simp only [if_neg first]
        cases stretched? xs ys <;> by_cases one : n = 1 <;> simp [one, toDims]

theorem size_pos_of_stretched? (h : stretched? xs ys = some s) (left : 0 < xs.size)
    (right : 0 < ys.size) : 0 < s.size :=
  positive_of_broadcastExtents? (by rw [broadcastExtents?_toDims, h]; rfl) left right

/-- Shapes stretch to the shape that they are broadcast to. -/
theorem stretches_of_broadcast? (h : broadcast? xs ys = some s) :
    Stretches (xs.padded s.rank) s ∧ Stretches (ys.padded s.rank) s := by
  rw [rank_broadcast? h]
  obtain ⟨_, same, left, right⟩ := stretches_of_broadcastExtents?
    ((broadcastExtents?_toDims _ _).trans (congrArg (Option.map toDims) h))
  exact Dims.toDims_injective same ▸ ⟨left, right⟩

/-- An operand has a number at the multi-index that is aligned from the right. -/
theorem within_aligned (stretches : Stretches (xs.padded s.rank) s) (within : Within idx s) :
    Within (xs.aligned idx) xs := by
  have inside := pin_within stretches.covers within
  rw [show s.rank = idx.length from (List.Forall₂.length_eq within).symm, pin_padded] at inside
  have front : (pin (List.replicate (idx.length - xs.rank) 1)
      (idx.take (idx.length - xs.rank))).length = idx.length - xs.rank := by
    rw [length_pin (by simp), List.length_replicate]
  have dropped := List.forall₂_drop (idx.length - xs.rank) inside
  rwa [List.drop_left' front, padded, List.drop_left' List.length_replicate] at dropped

theorem broadcast?_nil (xs : Shape) : broadcast? xs [] = some xs := by
  rw [broadcast?, show max xs.rank (rank []) = xs.rank from Nat.max_zero _, padded_of_le le_rfl]
  simpa [padded] using stretched?_ones xs

theorem product?_eq_some_iff : product? xs ys = some s ↔ xs.width = ys.height ∧
    ∃ stack, broadcast? xs.stack ys.stack = some stack ∧ stack ++ xs.rows ++ ys.columns = s := by
  unfold product?
  split
  next inner => simp [inner, Option.map_eq_some_iff]
  next inner => simp [inner]

theorem product?_eq_none_iff : product? xs ys = none ↔
    ¬(xs.width = ys.height ∧ (broadcast? xs.stack ys.stack).isSome) := by
  unfold product?
  split
  next inner => simp [inner]
  next inner => simp [inner]

/-- A factor is a vector or a stack of matrices. -/
theorem vector_or_matrices (axes : xs.rank ≠ 0) :
    (∃ k, xs = [k]) ∨ ∃ (stack : Shape) (m n : Nat), xs = stack ++ [m, n] := by
  rcases xs with _ | ⟨k, _ | ⟨l, rest⟩⟩
  · exact absurd rfl axes
  · exact .inl ⟨k, rfl⟩
  · exact .inr (exists_matrix (by simp [rank]))

section Matrices

variable (front : Shape) (m n : Nat)

@[simp]
theorem stack_matrices : stack (front ++ [m, n]) = front := by
  simp [stack, rank]

@[simp]
theorem matrix_matrices : matrix (front ++ [m, n]) = [m, n] := by
  simp [matrix, rank]

@[simp]
theorem height_matrices : height (front ++ [m, n]) = m := by
  rw [height, matrix_matrices, List.headD_cons]

@[simp]
theorem width_matrices : width (front ++ [m, n]) = n := by
  rw [width, matrix_matrices]
  rfl

end Matrices

/-- The parts of a left factor. -/
theorem left_parts (axes : xs.rank ≠ 0) : xs = xs.stack ++ (xs.rows ++ [xs.width]) ∧
    Tensor.rowForm? xs = some (xs.stack, xs.rows.size, xs.width) ∧
      (if xs.rank = 1 then [] else [xs.rows.size]) = xs.rows := by
  obtain ⟨k, rfl⟩ | ⟨front, m, n, rfl⟩ := vector_or_matrices axes
  · exact ⟨rfl, rfl, rfl⟩
  · have rank : rank (front ++ [m, n]) ≠ 1 := by simp
    have form : Tensor.rowForm? (front ++ [m, n]) = some (front, m, n) := by
      rw [rowForm?_eq, asRow_of_rank rank, matrixParts?_eq_some_iff]
    simp [rows, width, form]

/-- The parts of a right factor. -/
theorem right_parts (axes : xs.rank ≠ 0) : xs = xs.stack ++ ([xs.height] ++ xs.columns) ∧
    Tensor.columnForm? xs = some (xs.stack, xs.height, xs.columns.size) ∧
      (if xs.rank = 1 then [] else [xs.columns.size]) = xs.columns := by
  obtain ⟨k, rfl⟩ | ⟨front, m, n, rfl⟩ := vector_or_matrices axes
  · exact ⟨rfl, rfl, rfl⟩
  · have rank : rank (front ++ [m, n]) ≠ 1 := by simp
    have form : Tensor.columnForm? (front ++ [m, n]) = some (front, m, n) := by
      rw [columnForm?_eq, asColumn_of_rank rank, matrixParts?_eq_some_iff]
    simp [columns, height, form]

/-- A left factor as a stack of matrices. -/
theorem asRow_eq (axes : xs.rank ≠ 0) : xs.asRow = xs.stack ++ [xs.rows.size, xs.width] := by
  have form := (left_parts axes).2.1
  rwa [rowForm?_eq, matrixParts?_eq_some_iff] at form

/-- A right factor as a stack of matrices. -/
theorem asColumn_eq (axes : xs.rank ≠ 0) : xs.asColumn = xs.stack ++ [xs.height, xs.columns.size] := by
  have form := (right_parts axes).2.1
  rwa [columnForm?_eq, matrixParts?_eq_some_iff] at form

/-- The stack of a product has as many elements as the product itself, in which the extents of one
that stand for vectors are left out. -/
theorem size_squeezed (stack xs ys : Shape) :
    size (stack ++ xs.rows ++ ys.columns) = size (stack ++ [xs.rows.size, ys.columns.size]) := by
  rw [size_append, size_append, size_matrix, Nat.mul_assoc]

end Shape

/-- The operation of an elementwise layer on two numbers, the second of which is scaled before. A
factor of one leaves it as it is. -/
def ElementWiseOp.scaledEval (op : ElementWiseOp) (factor : UInt64) (u v : UInt32) : UInt32 :=
  op.eval u (if factor = Binary.doubleOne then v else Binary.Single.mul v (Binary.narrow factor))

namespace Tensor

variable {a b t : Tensor} {shape : Shape} {entry : Nat → UInt32}

/-- The number of a single precision tensor at a multi-index. -/
def number (t : Tensor) (idx : List Nat) : UInt32 :=
  t.pattern (t.shape.offset idx)

/-- Every number of the tensor is the sum, in ascending order, of the products of a row of a left
factor and a column of a right one, whose stacks are broadcast. -/
def IsProduct (a b t : Tensor) : Prop :=
  ∀ stack s r c, Shape.broadcast? a.shape.stack b.shape.stack = some stack → Shape.Within s stack →
    Shape.Within r a.shape.rows → Shape.Within c b.shape.columns → t.number (s ++ r ++ c) =
      Binary.Single.sumOfProducts ((List.range a.shape.width).map fun p =>
        (a.number (a.shape.aligned (s ++ r ++ [p])), b.number (b.shape.aligned (s ++ [p] ++ c))))

/-- Every number of the tensor is computed from those of two tensors that are broadcast. -/
def IsCombination (f : UInt32 → UInt32 → UInt32) (a b t : Tensor) : Prop :=
  ∀ idx, Shape.Within idx t.shape → t.number idx =
    f (a.number (a.shape.aligned idx)) (b.number (b.shape.aligned idx))

theorem number_of_tabulate? (h : tabulate? shape entry = some t) :
    t.dtype = .f32 ∧ t.shape = shape ∧
      ∀ idx, Shape.Within idx shape → t.number idx = entry (shape.offset idx) := by
  obtain ⟨-, single, same, numbers⟩ := ofFloats_eq_ok_iff.mp (toOption_eq_some_iff.mp h)
  refine ⟨single, same, fun idx within => ?_⟩
  rw [number, pattern, numbers, same]
  simp [Shape.offset_lt within]

/-- A shape whose bytes are counted by a word has a tensor with any numbers. -/
theorem exists_number (fits : (Unsigned.product? 4 shape).isSome) (entry : Nat → UInt32) :
    ∃ t, ofFloats shape ((List.range shape.size).map entry) = .ok t ∧ t.dtype = .f32 ∧
      t.shape = shape ∧ ∀ idx, Shape.Within idx shape → t.number idx = entry (shape.offset idx) := by
  have count : ((List.range shape.size).map entry).length = shape.size := by
    rw [List.length_map, List.length_range]
  obtain ⟨t, made⟩ := exists_ofFloats fits count
  exact ⟨t, made, number_of_tabulate? (toOption_eq_some_iff.mpr made)⟩

/-- The position in an operand that belongs to a matrix of the stack and a place in the matrix. -/
theorem number_aligned {front last : Shape} {s idx : List Nat} (parts : t.shape = front ++ last)
    (low : front.rank ≤ s.length) (within : Shape.Within idx last) :
    t.number (t.shape.aligned (s ++ idx)) =
      t.pattern (front.offset (front.aligned s) * last.size + last.offset idx) := by
  rw [number, parts, Shape.aligned_append low (List.Forall₂.length_eq within),
    Shape.pin_of_within within, Shape.offset_append (Shape.length_aligned low)]

/-- The numbers of a matrix product by multi-index. -/
theorem isProduct_of_product? (axesA : a.rank ≠ 0) (axesB : b.rank ≠ 0)
    (h : a.product? b = some t) : a.IsProduct b t := by
  obtain ⟨partsA, formA, rowsA⟩ := Shape.left_parts axesA
  obtain ⟨partsB, formB, columnsB⟩ := Shape.right_parts axesB
  intro stack s r c broadcast inStack inRows inColumns
  simp only [product?, formA, formB, Option.bind_eq_bind, Option.bind_some] at h
  rw [show Shape.stretched? _ _ = _ from broadcast, Option.bind_some] at h
  split at h
  next accepted =>
    rw [rank, rank, rowsA, columnsB] at h
    obtain ⟨-, -, numbers⟩ := number_of_tabulate? h
    have rank : stack.rank = max a.shape.stack.rank b.shape.stack.rank :=
      Shape.rank_broadcast? broadcast
    have length : s.length = stack.rank := List.Forall₂.length_eq inStack
    obtain ⟨matrix, row, column⟩ := Shape.place_in_stack (stack.offset s)
      (Shape.offset_lt inRows) (Shape.offset_lt inColumns)
    rw [numbers _ ((inStack.append inRows).append inColumns),
      Shape.offset_append (List.Forall₂.length_eq (inStack.append inRows)),
      Shape.offset_append length]
    refine congrArg _ (List.map_congr_left fun p member => ?_)
    -- An inner index is a place in a row of the left factor and in a column of the right one.
    have inner : Shape.Within [p] [a.shape.width] := .cons (List.mem_range.mp member) .nil
    have inner' : Shape.Within [p] [b.shape.height] := accepted.1 ▸ inner
    rw [matrix, row, column, List.append_assoc s r, List.append_assoc s [p],
      number_aligned partsA (by omega) (inRows.append inner),
      number_aligned partsB (by omega) (inner'.append inColumns),
      Shape.offset_append (List.Forall₂.length_eq inRows),
      Shape.offset_append (List.Forall₂.length_eq inner'), Shape.size_append, Shape.size_append,
      ← rank, Shape.spread_padded inStack, Shape.spread_padded inStack, Shape.size_singleton,
      Shape.size_singleton, Shape.offset_singleton, Shape.offset_singleton, accepted.1]
    simp only [Nat.add_assoc, Nat.add_comm (p * _)]
  next => cases h

/-- The numbers of a scaled tensor by multi-index. -/
theorem number_of_scaledBy? {factor : UInt64} (h : a.scaledBy? factor = some t) :
    t.shape = a.shape ∧ ∀ idx, Shape.Within idx a.shape → t.number idx =
      if factor = Binary.doubleOne then a.number idx
      else Binary.Single.mul (a.number idx) (Binary.narrow factor) := by
  unfold scaledBy? at h
  split at h
  next one =>
    cases h
    exact ⟨rfl, fun idx _ => (if_pos one).symm⟩
  next other =>
    split at h
    next =>
      obtain ⟨-, shape, numbers⟩ := number_of_tabulate? h
      refine ⟨shape, fun idx within => ?_⟩
      rw [numbers idx within, if_neg other]
      rfl
    next => cases h

/-- The numbers of an elementwise operation whose second operand is scaled, by multi-index. -/
theorem isCombination_of_combine? {op : ElementWiseOp} {factor : UInt64} {c : Tensor}
    (scaled : b.scaledBy? factor = some c) (h : a.combine? op c = some t) :
    a.IsCombination (op.scaledEval factor) b t := by
  obtain ⟨shapeC, numbersC⟩ := number_of_scaledBy? scaled
  obtain ⟨out, broadcast, h⟩ := Option.bind_eq_some_iff.mp h
  have rank : out.rank = max a.shape.rank c.shape.rank := Shape.rank_broadcast? broadcast
  split at h
  next =>
    obtain ⟨-, shape, numbers⟩ := number_of_tabulate? h
    intro idx within
    rw [shape] at within
    rw [numbers idx within, Tensor.rank, Tensor.rank, ← rank, Shape.spread_padded within,
      Shape.spread_padded within, ElementWiseOp.scaledEval, ← shapeC]
    refine congrArg _ (numbersC _ ?_)
    exact shapeC ▸ Shape.within_aligned (Shape.stretches_of_broadcast? broadcast).2 within
  next => cases h

end Tensor

end TensorEngine
