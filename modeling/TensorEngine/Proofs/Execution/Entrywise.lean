import TensorEngine.Proofs.Execution.Refusals
import TensorEngine.Proofs.Tensor.Indexing

/-!
# Kernels entry by entry

A kernel goes through flat storage: it divides positions by extents, steps along strides that
differ from operand to operand, and exchanges the axes of a transposed operand in memory before it
reads. By multi-index, none of this shows. An operand is read at the multi-index of the entry, with
zero on its axes of extent one and with the last two indices exchanged where it is transposed.

The extents of the operands need not be known ones. Where the result has an entry at all, the
matrices that its operands contribute have numbers, and an inner extent that is too large to be
known would have more of them than memory has bytes.

## Main definitions

* `Binary.Single.dot`: sums of products, term by term
* `Shape.factorIndex`: where a factor of a matrix product is read
* `Tensor.IsMatrixProduct`, `Tensor.IsElementWise`: what the kernels compute, by multi-index
* `Tensor.Enters`: operands of a product, and the tensors that enter it

## Main results

* `Tensor.Enters.number`: an operand enters a product with its own numbers
* `Tensor.sumOfProducts_at`: an entry of a product, by multi-index
* `Tensor.matrixMultiply_entrywise`, `Tensor.elementWise_entrywise`: the kernels by multi-index
* `kernels_compute_entries`: both
-/

namespace TensorEngine

/-- The sum of the first products of two sequences, from positive zero on and in ascending order. -/
def Binary.Single.dot (u v : Nat → UInt32) : Nat → UInt32
  | 0 => 0
  | k + 1 => add (dot u v k) (mul (u k) (v k))

theorem Binary.Single.sumOfProducts_range (u v : Nat → UInt32) (k : Nat) :
    sumOfProducts ((List.range k).map fun p => (u p, v p)) = dot u v k := by
  induction k with
  | zero => rfl
  | succ k ih =>
    rw [List.range_succ, List.map_append, sumOfProducts, List.foldl_append]
    exact congrArg (add · (mul (u k) (v k))) ih

theorem Binary.Single.dot_congr {u u' v v' : Nat → UInt32} {k : Nat}
    (left : ∀ p < k, u p = u' p) (right : ∀ p < k, v p = v' p) : dot u v k = dot u' v' k := by
  induction k with
  | zero => rfl
  | succ k ih =>
    have before := ih (fun p below => left p (Nat.lt_succ_of_lt below))
      (fun p below => right p (Nat.lt_succ_of_lt below))
    rw [dot, dot, before, left k (Nat.lt_succ_self k), right k (Nat.lt_succ_self k)]

/-- The multi-index in a factor of a matrix product that belongs to a matrix of the result and to a
place in the factor's matrix as it enters the product: zero on the axes of extent one before the
matrix, and rows and columns exchanged where the factor is transposed. -/
def Shape.factorIndex (factor : Shape) (op : MatrixOp) (s : List Nat) (row column : Nat) :
    List Nat :=
  factor.stack.pin s ++ [(op.orient row column).1, (op.orient row column).2]

theorem MatrixOp.orient_lt (op : MatrixOp) {i j m n : Nat} (first : i < (op.orient m n).1)
    (second : j < (op.orient m n).2) : (op.orient i j).1 < m ∧ (op.orient i j).2 < n := by
  cases op with
  | none => exact ⟨first, second⟩
  | transpose => exact ⟨second, first⟩

theorem MatrixOp.orient_mem (op : MatrixOp) (m n : Nat) :
    (op.orient m n).1 ∈ [m, n] ∧ (op.orient m n).2 ∈ [m, n] := by
  cases op <;> simp [orient]

namespace Shape

variable {front : Shape} {s : List Nat} {m n i j : Nat}

theorem within_matrix : Within (s ++ [i, j]) (front ++ [m, n]) ↔ Within s front ∧ i < m ∧ j < n :=
  forall₂_append_pair

theorem offset_matrix (length : s.length = front.length) :
    offset (front ++ [m, n]) (s ++ [i, j]) = (offset front s * m + i) * n + j := by
  rw [offset_append length, offset_cons, size_cons, size_singleton, offset_singleton, Nat.add_mul,
    Nat.mul_assoc, Nat.add_assoc]

/-- An extent that reads as an extent of the result is that extent. -/
theorem InWords.extent_eq {shape : Shape} (words : shape.InWords) (member : n ∈ shape)
    (reading : Signed.ofUnsigned n = m) : n = m := by
  have own := Signed.ofUnsigned_of_nonneg (words n member) (reading ▸ Int.natCast_nonneg m)
  exact Int.ofNat.inj (own.symm.trans reading)

end Shape

namespace Tensor

variable {a b t u : Tensor}

/-- The tensor is the product of two stacks of matrices. Every number is the sum, in ascending
order, of the products of a row of the first factor and a column of the second, which lie within
the factors. -/
structure IsMatrixProduct (op0 op1 : MatrixOp) (a b t : Tensor) : Prop where
  rank : 2 ≤ t.rank
  inner : 0 < t.shape.size →
    (op0.orient a.shape.height a.shape.width).2 = (op1.orient b.shape.height b.shape.width).1
  within : ∀ s i j, Shape.Within (s ++ [i, j]) t.shape →
    ∀ p < (op0.orient a.shape.height a.shape.width).2,
      Shape.Within (a.shape.factorIndex op0 s i p) a.shape ∧
        Shape.Within (b.shape.factorIndex op1 s p j) b.shape
  number : ∀ s i j, Shape.Within (s ++ [i, j]) t.shape → t.number (s ++ [i, j]) =
    Binary.Single.dot (fun p => a.number (a.shape.factorIndex op0 s i p))
      (fun p => b.number (b.shape.factorIndex op1 s p j))
      (op0.orient a.shape.height a.shape.width).2

/-- The tensor combines two tensors number by number. Every number is computed from those at the
same multi-index, with zero on the axes of extent one, which lie within the operands. -/
structure IsElementWise (op : ElementWiseOp) (a b t : Tensor) : Prop where
  within : ∀ idx, Shape.Within idx t.shape →
    Shape.Within (a.shape.pin idx) a.shape ∧ Shape.Within (b.shape.pin idx) b.shape
  number : ∀ idx, Shape.Within idx t.shape →
    t.number idx = op.eval (a.number (a.shape.pin idx)) (b.number (b.shape.pin idx))

theorem number_of_cellAt? {source idx : List Nat} (same : u.cellAt? idx = t.cellAt? source) :
    u.number idx = t.number source := by
  have entry (v : Tensor) (idx : List Nat) : v.number idx =
      ((v.cellAt? idx).map fun cell => UInt32.ofNat (Bytes.toNat cell)).getD 0 := by
    rw [number, pattern, patterns, List.getD_eq_getElem?_getD, List.getElem?_map, cellAt?]
  rw [entry, entry, same]

/-- A tensor of matrices as an operand of a product, and the tensor that enters the product. -/
structure Enters (op : MatrixOp) (front : Shape) (rows columns : Nat) (t u : Tensor) : Prop where
  shape : t.shape = front ++ [rows, columns]
  oriented : t.oriented op = .ok u
  dtype : u.dtype = t.dtype
  moved : u.shape = front ++ [(op.orient rows columns).1, (op.orient rows columns).2]

namespace Enters

variable {op : MatrixOp} {front : Shape} {rows columns : Nat}

theorem exists_of_shape (op : MatrixOp) (shape : t.shape = front ++ [rows, columns]) :
    ∃ u, Enters op front rows columns t u := by
  obtain ⟨u, oriented, dtype, moved⟩ := oriented_ok op shape
  exact ⟨u, shape, oriented, dtype, moved⟩

theorem orient_eq (h : Enters op front rows columns t u) :
    op.orient t.shape.height t.shape.width = op.orient rows columns := by
  rw [h.shape, Shape.height_matrices, Shape.width_matrices]

/-- An operand enters a product with the numbers that it has, under the exchanged multi-index where
it is transposed. -/
theorem number {s : List Nat} {i j : Nat} (h : Enters op front rows columns t u)
    (inFront : Shape.Within s front) (inRows : i < (op.orient rows columns).1)
    (inColumns : j < (op.orient rows columns).2) :
    u.number (s ++ [i, j]) = t.number (s ++ [(op.orient i j).1, (op.orient i j).2]) := by
  have oriented := h.oriented
  cases op with
  | none =>
    cases oriented
    rfl
  | transpose =>
    have inside : Shape.Within (s ++ [j, i]) t.shape := by
      rw [h.shape, Shape.within_matrix]
      exact ⟨inFront, inColumns, inRows⟩
    have rank : t.rank = (s ++ [j, i]).length := (List.Forall₂.length_eq inside).symm
    rw [Tensor.oriented, if_pos (by simp [rank]), mapError_eq_ok_iff, rank] at oriented
    have permuted := (permute_eq_ok_iff.mp oriented).2
    exact number_of_cellAt? (permuted.cells _ _ inside (arranged_swapLastTwo s j i))

/-- The number of a factor that belongs to a matrix of the result. -/
theorem number_pin {stack : Shape} {s : List Nat} {i j : Nat} (h : Enters op front rows columns t u)
    (covers : Shape.Covers front stack) (inStack : Shape.Within s stack)
    (inRows : i < (op.orient rows columns).1) (inColumns : j < (op.orient rows columns).2) :
    Shape.Within (t.shape.factorIndex op s i j) t.shape ∧
      u.number (front.pin s ++ [i, j]) = t.number (t.shape.factorIndex op s i j) := by
  have index : t.shape.factorIndex op s i j =
      front.pin s ++ [(op.orient i j).1, (op.orient i j).2] := by
    rw [Shape.factorIndex, h.shape, Shape.stack_matrices]
  have inFront := Shape.pin_within covers inStack
  rw [index, h.number inFront inRows inColumns, h.shape, Shape.within_matrix]
  exact ⟨⟨inFront, op.orient_lt inRows inColumns⟩, rfl⟩

end Enters

/-- The sum that an entry of a product is, by multi-index. -/
theorem sumOfProducts_at {stack stackA stackB : Shape} {m k n i j : Nat} {s : List Nat}
    (shapeA : a.shape = stackA ++ [m, k]) (shapeB : b.shape = stackB ++ [k, n])
    (rankA : stackA.rank = stack.rank) (rankB : stackB.rank = stack.rank)
    (inStack : Shape.Within s stack) (inRows : i < m) (inColumns : j < n) :
    Binary.Single.sumOfProducts (products a b stack stackA stackB m k n
        (Shape.offset (stack ++ [m, n]) (s ++ [i, j]))) =
      Binary.Single.dot (fun p => a.number (stackA.pin s ++ [i, p]))
        (fun p => b.number (stackB.pin s ++ [p, j])) k := by
  have length : s.length = stack.length := List.Forall₂.length_eq inStack
  obtain ⟨matrix, row, column⟩ := Shape.place_in_stack (stack.offset s) inRows inColumns
  have place (operand : Shape) : Shape.spread stack operand (stack.offset s) =
      operand.offset (operand.pin s) := by
    rw [Shape.spread, Shape.index_offset inStack]
  rw [products, Binary.Single.sumOfProducts_range, Shape.offset_matrix length, matrix, row, column,
    place, place]
  apply Binary.Single.dot_congr
  · intro p _
    rw [number, shapeA, Shape.offset_matrix (Shape.length_pin (length.trans rankA.symm)),
      Nat.add_mul, Nat.mul_assoc]
  · intro p _
    rw [number, shapeB, Shape.offset_matrix (Shape.length_pin (length.trans rankB.symm)),
      Nat.add_mul, Nat.mul_assoc, Nat.add_right_comm]

/-- Where the stacks of an operand are not empty, an extent of its matrices is its own reading, unless
the other one is zero. -/
theorem ofUnsigned_of_covers {front stack : Shape} {rows columns n : Nat}
    (addressable : t.Addressable) (single : t.dtype = .f32)
    (shape : t.shape = front ++ [rows, columns]) (covers : Shape.Covers front stack)
    (entries : 0 < stack.size) (member : n ∈ [rows, columns])
    (matrix : 0 < n → 0 < rows * columns) : Signed.ofUnsigned n = n := by
  by_cases extent : n = 0
  · rw [extent]
    rfl
  · have front_pos := Nat.zero_lt_of_lt (covers.spread_lt entries)
    have positive : 0 < t.shape.size := by
      rw [shape, Shape.size_matrix]
      exact Nat.mul_pos front_pos (matrix (Nat.pos_of_ne_zero extent))
    have compact : t.Compact := ⟨positive, t.length_data ▸ addressable⟩
    exact List.map_inj_left.mp (compact.known single) n
      (shape ▸ List.mem_append_right front member)

section Products

variable {a' b' : Tensor} {op0 op1 : MatrixOp} {stack stackA stackB : Shape} {m n : Nat}

/-- Where an accepted product has entries, the inner extents of its operands are the same. -/
theorem inner_eq_of_agree {k k' : Nat} (addressableA : a.Addressable) (addressableB : b.Addressable)
    (singleA : a.dtype = .f32) (singleB : b.dtype = .f32) (shapeA : a.shape = stackA ++ [m, k])
    (shapeB : b.shape = stackB ++ [k', n]) (coversA : Shape.Covers stackA stack)
    (coversB : Shape.Covers stackB stack)
    (agree : ¬(0 ≤ Signed.ofUnsigned k ∧ 0 ≤ Signed.ofUnsigned k' ∧
      Signed.ofUnsigned k ≠ Signed.ofUnsigned k'))
    (entries : 0 < Shape.size (stack ++ [m, n])) : k = k' := by
  rw [Shape.size_matrix] at entries
  have stack_pos := Nat.pos_of_mul_pos_right entries
  have rows := Nat.pos_of_mul_pos_right (Nat.pos_of_mul_pos_left entries)
  have columns := Nat.pos_of_mul_pos_left (Nat.pos_of_mul_pos_left entries)
  have readingA := ofUnsigned_of_covers addressableA singleA shapeA coversA stack_pos
    (by simp : k ∈ [m, k]) fun inner => Nat.mul_pos rows inner
  have readingB := ofUnsigned_of_covers addressableB singleB shapeB coversB stack_pos
    (by simp : k' ∈ [k', n]) fun inner => Nat.mul_pos inner columns
  rw [readingA, readingB] at agree
  omega

/-- A tensor of the sums that belong to its positions is the product by multi-index. -/
theorem isMatrixProduct_of_sums {rowsA columnsA rowsB columnsB : Nat}
    (factorA : Enters op0 stackA rowsA columnsA a a') (factorB : Enters op1 stackB rowsB columnsB b b')
    (rows : (op0.orient rowsA columnsA).1 = m) (columns : (op1.orient rowsB columnsB).2 = n)
    (coversA : Shape.Covers stackA stack) (coversB : Shape.Covers stackB stack)
    (inner : 0 < Shape.size (stack ++ [m, n]) →
      (op0.orient rowsA columnsA).2 = (op1.orient rowsB columnsB).1)
    (shape : t.shape = stack ++ [m, n])
    (sums : ∀ idx, Shape.Within idx (stack ++ [m, n]) → t.number idx =
      Binary.Single.sumOfProducts (products a' b' stack stackA stackB m
        (op0.orient rowsA columnsA).2 n (Shape.offset (stack ++ [m, n]) idx))) :
    IsMatrixProduct op0 op1 a b t := by
  -- A multi-index of the result picks a matrix, a row and a column, and where there is one the
  -- inner extents are the same.
  have parts (s : List Nat) (i j : Nat) (inside : Shape.Within (s ++ [i, j]) t.shape) :
      (op0.orient rowsA columnsA).2 = (op1.orient rowsB columnsB).1 ∧ Shape.Within s stack ∧
        i < (op0.orient rowsA columnsA).1 ∧ j < (op1.orient rowsB columnsB).2 := by
    rw [shape] at inside
    rw [rows, columns]
    exact ⟨inner (Nat.zero_lt_of_lt (Shape.offset_lt inside)), Shape.within_matrix.mp inside⟩
  constructor
  case rank => simp [rank, shape]
  case inner =>
    rw [shape, factorA.orient_eq, factorB.orient_eq]
    exact inner
  case within =>
    intro s i j inside p inRow
    obtain ⟨agreed, inStack, inRows, inColumns⟩ := parts s i j inside
    rw [factorA.orient_eq] at inRow
    exact ⟨(factorA.number_pin coversA inStack inRows inRow).1,
      (factorB.number_pin coversB inStack (agreed ▸ inRow) inColumns).1⟩
  case number =>
    intro s i j inside
    obtain ⟨agreed, inStack, inRows, inColumns⟩ := parts s i j inside
    rw [sums _ (shape ▸ inside), sumOfProducts_at (rows ▸ factorA.moved)
        (columns ▸ agreed ▸ factorB.moved) (List.Forall₂.length_eq coversA)
        (List.Forall₂.length_eq coversB) inStack (rows ▸ inRows) (columns ▸ inColumns),
      factorA.orient_eq]
    apply Binary.Single.dot_congr
    · intro p inRow
      exact (factorA.number_pin coversA inStack inRows inRow).2
    · intro p inRow
      exact (factorB.number_pin coversB inStack (agreed ▸ inRow) inColumns).2

/-- A matrix product by multi-index: where inference arrives at a shape, the kernel computes the
tensor of that shape whose numbers are those of the product. -/
theorem matrixMultiply_entrywise {shape : Shape} (addressableA : a.Addressable)
    (addressableB : b.Addressable) (wordsA : a.shape.InWords) (wordsB : b.shape.InWords)
    (singleA : a.dtype = .f32) (singleB : b.dtype = .f32)
    (inferred : inferMatrixMultiply a.dims op0 b.dims op1 = .ok shape.toDims)
    (fits : (Unsigned.product? 4 shape).isSome) :
    ∃ t, a.matrixMultiply op0 b op1 = .ok t ∧ t.dtype = .f32 ∧ t.shape = shape ∧
      IsMatrixProduct op0 op1 a b t := by
  obtain ⟨stackA, rowsA, columnsA, stackB, rowsB, columnsB, stack, m, n, shapeA, shapeB, rfl,
    ⟨coversA, coversB⟩, ⟨row_eq, column_eq⟩, agree⟩ := inferMatrixMultiply_ofShape inferred
  obtain ⟨a', factorA⟩ := Enters.exists_of_shape op0 shapeA
  obtain ⟨b', factorB⟩ := Enters.exists_of_shape op1 shapeB
  have addressableA' := addressable_of_oriented addressableA factorA.oriented
  have addressableB' := addressable_of_oriented addressableB factorB.oriented
  have singleA' := factorA.dtype.trans singleA
  have singleB' := factorB.dtype.trans singleB
  obtain ⟨readsA, readsB⟩ := reads_of_inferred addressableA' singleA' factorA.moved factorB.moved
    coversA coversB row_eq column_eq agree
  have kernel := matrixMultiply_of_reads inferred factorA.oriented factorB.oriented singleA' singleB'
    factorA.moved factorB.moved (List.Forall₂.length_eq coversA) (List.Forall₂.length_eq coversB)
    readsA readsB
  have rows : (op0.orient rowsA columnsA).1 = m := wordsA.extent_eq
    (shapeA ▸ List.mem_append_right _ (op0.orient_mem rowsA columnsA).1) row_eq
  have columns : (op1.orient rowsB columnsB).2 = n := wordsB.extent_eq
    (shapeB ▸ List.mem_append_right _ (op1.orient_mem rowsB columnsB).2) column_eq
  have inner := inner_eq_of_agree addressableA' addressableB' singleA' singleB'
    (rows ▸ factorA.moved) (columns ▸ factorB.moved) coversA coversB agree
  obtain ⟨t, made, single, same, numbers⟩ := exists_number fits fun position =>
    Binary.Single.sumOfProducts (products a' b' stack stackA stackB m
      (op0.orient rowsA columnsA).2 n position)
  exact ⟨t, by rw [kernel, made, mapError_ok], single, same,
    isMatrixProduct_of_sums factorA factorB rows columns coversA coversB inner same numbers⟩

end Products

/-- An elementwise operation by multi-index: where inference arrives at a shape, the kernel computes
the tensor of that shape whose numbers are those of the operands, combined. -/
theorem elementWise_entrywise {op : ElementWiseOp} {shape : Shape} (singleA : a.dtype = .f32)
    (singleB : b.dtype = .f32) (inferred : inferBroadcast a.dims b.dims = .ok shape.toDims)
    (fits : (Unsigned.product? 4 shape).isSome) :
    ∃ t, a.elementWise b op = .ok t ∧ t.dtype = .f32 ∧ t.shape = shape ∧
      IsElementWise op a b t := by
  obtain ⟨coversA, coversB⟩ := covers_of_broadcastExtents? (inferBroadcast_eq_ok_iff.mp inferred)
  obtain ⟨t, made, single, same, numbers⟩ := exists_number fits fun position =>
    op.eval (a.pattern (Shape.spread shape a.shape position))
      (b.pattern (Shape.spread shape b.shape position))
  have kernel : a.elementWise b op = .ok t := by
    rw [elementWise_of_covers coversA coversB singleA singleB inferred, made, mapError_ok]
  refine ⟨t, kernel, single, same, ?_⟩
  constructor
  case within =>
    intro idx inside
    rw [same] at inside
    exact ⟨Shape.pin_within coversA inside, Shape.pin_within coversB inside⟩
  case number =>
    intro idx inside
    rw [same] at inside
    rw [numbers idx inside, Shape.spread, Shape.spread, Shape.index_offset inside]
    rfl

end Tensor

/-- Two matrices of one row. -/
def rowsTensor : Tensor :=
  ⟨.f32, [2, 1, 2], [0, 0, 128, 63, 0, 0, 0, 64, 0, 0, 64, 64, 0, 0, 128, 64], by decide⟩

/-- One matrix of three rows. -/
def matrixTensor : Tensor :=
  ⟨.f32, [1, 3, 2], [0, 0, 128, 63, 0, 0, 0, 64, 0, 0, 64, 64, 0, 0, 128, 64, 0, 0, 160, 64, 0, 0,
    192, 64], by decide⟩

/-- A matrix of two rows without numbers. -/
def emptyRowsTensor : Tensor :=
  ⟨.f32, [2, 0], [], by decide⟩

end TensorEngine
