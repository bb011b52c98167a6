import TensorEngine.Proofs.Execution.Operations

/-!
# Matrix products

The kernel multiplies stacks of matrices of equal rank. Products of other operands come down to it:
a vector is laid out as a matrix with one row or column, a stack is padded in front, and a stack that
is multiplied by one matrix may be folded into one matrix whose rows are unfolded again.

## Main results

* `Tensor.product?_of_padded`: operands of equal rank
* `Tensor.product?_of_folded`: a stack times one matrix
* `Tensor.product?_of_lifted`: vectors
-/

namespace TensorEngine

namespace Shape

/-- A vector as a matrix with one row. -/
def asRow : Shape → Shape
  | [k] => [1, k]
  | shape => shape

/-- A vector as a matrix with one column. -/
def asColumn : Shape → Shape
  | [k] => [k, 1]
  | shape => shape

variable {shape : Shape}

theorem rank_asRow (shape : Shape) : shape.asRow.rank ≠ 1 := by
  rcases shape with _ | ⟨k, _ | ⟨l, rest⟩⟩ <;> simp [asRow, rank]

theorem rank_asColumn (shape : Shape) : shape.asColumn.rank ≠ 1 := by
  rcases shape with _ | ⟨k, _ | ⟨l, rest⟩⟩ <;> simp [asColumn, rank]

theorem two_le_rank_asRow (axes : shape.rank ≠ 0) : 2 ≤ shape.asRow.rank := by
  rcases shape with _ | ⟨k, _ | ⟨l, rest⟩⟩
  · exact absurd rfl axes
  all_goals simp [asRow, rank]

theorem two_le_rank_asColumn (axes : shape.rank ≠ 0) : 2 ≤ shape.asColumn.rank := by
  rcases shape with _ | ⟨k, _ | ⟨l, rest⟩⟩
  · exact absurd rfl axes
  all_goals simp [asColumn, rank]

theorem asRow_of_rank (other : shape.rank ≠ 1) : shape.asRow = shape := by
  rcases shape with _ | ⟨k, _ | ⟨l, rest⟩⟩
  · rfl
  · exact absurd rfl other
  · rfl

theorem asColumn_of_rank (other : shape.rank ≠ 1) : shape.asColumn = shape := by
  rcases shape with _ | ⟨k, _ | ⟨l, rest⟩⟩
  · rfl
  · exact absurd rfl other
  · rfl

theorem rowForm?_eq (shape : Shape) : Tensor.rowForm? shape = matrixParts? shape.asRow := by
  rcases shape with _ | ⟨k, _ | ⟨l, rest⟩⟩ <;> rfl

theorem columnForm?_eq (shape : Shape) :
    Tensor.columnForm? shape = matrixParts? shape.asColumn := by
  rcases shape with _ | ⟨k, _ | ⟨l, rest⟩⟩ <;> rfl

theorem exists_matrix (rank : 2 ≤ shape.rank) :
    ∃ (stack : Shape) (m n : Nat), shape = stack ++ [m, n] := by
  rcases shape.eq_nil_or_concat with rfl | ⟨front, n, rfl⟩
  · cases rank
  · rcases front.eq_nil_or_concat with rfl | ⟨stack, m, rfl⟩
    · simp [Shape.rank] at rank
    · exact ⟨stack, m, n, by simp⟩

theorem padded_matrix (rank : Nat) (stack : Shape) (m n : Nat) :
    padded (rank + 2) (stack ++ [m, n]) = padded rank stack ++ [m, n] := by
  simp [padded]

theorem padded_of_le {rank : Nat} (high : rank ≤ shape.rank) : shape.padded rank = shape := by
  rw [padded, Nat.sub_eq_zero_of_le high, List.replicate_zero, List.nil_append]

end Shape

namespace Tensor

variable {a b a' b' t u : Tensor} {stackA stackB stack : Shape} {m k n : Nat}

/-- What the kernel computes from operands that are laid out for it. -/
theorem matrixMultiply_eq_ok (compactA : a.Compact) (compactB : b.Compact)
    (h : a.matrixMultiply .none b .none = .ok t) :
    ∃ stackA stackB stack m k n, a.shape = stackA ++ [m, k] ∧ b.shape = stackB ++ [k, n] ∧
      Shape.stretched? stackA stackB = some stack ∧ (a.dtype = .f32 ∧ b.dtype = .f32) ∧
      0 < Shape.size (stack ++ [m, n]) ∧
      ofFloats (stack ++ [m, n]) ((List.range (Shape.size (stack ++ [m, n]))).map fun position =>
        Binary.Single.sumOfProducts (products a b stack stackA stackB m k n position)) = .ok t := by
  obtain ⟨-, singleA, singleB, dims, inferred, concrete⟩ := matrixMultiply_type h
  have knownA := compactA.known singleA
  have knownB := compactB.known singleB
  obtain ⟨_, _, _, _, _, _, outer, left, right, agree, broadcast, result⟩ :=
    inferMatrixMultiply_eq_ok_iff.mp inferred
  obtain ⟨stackA, m, k, shapeA, rfl, rfl, rfl⟩ :=
    Shape.toDims_eq_append_pair (knownA.symm.trans left)
  obtain ⟨stackB, k', n, shapeB, rfl, rfl, rfl⟩ :=
    Shape.toDims_eq_append_pair (knownB.symm.trans right)
  obtain ⟨stack, rfl, stretchA, stretchB⟩ := stretches_of_broadcastExtents? broadcast
  obtain rfl : k = k' := by
    simp only [MatrixOp.orient] at agree
    omega
  have dims_eq : dims = Shape.toDims (stack ++ [m, n]) := by
    rw [result]
    simp [Shape.toDims, MatrixOp.orient]
  rw [dims_eq] at inferred
  have kernel := matrixMultiply_eq inferred rfl rfl singleA singleB
    shapeA shapeB stretchA stretchB
  refine ⟨stackA, stackB, stack, m, k, n, shapeA, shapeB,
    Shape.stretched?_of_broadcastExtents? broadcast, ⟨singleA, singleB⟩, ?_,
    mapError_eq_ok_iff.mp (kernel.symm.trans h)⟩
  have sizeA := compactA.positive
  have sizeB := compactB.positive
  rw [shapeA, Shape.size_matrix] at sizeA
  rw [shapeB, Shape.size_matrix] at sizeB
  have stack_pos := Shape.positive_of_broadcastExtents? broadcast (Nat.pos_of_mul_pos_right sizeA)
    (Nat.pos_of_mul_pos_right sizeB)
  rw [Shape.size_matrix]
  have rows := Nat.pos_of_mul_pos_right (Nat.pos_of_mul_pos_left sizeA)
  have columns := Nat.pos_of_mul_pos_left (Nat.pos_of_mul_pos_left sizeB)
  exact Nat.mul_pos stack_pos (Nat.mul_pos rows columns)

/-- The product of operands that are no vectors. -/
theorem product?_eq (shapeA : a.shape = stackA ++ [m, k]) (shapeB : b.shape = stackB ++ [k, n])
    (stretched : Shape.stretched? (Shape.padded (max stackA.rank stackB.rank) stackA)
      (Shape.padded (max stackA.rank stackB.rank) stackB) = some stack)
    (single : a.dtype = .f32 ∧ b.dtype = .f32) :
    a.product? b = tabulate? (stack ++ [m, n]) fun position =>
      Binary.Single.sumOfProducts (products a b stack
        (Shape.padded (max stackA.rank stackB.rank) stackA)
        (Shape.padded (max stackA.rank stackB.rank) stackB) m k n position) := by
  have rankA : a.rank ≠ 1 := by simp [rank, shapeA]
  have rankB : b.rank ≠ 1 := by simp [rank, shapeB]
  have formA : rowForm? a.shape = some (stackA, m, k) := by
    rw [Shape.rowForm?_eq, Shape.asRow_of_rank rankA, matrixParts?_eq_some_iff, shapeA]
  have formB : columnForm? b.shape = some (stackB, k, n) := by
    rw [Shape.columnForm?_eq, Shape.asColumn_of_rank rankB, matrixParts?_eq_some_iff, shapeB]
  simp only [product?, formA, formB, Option.bind_eq_bind, Option.bind_some, stretched, true_and,
    if_pos single, if_neg rankA, if_neg rankB, List.append_assoc, List.cons_append, List.nil_append]

theorem products_of_reshape {shapeA shapeB : Shape} (laidA : a.reshape shapeA = .ok a')
    (laidB : b.reshape shapeB = .ok b') : products a' b' = products a b := by
  funext stack stackA stackB m k n position
  rw [products, products, pattern_of_reshape laidA, pattern_of_reshape laidB]

/-- The kernel on operands that were padded to equal rank multiplies them. -/
theorem product?_of_padded (compactA : a.Compact) (compactB : b.Compact) (rankA : 2 ≤ a.rank)
    (rankB : 2 ≤ b.rank) (laidA : a.reshape (a.shape.padded (max a.rank b.rank)) = .ok a')
    (laidB : b.reshape (b.shape.padded (max a.rank b.rank)) = .ok b')
    (h : a'.matrixMultiply .none b' .none = .ok t) : a.product? b = some t ∧ t.Compact := by
  obtain ⟨x, y, stack, m, k, n, shapeA', shapeB', stretched, ⟨singleA, singleB⟩, positive,
      kernel⟩ :=
    matrixMultiply_eq_ok (compactA.reshape laidA) (compactB.reshape laidB) h
  obtain ⟨stackA, mA, kA, shapeA⟩ := Shape.exists_matrix rankA
  obtain ⟨stackB, kB, nB, shapeB⟩ := Shape.exists_matrix rankB
  obtain ⟨dtypeA, sameA, -⟩ := reshape_eq_ok_iff.mp laidA
  obtain ⟨dtypeB, sameB, -⟩ := reshape_eq_ok_iff.mp laidB
  -- Padding adds axes in front, so that it pads the stacks and leaves the matrices alone.
  have high : max a.rank b.rank = max stackA.rank stackB.rank + 2 := by
    rw [rank, rank, shapeA, shapeB]
    simp [Nat.add_max_add_right]
  rw [sameA, high, shapeA, Shape.padded_matrix] at shapeA'
  rw [sameB, high, shapeB, Shape.padded_matrix] at shapeB'
  obtain ⟨rfl, endA⟩ := List.append_inj' shapeA' rfl
  obtain ⟨rfl, endB⟩ := List.append_inj' shapeB' rfl
  cases endA
  cases endB
  rw [products_of_reshape laidA laidB] at kernel
  rw [product?_eq shapeA shapeB stretched ⟨dtypeA.symm.trans singleA, dtypeB.symm.trans singleB⟩,
    tabulate?, toOption_eq_some_iff]
  exact ⟨kernel, compact_of_ofFloats positive kernel⟩

/-- The entry of a product of a folded stack is the entry of the product of the stack. -/
theorem products_of_folded {shapeA : Shape} (laid : a.reshape shapeA = .ok a') {position : Nat}
    (within : position < Shape.size (stack ++ [m, n])) :
    products a' b [] [] [] (Shape.size (stack ++ [m])) k n position =
      products a b stack stack (Shape.padded stack.rank []) m k n position := by
  have size_eq : Shape.size (stack ++ [m, n]) = stack.size * (m * n) := Shape.size_matrix stack m n
  have rows_eq : Shape.size (stack ++ [m]) = stack.size * m := by
    rw [Shape.size_append, Shape.size_cons]
    exact congrArg _ (Nat.mul_one m)
  rw [size_eq] at within
  have mn_pos : 0 < m * n := Nat.pos_of_mul_pos_left (Nat.zero_lt_of_lt within)
  have matrix_lt : position / (m * n) < stack.size := (Nat.div_lt_iff_lt_mul mn_pos).mpr within
  have row_lt : position / n < stack.size * m := by
    rw [Nat.div_lt_iff_lt_mul (Nat.pos_of_mul_pos_left mn_pos), Nat.mul_assoc]
    exact within
  -- In the folded matrix a row is counted through the whole stack.
  have row_eq : position / (m * n) * (m * k) + position / n % m * k = position / n * k := by
    rw [Nat.mul_comm m n, ← Nat.div_div_eq_div_mul, ← Nat.mul_assoc, ← Nat.add_mul,
      Nat.div_add_mod']
  have ones : Shape.padded stack.rank [] = List.replicate stack.rank 1 := by
    simp [Shape.padded]
  refine List.map_congr_left fun p _ => ?_
  rw [pattern_of_reshape laid, Shape.spread_self matrix_lt, ones, Shape.spread_ones, rows_eq,
    Nat.mod_eq_of_lt row_lt, row_eq]
  simp [Shape.spread, Shape.pin, Shape.offset, Shape.dot]

/-- The kernel on a folded stack and one matrix multiplies the stack: unfolding the rows of its
result gives the product. -/
theorem product?_of_folded (compactA : a.Compact) (compactB : b.Compact)
    (shapeA : a.shape = stack ++ [m, k]) (rankB : b.rank = 2)
    (laid : a.reshape [Shape.size (stack ++ [m]), k] = .ok a')
    (h : a'.matrixMultiply .none b .none = .ok u) :
    ∃ n, u.shape = [Shape.size (stack ++ [m]), n] ∧ u.Compact ∧
      ∀ t, u.reshape (stack ++ [m, n]) = .ok t → a.product? b = some t := by
  obtain ⟨x, y, outer, m', k', n, shapeA', shapeB, stretched, ⟨singleA, singleB⟩, positive,
      kernel⟩ :=
    matrixMultiply_eq_ok (compactA.reshape laid) compactB h
  obtain ⟨dtypeA, sameA, -⟩ := reshape_eq_ok_iff.mp laid
  rw [sameA] at shapeA'
  obtain ⟨rfl, rows⟩ :=
    List.append_inj' (show [] ++ [Shape.size (stack ++ [m]), k] = x ++ [m', k'] from shapeA') rfl
  cases rows
  obtain rfl : y = [] := by
    have length := congrArg List.length shapeB
    rw [List.length_append, show b.shape.length = 2 from rankB] at length
    exact List.eq_nil_of_length_eq_zero (by simpa using length)
  cases stretched
  have compact := compact_of_ofFloats positive kernel
  refine ⟨n, (ofFloats_eq_ok_iff.mp kernel).2.2.1, compact, fun t unfolded => ?_⟩
  have stretched : Shape.stretched? (Shape.padded (max stack.rank 0) stack)
      (Shape.padded (max stack.rank 0) []) = some stack := by
    rw [Nat.max_zero, Shape.padded_of_le le_rfl]
    simpa [Shape.padded] using Shape.stretched?_ones stack
  rw [product?_eq shapeA shapeB stretched ⟨dtypeA.symm.trans singleA, singleB⟩, tabulate?,
    toOption_eq_some_iff, ← ofFloats_of_reshape kernel compact unfolded]
  have sizes := size_of_reshape unfolded
  rw [(ofFloats_eq_ok_iff.mp kernel).2.2.1] at sizes
  rw [sizes]
  refine congrArg _ (List.map_congr_left fun position member => congrArg _ ?_)
  rw [show max stack.rank (Shape.rank []) = stack.rank from Nat.max_zero _,
    Shape.padded_of_le le_rfl]
  exact (products_of_folded laid (sizes ▸ List.mem_range.mp member)).symm

/-- Operands that were laid out as matrices multiply to the product with extents of one where the
operands were vectors. -/
theorem product?_of_lifted (laidA : a.reshape a.shape.asRow = .ok a')
    (laidB : b.reshape b.shape.asColumn = .ok b') (h : a'.product? b' = some u)
    (compact : u.Compact) : ∃ stack m n, u.shape = stack ++ [m, n] ∧
      Shape.size (stack ++ (if a.rank = 1 then [] else [m]) ++
        (if b.rank = 1 then [] else [n])) = u.shape.size ∧
      ∀ t, u.reshape (stack ++ (if a.rank = 1 then [] else [m]) ++
        (if b.rank = 1 then [] else [n])) = .ok t → a.product? b = some t := by
  obtain ⟨dtypeA, sameA, -⟩ := reshape_eq_ok_iff.mp laidA
  obtain ⟨dtypeB, sameB, -⟩ := reshape_eq_ok_iff.mp laidB
  have rankA : a'.rank ≠ 1 := by rw [rank, sameA]; exact Shape.rank_asRow _
  have rankB : b'.rank ≠ 1 := by rw [rank, sameB]; exact Shape.rank_asColumn _
  have formA : rowForm? a'.shape = rowForm? a.shape := by
    rw [Shape.rowForm?_eq, Shape.asRow_of_rank rankA, sameA, Shape.rowForm?_eq]
  have formB : columnForm? b'.shape = columnForm? b.shape := by
    rw [Shape.columnForm?_eq, Shape.asColumn_of_rank rankB, sameB, Shape.columnForm?_eq]
  unfold product? at h ⊢
  rw [formA, formB, dtypeA, dtypeB, products_of_reshape laidA laidB] at h
  simp only [Option.bind_eq_bind, Option.bind_eq_some_iff] at h ⊢
  obtain ⟨⟨stackA, m, k⟩, partsA, ⟨stackB, k', n⟩, partsB, stack, stretched, h⟩ := h
  split at h
  next accepted =>
    dsimp only at h stretched accepted
    rw [tabulate?, toOption_eq_some_iff] at h
    obtain ⟨-, -, shape, -⟩ := ofFloats_eq_ok_iff.mp h
    -- A vector was laid out with a row or column of one, which is left out of the result again.
    have rows : a.rank = 1 → m = 1 := fun vector => by
      obtain ⟨l, shapeA⟩ := List.length_eq_one_iff.mp vector
      rw [shapeA] at partsA
      cases partsA
      rfl
    have columns : b.rank = 1 → n = 1 := fun vector => by
      obtain ⟨l, shapeB⟩ := List.length_eq_one_iff.mp vector
      rw [shapeB] at partsB
      cases partsB
      rfl
    refine ⟨stack, m, n, by simpa using shape, ?_, fun t laid => ?_⟩
    · rw [shape, Shape.size_append, Shape.size_append, Shape.size_append, Shape.size_append]
      congr 1
      · congr 1
        split
        next vector => rw [rows vector]; rfl
        next => rfl
      · split
        next vector => rw [columns vector]; rfl
        next => rfl
    refine ⟨_, partsA, _, partsB, stack, stretched, ?_⟩
    rw [if_pos accepted, tabulate?, toOption_eq_some_iff, ← ofFloats_of_reshape h compact laid,
      size_of_reshape laid, shape]
  next => cases h

end Tensor

end TensorEngine
