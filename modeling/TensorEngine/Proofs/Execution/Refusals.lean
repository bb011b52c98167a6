import TensorEngine.Proofs.Network.Refusals
import TensorEngine.Proofs.Tensor.Layout

/-!
# Kernels only refuse

An operand may have any shape, one with empty axes next to extents beyond the signed words included.
Such an extent has a negative reading, so that inference takes it for unknown and the operand for one
that stretches to the result. It is then larger than every extent of the result, and what matters for
a read is only that the operand has a place for every multi-index: kernels read within their operands
whatever inference has accepted.

## Main definitions

* `ExecutionFault.isOrderly`: errors that are no faults of the execution itself

## Main results

* `covers_of_broadcastExtents?`: operands cover the shape that they broadcast to
* `Tensor.shuffle_orderly`, `Tensor.matrixMultiply_orderly`, `Tensor.elementWise_orderly`: kernels
  compute or refuse
-/

namespace TensorEngine

/-- The error is a refusal, and not a fault of the computation. -/
def TensorError.isOrderly : TensorError → Bool
  | .fault _ => false
  | _ => true

/-- The error is about what an execution was given or has computed. It is not a fault, and the
layers have found their operands and the places of their results. -/
def ExecutionFault.isOrderly : ExecutionFault → Bool
  | .fault _ | .missingOperand _ | .unknownTensor _ => false
  | .network error => error.isOrderly
  | .tensor error => error.isOrderly
  | .layer _ cause => cause.isOrderly
  | _ => true

/-- Every extent of a shape that two shapes broadcast to is covered by both. -/
theorem covers_of_broadcastExtents? {xs ys shape : Shape}
    (h : broadcastExtents? (Dims.ofShape xs) (Dims.ofShape ys) = some shape.toDims) :
    Shape.Covers xs shape ∧ Shape.Covers ys shape := by
  induction xs generalizing ys shape with
  | nil =>
    cases ys with
    | nil =>
      obtain rfl := List.map_eq_nil_iff.mp (Option.some.inj h).symm
      exact ⟨.nil, .nil⟩
    | cons => cases h
  | cons x xs ih =>
    cases ys with
    | nil => cases h
    | cons y ys =>
      simp only [Dims.ofShape, List.map_cons, broadcastExtents?, Option.bind_eq_bind,
        Option.bind_eq_some_iff] at h
      obtain ⟨d, head, rest, tail, result⟩ := h
      obtain ⟨n, shape, rfl, rfl, rfl⟩ := List.map_eq_cons_iff.mp (Option.some.inj result).symm
      obtain ⟨left, right⟩ := ih tail
      have first : (n ≤ x ∨ x = 1) ∧ (n ≤ y ∨ y = 1) := by
        -- A reading of one, or of minus one, is that of one or of a number beyond the signed words.
        unfold broadcastExtent? at head
        rw [Signed.ofUnsigned_eq, Signed.ofUnsigned_eq] at head
        grind
      exact ⟨.cons first.1 left, .cons first.2 right⟩

/-- What a matrix product of shapes that was accepted with known extents establishes: the stacks
cover that of the result, the outer extents read as those of the result, and the inner extents have
the same reading where both readings are known. -/
theorem inferMatrixMultiply_ofShape {xs ys shape : Shape} {op0 op1 : MatrixOp}
    (h : inferMatrixMultiply (Dims.ofShape xs) op0 (Dims.ofShape ys) op1 = .ok shape.toDims) :
    ∃ (stackA : Shape) (rowsA columnsA : Nat) (stackB : Shape) (rowsB columnsB : Nat)
      (stack : Shape) (m n : Nat),
      xs = stackA ++ [rowsA, columnsA] ∧ ys = stackB ++ [rowsB, columnsB] ∧
      shape = stack ++ [m, n] ∧ (Shape.Covers stackA stack ∧ Shape.Covers stackB stack) ∧
      (Signed.ofUnsigned (op0.orient rowsA columnsA).1 = m ∧
        Signed.ofUnsigned (op1.orient rowsB columnsB).2 = n) ∧
      ¬(0 ≤ Signed.ofUnsigned (op0.orient rowsA columnsA).2 ∧
        0 ≤ Signed.ofUnsigned (op1.orient rowsB columnsB).1 ∧
        Signed.ofUnsigned (op0.orient rowsA columnsA).2 ≠
          Signed.ofUnsigned (op1.orient rowsB columnsB).1) := by
  obtain ⟨stack0, rows0, columns0, stack1, rows1, columns1, outer, left, right, agree, broadcast,
    result⟩ := inferMatrixMultiply_eq_ok_iff.mp h
  obtain ⟨stackA, rowsA, columnsA, shapeA, stackA_eq, rowsA_eq, columnsA_eq⟩ :=
    map_eq_append_pair left
  obtain ⟨stackB, rowsB, columnsB, shapeB, stackB_eq, rowsB_eq, columnsB_eq⟩ :=
    map_eq_append_pair right
  obtain ⟨stack, m, n, shape_eq, outer_eq, row_eq, column_eq⟩ :=
    Shape.toDims_eq_append_pair result
  -- Readings are taken extent by extent, so they can be oriented before or after.
  have readings (op : MatrixOp) (r c : Nat) :
      op.orient (Signed.ofUnsigned r) (Signed.ofUnsigned c) =
        (Signed.ofUnsigned (op.orient r c).1, Signed.ofUnsigned (op.orient r c).2) := by
    cases op <;> rfl
  rw [rowsA_eq, columnsA_eq, readings] at row_eq agree
  rw [rowsB_eq, columnsB_eq, readings] at column_eq agree
  dsimp only at row_eq column_eq agree
  rw [stackA_eq, stackB_eq, outer_eq] at broadcast
  exact ⟨stackA, rowsA, columnsA, stackB, rowsB, columnsB, stack, m, n, shapeA, shapeB, shape_eq,
    covers_of_broadcastExtents? broadcast, ⟨row_eq, column_eq⟩, agree⟩

namespace Tensor

/-- The computation has an addressable result, or an orderly error. -/
abbrev ComputesOrRefuses (x : Except ExecutionFault Tensor) : Prop :=
  Ends (fun e => e.isOrderly) Addressable x

variable {a b t u : Tensor}

theorem ofFloats_orderly (shape : Shape) (xs : List UInt32) :
    ComputesOrRefuses ((ofFloats shape xs).mapError .tensor) := by
  unfold ofFloats ofBytes
  split
  next => exact rfl
  next fits =>
    split
    next length =>
      have start : DType.size .f32 < Unsigned.bound := by decide
      exact Nat.lt_of_le_of_lt length.le (Unsigned.product?_lt start fits)
    next => exact rfl

/-! ### Shuffles -/

theorem permute_orderly (order : List Nat) (addressable : t.Addressable) :
    ComputesOrRefuses ((t.permute order).mapError .tensor) := by
  by_cases permutation : IsPermutation order t.rank
  · obtain ⟨u, accepted, permuted⟩ := exists_permuted permutation
    rw [accepted, mapError_ok]
    -- A permutation keeps the number of elements.
    change u.data.length < Unsigned.bound
    rw [u.length_data, permuted.dtype, permuted.size_eq permutation, ← t.length_data]
    exact addressable
  · rw [permute, if_neg permutation]
    exact rfl

theorem transposed_orderly (order? : Option (List Nat)) (addressable : t.Addressable) :
    ComputesOrRefuses (t.transposed order?) := by
  cases order? with
  | none => exact addressable
  | some order => exact permute_orderly order addressable

theorem reshaped_orderly (target? : Option Dims) (addressable : t.Addressable) :
    ComputesOrRefuses (t.reshaped target?) := by
  cases target? with
  | none => exact addressable
  | some target =>
    refine Ends.bind ((inferShuffle_orderly t.dims _).mapError fun _ refusal => refusal) ?_
    intro dims _ _
    split
    next => exact rfl
    next shape _ =>
      unfold reshape
      split
      next => exact addressable
      next => exact rfl

/-- A shuffle computes or refuses. -/
theorem shuffle_orderly (spec : ShuffleSpec) (addressable : t.Addressable) :
    ComputesOrRefuses (t.shuffle spec) :=
  (transposed_orderly spec.firstTranspose addressable).bind fun _ _ addressable =>
    (reshaped_orderly spec.reshape addressable).bind fun _ _ addressable =>
      transposed_orderly spec.secondTranspose addressable

/-! ### Elementwise operations and matrix products -/

theorem concreteShape_orderly (dims : Dims) :
    Ends (fun e => e.isOrderly) (fun shape => dims = Shape.toDims shape) (concreteShape dims) := by
  rcases concrete : concreteShape dims with e | shape
  · unfold concreteShape at concrete
    split at concrete <;> cases concrete
    exact rfl
  · exact Dims.toShape?_eq_some_iff.mp (concreteShape_eq_ok_iff.mp concrete)

theorem singles_orderly (t : Tensor) :
    Ends (fun e => e.isOrderly) (fun xs => xs = t.patterns.toArray) t.singles := by
  rcases numbers : t.singles with e | xs
  · unfold singles at numbers
    split at numbers
    next single =>
      rw [floats_eq_ok_iff.mpr ⟨single, rfl⟩] at numbers
      cases numbers
    next =>
      cases numbers
      exact rfl
  · exact (singles_eq_ok_iff.mp numbers).2

/-- An elementwise operation computes or refuses. -/
theorem elementWise_orderly (a b : Tensor) (op : ElementWiseOp) :
    ComputesOrRefuses (a.elementWise b op) := by
  refine Ends.bind ((inferBroadcast_orderly a.dims b.dims).mapError fun _ refusal => refusal) ?_
  intro dims inferred _
  refine Ends.bind (concreteShape_orderly dims) fun shape _ concrete => ?_
  refine Ends.bind (singles_orderly a) fun x _ numbersA => ?_
  refine Ends.bind (singles_orderly b) fun y _ numbersB => ?_
  have outer := inferBroadcast_eq_ok_iff.mp (mapError_eq_ok_iff.mp inferred)
  obtain ⟨coversA, coversB⟩ := covers_of_broadcastExtents? (concrete ▸ outer)
  rw [numbersA, numbersB, elementWise_entries coversA coversB, ok_bind]
  exact ofFloats_orderly _ _

theorem addressable_of_oriented {op : MatrixOp} (addressable : t.Addressable)
    (h : t.oriented op = .ok u) : u.Addressable := by
  cases op with
  | none =>
    cases h
    exact addressable
  | transpose =>
    simp only [oriented] at h
    split at h
    next =>
      have kept := permute_orderly (swapLastTwo t.rank) addressable
      rwa [h] at kept
    next => cases h

/-- The reads of a matrix product that inference has accepted lie within its operands. Only where the
second operand is read does it matter that the inner extents agree, and there the first operand has
numbers, so that its inner extent is no more than the number of its elements. -/
theorem reads_of_inferred {stack stackA stackB : Shape} {m k n m' k' n' : Nat}
    (addressable : a.Addressable) (single : a.dtype = .f32) (shapeA : a.shape = stackA ++ [m', k])
    (shapeB : b.shape = stackB ++ [k', n']) (coversA : Shape.Covers stackA stack)
    (coversB : Shape.Covers stackB stack) (row_eq : Signed.ofUnsigned m' = m)
    (column_eq : Signed.ofUnsigned n' = n)
    (agree : ¬(0 ≤ Signed.ofUnsigned k ∧ 0 ≤ Signed.ofUnsigned k' ∧
      Signed.ofUnsigned k ≠ Signed.ofUnsigned k')) :
    a.ReadsRows stack stackA m k ∧ b.ReadsColumns stack stackB m k n := by
  have sizeA : a.shape.size = stackA.size * (m' * k) := by rw [shapeA, Shape.size_matrix]
  -- An extent is never less than its reading.
  have row_le : m ≤ m' := Int.ofNat_le.mp (row_eq ▸ Signed.ofUnsigned_le m')
  have column_le : n ≤ n' := Int.ofNat_le.mp (column_eq ▸ Signed.ofUnsigned_le n')
  constructor
  · intro matrix matrix_lt row row_lt p p_lt
    rw [sizeA]
    exact Nat.lt_of_lt_of_le (row_position_lt (coversA.spread_lt matrix_lt) row_lt p_lt)
      (Nat.mul_le_mul_left _ (Nat.mul_le_mul_right _ row_le))
  · intro matrix matrix_lt row row_lt p p_lt column column_lt
    have inner_le : k ≤ a.shape.size := by
      rw [sizeA, ← Nat.mul_assoc]
      have stack_pos := Nat.zero_lt_of_lt (coversA.spread_lt matrix_lt)
      have rows_pos := Nat.lt_of_lt_of_le (Nat.zero_lt_of_lt row_lt) row_le
      exact Nat.le_mul_of_pos_left k (Nat.mul_pos stack_pos rows_pos)
    -- As the first operand has that many elements of four bytes each, its inner extent is a known
    -- one, and then the other is the same or reads as negative and is larger.
    have inner : k ≤ k' := by
      have bytes : 4 * a.shape.size < Unsigned.bound := by
        have length := a.length_data
        rw [single] at length
        exact length ▸ addressable
      simp only [Unsigned.bound] at bytes
      rw [Signed.ofUnsigned_eq, Signed.ofUnsigned_eq] at agree
      split at agree <;> split at agree <;> omega
    have sizeB : b.shape.size = stackB.size * (k' * n') := by rw [shapeB, Shape.size_matrix]
    rw [sizeB]
    exact Nat.lt_of_lt_of_le (row_position_lt (coversB.spread_lt matrix_lt) p_lt column_lt)
      (Nat.mul_le_mul_left _ (Nat.mul_le_mul inner column_le))

/-- A matrix product computes or refuses. -/
theorem matrixMultiply_orderly (addressable : a.Addressable) (b : Tensor) (op0 op1 : MatrixOp) :
    ComputesOrRefuses (a.matrixMultiply op0 b op1) := by
  refine Ends.bind
    ((inferMatrixMultiply_orderly a.dims b.dims op0 op1).mapError fun _ refusal => refusal) ?_
  intro dims inferred _
  refine Ends.bind (concreteShape_orderly dims) fun shape _ concrete => ?_
  obtain ⟨stackA, rowsA, columnsA, stackB, rowsB, columnsB, stack, m, n, shapeA, shapeB, rfl,
    ⟨coversA, coversB⟩, ⟨row_eq, column_eq⟩, agree⟩ :=
    inferMatrixMultiply_ofShape (concrete ▸ mapError_eq_ok_iff.mp inferred)
  obtain ⟨a', orientA, -, orientedA⟩ := oriented_ok op0 shapeA
  obtain ⟨b', orientB, -, orientedB⟩ := oriented_ok op1 shapeB
  rw [orientA, ok_bind, orientB, ok_bind]
  refine Ends.bind (singles_orderly a') fun x foundA numbersA => ?_
  refine Ends.bind (singles_orderly b') fun y _ numbersB => ?_
  obtain ⟨readsA, readsB⟩ := reads_of_inferred (addressable_of_oriented addressable orientA)
    (singles_eq_ok_iff.mp foundA).1 orientedA orientedB coversA coversB row_eq column_eq agree
  have entries := matrixMultiply_entries (List.Forall₂.length_eq coversA)
    (List.Forall₂.length_eq coversB) readsA readsB
  rw [matrixParts?_eq_some_iff.mpr rfl, matrixParts?_eq_some_iff.mpr orientedA,
    matrixParts?_eq_some_iff.mpr orientedB, numbersA, numbersB]
  dsimp only
  rw [entries, ok_bind]
  exact ofFloats_orderly _ _

end Tensor

end TensorEngine
