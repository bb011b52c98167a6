import TensorEngine.Proofs.Execution.Kernels
import TensorEngine.Proofs.Execution.Offsets
import TensorEngine.Proofs.Tensor.Operations

/-!
# Numbers in kernel results

A kernel that reads within its operands finds all numbers that it computes from. Where the extents
of the operands are known, that is the case for everything that its rule of inference accepts, and
the numbers of the result are given position by position.

## Main definitions

* `Tensor.Known`: tensors whose extents are their own signed readings
* `Tensor.ReadsRows`, `Tensor.ReadsColumns`: what a matrix product reads of its operands

## Main results

* `stretches_of_broadcastExtents?`: operands stretch to the shape they broadcast to
* `Tensor.elementWise_entries`, `Tensor.matrixMultiply_entries`: reads within the operands do not
  fail
* `Tensor.elementWise_of_covers`, `Tensor.matrixMultiply_of_reads`: results as the tensors of their
  numbers
-/

namespace TensorEngine

/-- Known operands that broadcast have a shape that both stretch to. -/
theorem stretches_of_broadcastExtents? {xs ys : Shape} {out : Dims}
    (h : broadcastExtents? xs.toDims ys.toDims = some out) :
    ∃ shape : Shape, out = shape.toDims ∧ Shape.Stretches xs shape ∧ Shape.Stretches ys shape := by
  induction xs generalizing ys out with
  | nil =>
    cases ys with
    | nil =>
      cases h
      exact ⟨[], rfl, .nil, .nil⟩
    | cons => cases h
  | cons x xs ih =>
    cases ys with
    | nil => cases h
    | cons y ys =>
      simp only [Shape.toDims, List.map_cons, broadcastExtents?, Option.bind_eq_bind,
        Option.bind_eq_some_iff] at h
      obtain ⟨d, head, rest, tail, result⟩ := h
      cases result
      obtain ⟨shape, rfl, left, right⟩ := ih tail
      -- Extents of shapes are known, so the case of an unknown extent does not occur.
      have one : ∃ n : Nat, d = n ∧ (x = n ∨ x = 1) ∧ (y = n ∨ y = 1) := by
        unfold broadcastExtent? at head
        split at head
        next same =>
          cases head
          exact ⟨x, rfl, .inl rfl, .inl (by omega)⟩
        next =>
          split at head
          next =>
            cases head
            exact ⟨y, rfl, .inr (by omega), .inl rfl⟩
          next =>
            split at head
            next =>
              cases head
              exact ⟨x, rfl, .inl rfl, .inr (by omega)⟩
            next => split at head <;> [omega; (split at head; omega; cases head)]
      obtain ⟨n, rfl, first, second⟩ := one
      exact ⟨n :: shape, rfl, .cons first left, .cons second right⟩

theorem Shape.toDims_eq_append_pair {shape : Shape} {stack : Dims} {rows columns : Int}
    (h : shape.toDims = stack ++ [rows, columns]) : ∃ (stack' : Shape) (rows' columns' : Nat),
      shape = stack' ++ [rows', columns'] ∧ stack = stack'.toDims ∧ rows = rows' ∧
        columns = columns' :=
  map_eq_append_pair h

theorem Shape.size_append (xs ys : Shape) : (xs ++ ys).size = xs.size * ys.size := by
  rw [size_eq_prod, size_eq_prod, size_eq_prod, List.prod_append]

theorem Shape.size_matrix (stack : Shape) (m n : Nat) :
    size (stack ++ [m, n]) = stack.size * (m * n) := by
  rw [size_append, size_cons, size_cons, show size [] = 1 from rfl, Nat.mul_one]

namespace Tensor

variable {a b t u : Tensor}

/-- Every extent is its own signed reading. -/
def Known (t : Tensor) : Prop :=
  t.dims = t.shape.toDims

theorem arrayEntry_patterns {ε : Type} [HasFault ε] {position : Nat}
    (within : position < t.shape.size) :
    (arrayEntry t.patterns.toArray position : Except ε UInt32) = .ok (t.pattern position) := by
  rw [arrayEntry_eq_ok_iff, pattern, List.getD_eq_getElem?_getD,
    List.getElem?_eq_getElem (by rwa [length_patterns]), Option.getD_some]

/-- Where the operands cover the result, the numbers that belong to a position are all there. -/
theorem elementWise_entries {op : ElementWiseOp} {shape : Shape}
    (coversA : Shape.Covers a.shape shape) (coversB : Shape.Covers b.shape shape) :
    (List.range shape.size).mapM (fun position => do
      let i ← broadcastOffset shape a.shape position
      let u ← arrayEntry a.patterns.toArray i
      let j ← broadcastOffset shape b.shape position
      let v ← arrayEntry b.patterns.toArray j
      return op.eval u v) = .ok ((List.range shape.size).map fun position =>
        op.eval (a.pattern (Shape.spread shape a.shape position))
          (b.pattern (Shape.spread shape b.shape position))) := by
  refine mapM_eq_ok_map fun position member => ?_
  have within := List.mem_range.mp member
  rw [broadcastOffset_eq (List.Forall₂.length_eq coversA) within, ok_bind,
    arrayEntry_patterns (coversA.spread_lt within), ok_bind,
    broadcastOffset_eq (List.Forall₂.length_eq coversB) within, ok_bind,
    arrayEntry_patterns (coversB.spread_lt within), ok_bind]
  rfl

/-- An elementwise operation whose operands cover its result makes the tensor of the numbers that
belong to each position, combined. -/
theorem elementWise_of_covers {op : ElementWiseOp} {shape : Shape}
    (coversA : Shape.Covers a.shape shape) (coversB : Shape.Covers b.shape shape)
    (singleA : a.dtype = .f32) (singleB : b.dtype = .f32)
    (inferred : inferBroadcast a.dims b.dims = .ok shape.toDims) :
    a.elementWise b op = (ofFloats shape ((List.range shape.size).map fun position =>
      op.eval (a.pattern (Shape.spread shape a.shape position))
        (b.pattern (Shape.spread shape b.shape position)))).mapError .tensor := by
  have concrete := concreteShape_eq_ok_iff.mpr
    (Dims.toShape?_eq_some_iff.mpr (rfl : shape.toDims = shape.toDims))
  have x := singles_eq_ok_iff.mpr ⟨singleA, rfl⟩
  have y := singles_eq_ok_iff.mpr ⟨singleB, rfl⟩
  unfold elementWise
  rw [inferred, mapError_ok, ok_bind, concrete, ok_bind, x, ok_bind, y, ok_bind,
    elementWise_entries coversA coversB, ok_bind]

/-- Known operands that broadcast stretch to the result, so that they cover it. -/
theorem elementWise_eq {op : ElementWiseOp} {shape : Shape} (knownA : a.Known) (knownB : b.Known)
    (singleA : a.dtype = .f32) (singleB : b.dtype = .f32)
    (inferred : inferBroadcast a.dims b.dims = .ok shape.toDims) :
    a.elementWise b op = (ofFloats shape ((List.range shape.size).map fun position =>
      op.eval (a.pattern (Shape.spread shape a.shape position))
        (b.pattern (Shape.spread shape b.shape position)))).mapError .tensor := by
  have outer := inferBroadcast_eq_ok_iff.mp inferred
  rw [knownA, knownB] at outer
  obtain ⟨shape', same, stretchA, stretchB⟩ := stretches_of_broadcastExtents? outer
  obtain rfl := Dims.toDims_injective same
  exact elementWise_of_covers stretchA.covers stretchB.covers singleA singleB inferred

theorem row_position_lt {count m k matrix row p : Nat} (hmatrix : matrix < count) (hrow : row < m)
    (hp : p < k) : matrix * (m * k) + row * k + p < count * (m * k) :=
  calc matrix * (m * k) + row * k + p < matrix * (m * k) + (row + 1) * k := by
        rw [Nat.succ_mul]
        omega
    _ ≤ matrix * (m * k) + m * k := Nat.add_le_add_left (Nat.mul_le_mul_right _ hrow) _
    _ = (matrix + 1) * (m * k) := (Nat.succ_mul _ _).symm
    _ ≤ count * (m * k) := Nat.mul_le_mul_right _ hmatrix

section Reads

variable {stack stackA stackB : Shape} {m k n : Nat}

/-- Every row that a product reads lies within its first operand. -/
def ReadsRows (a : Tensor) (stack stackA : Shape) (m k : Nat) : Prop :=
  ∀ matrix < stack.size, ∀ row < m, ∀ p < k,
    Shape.spread stack stackA matrix * (m * k) + row * k + p < a.shape.size

/-- Every column that a product reads lies within its second operand. Without rows, none is read. -/
def ReadsColumns (b : Tensor) (stack stackB : Shape) (m k n : Nat) : Prop :=
  ∀ matrix < stack.size, ∀ _row < m, ∀ p < k, ∀ column < n,
    Shape.spread stack stackB matrix * (k * n) + p * n + column < b.shape.size

/-- A product that reads within its operands finds all numbers that it multiplies. -/
theorem matrixMultiply_entries (rankA : stackA.rank = stack.rank) (rankB : stackB.rank = stack.rank)
    (rows : a.ReadsRows stack stackA m k) (columns : b.ReadsColumns stack stackB m k n) :
    (List.range stack.size).mapM (fun matrix => do
      let startA ← broadcastOffset stack stackA matrix
      let startB ← broadcastOffset stack stackB matrix
      (List.range m).mapM fun row => do
        let us ← (List.range k).mapM fun p =>
          arrayEntry a.patterns.toArray (startA * (m * k) + row * k + p)
        (List.range n).mapM fun column => do
          let vs ← (List.range k).mapM fun p =>
            arrayEntry b.patterns.toArray (startB * (k * n) + p * n + column)
          return Binary.Single.sumOfProducts (us.zip vs)) =
      .ok ((List.range stack.size).map fun matrix => (List.range m).map fun row =>
        (List.range n).map fun column =>
          Binary.Single.sumOfProducts ((List.range k).map fun p =>
            (a.pattern (Shape.spread stack stackA matrix * (m * k) + row * k + p),
              b.pattern (Shape.spread stack stackB matrix * (k * n) + p * n + column)))) := by
  refine mapM_eq_ok_map fun matrix inStack => ?_
  have matrix_lt := List.mem_range.mp inStack
  rw [broadcastOffset_eq rankA matrix_lt, ok_bind, broadcastOffset_eq rankB matrix_lt, ok_bind]
  refine mapM_eq_ok_map fun row inRows => ?_
  have row_lt := List.mem_range.mp inRows
  have us : (List.range k).mapM (fun p => arrayEntry a.patterns.toArray
      (Shape.spread stack stackA matrix * (m * k) + row * k + p)) =
        (.ok ((List.range k).map fun p =>
          a.pattern (Shape.spread stack stackA matrix * (m * k) + row * k + p)) :
            Except ExecutionFault _) :=
    mapM_eq_ok_map fun p inner =>
      arrayEntry_patterns (rows matrix matrix_lt row row_lt p (List.mem_range.mp inner))
  rw [us, ok_bind]
  refine mapM_eq_ok_map fun column inColumns => ?_
  have column_lt := List.mem_range.mp inColumns
  have vs : (List.range k).mapM (fun p => arrayEntry b.patterns.toArray
      (Shape.spread stack stackB matrix * (k * n) + p * n + column)) =
        (.ok ((List.range k).map fun p =>
          b.pattern (Shape.spread stack stackB matrix * (k * n) + p * n + column)) :
            Except ExecutionFault _) :=
    mapM_eq_ok_map fun p inner => arrayEntry_patterns
      (columns matrix matrix_lt row row_lt p (List.mem_range.mp inner) column column_lt)
  rw [vs, ok_bind, List.zip_map']
  rfl

end Reads

theorem oriented_ok (op : MatrixOp) {stack : Shape} {rows columns : Nat}
    (shape : t.shape = stack ++ [rows, columns]) :
    ∃ u, t.oriented op = .ok u ∧ u.dtype = t.dtype ∧
      u.shape = stack ++ [(op.orient rows columns).1, (op.orient rows columns).2] := by
  cases op with
  | none => exact ⟨t, rfl, rfl, shape⟩
  | transpose =>
    have rank : 2 ≤ t.rank := by simp [Tensor.rank, Shape.rank, shape]
    obtain ⟨u, accepted, permuted⟩ := exists_permuted (isPermutation_swapLastTwo rank)
    refine ⟨u, ?_, permuted.dtype, ?_⟩
    · rw [oriented, if_pos rank, accepted, mapError_ok]
    have moved := permuted.shape
    rw [Tensor.rank, Shape.rank, shape] at moved
    exact moved.unique (arranged_swapLastTwo stack rows columns)

section Products

variable {a' b' : Tensor} {op0 op1 : MatrixOp} {stack stackA stackB : Shape} {m k n : Nat}

/-- A matrix product that reads within its operands makes the tensor of the sums of products. The
extents of its operands need not be those of the result. -/
theorem matrixMultiply_of_reads {rowsA rowsB columnsB : Nat}
    (inferred : inferMatrixMultiply a.dims op0 b.dims op1 = .ok (Shape.toDims (stack ++ [m, n])))
    (orientA : a.oriented op0 = .ok a') (orientB : b.oriented op1 = .ok b')
    (singleA : a'.dtype = .f32) (singleB : b'.dtype = .f32)
    (shapeA : a'.shape = stackA ++ [rowsA, k]) (shapeB : b'.shape = stackB ++ [rowsB, columnsB])
    (rankA : stackA.rank = stack.rank) (rankB : stackB.rank = stack.rank)
    (rows : a'.ReadsRows stack stackA m k) (columns : b'.ReadsColumns stack stackB m k n) :
    a.matrixMultiply op0 b op1 = (ofFloats (stack ++ [m, n])
      ((List.range (Shape.size (stack ++ [m, n]))).map fun position =>
        Binary.Single.sumOfProducts
          (products a' b' stack stackA stackB m k n position))).mapError .tensor := by
  have entries := matrixMultiply_entries rankA rankB rows columns
  have concrete := concreteShape_eq_ok_iff.mpr (Dims.toShape?_eq_some_iff.mpr
    (rfl : Shape.toDims (stack ++ [m, n]) = Shape.toDims (stack ++ [m, n])))
  have x := singles_eq_ok_iff.mpr ⟨singleA, rfl⟩
  have y := singles_eq_ok_iff.mpr ⟨singleB, rfl⟩
  have partsOut := matrixParts?_eq_some_iff.mpr (rfl : stack ++ [m, n] = stack ++ [m, n])
  have partsA := matrixParts?_eq_some_iff.mpr shapeA
  have partsB := matrixParts?_eq_some_iff.mpr shapeB
  unfold matrixMultiply
  rw [inferred, mapError_ok, ok_bind, concrete, ok_bind, orientA, ok_bind, orientB, ok_bind, x,
    ok_bind, y, ok_bind, partsOut, partsA, partsB]
  refine (congrArg (· >>= _) entries).trans ((ok_bind _ _).trans ?_)
  rw [flatten_tables, Shape.size_matrix]
  simp only [products, Nat.add_right_comm _ (_ * n) (_ % n)]

/-- A matrix product of single precision operands whose stacks stretch to that of the result makes
the tensor of the sums of products of rows and columns. -/
theorem matrixMultiply_eq
    (inferred : inferMatrixMultiply a.dims op0 b.dims op1 = .ok (Shape.toDims (stack ++ [m, n])))
    (orientA : a.oriented op0 = .ok a') (orientB : b.oriented op1 = .ok b')
    (singleA : a'.dtype = .f32) (singleB : b'.dtype = .f32)
    (shapeA : a'.shape = stackA ++ [m, k]) (shapeB : b'.shape = stackB ++ [k, n])
    (stretchA : Shape.Stretches stackA stack) (stretchB : Shape.Stretches stackB stack) :
    a.matrixMultiply op0 b op1 = (ofFloats (stack ++ [m, n])
      ((List.range (Shape.size (stack ++ [m, n]))).map fun position =>
        Binary.Single.sumOfProducts
          (products a' b' stack stackA stackB m k n position))).mapError .tensor := by
  have rows : a'.ReadsRows stack stackA m k := by
    intro matrix matrix_lt row row_lt p p_lt
    rw [shapeA, Shape.size_matrix]
    exact row_position_lt (stretchA.covers.spread_lt matrix_lt) row_lt p_lt
  have columns : b'.ReadsColumns stack stackB m k n := by
    intro matrix matrix_lt _ _ p p_lt column column_lt
    rw [shapeB, Shape.size_matrix]
    exact row_position_lt (stretchB.covers.spread_lt matrix_lt) p_lt column_lt
  exact matrixMultiply_of_reads inferred orientA orientB singleA singleB shapeA shapeB
    (List.Forall₂.length_eq stretchA) (List.Forall₂.length_eq stretchB) rows columns

end Products

end Tensor

end TensorEngine
