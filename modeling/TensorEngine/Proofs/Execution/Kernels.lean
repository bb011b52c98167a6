import TensorEngine.Execution.Kernels
import TensorEngine.Proofs.Network.Coherent
import TensorEngine.Proofs.Tensor.Cells

/-!
# Types of kernel results

A kernel infers the dimensions of its result from the shapes of its operands. Where a network has
recorded types that fit the operands, the type it has inferred from them fits the result.

## Main definitions

* `TensorType.Fits`: tensors of a recorded type

## Main results

* `Tensor.shuffle_fits`, `Tensor.matrixMultiply_fits`, `Tensor.elementWise_fits`: the inferred type
  of a layer fits what its kernel computes
-/

namespace TensorEngine

/-- The tensor has the element type and a shape that the dimensions describe. -/
structure TensorType.Fits (type : TensorType) (t : Tensor) : Prop where
  dtype : t.dtype = type.dtype
  shape : Dims.describes type.dims t.shape

theorem concreteShape_eq_ok_iff {dims : Dims} {shape : Shape} :
    concreteShape dims = .ok shape ↔ dims.toShape? = some shape := by
  unfold concreteShape
  split <;> simp_all

namespace Tensor

variable {a b t u : Tensor}

/-! ### Shuffles -/

theorem transposed_eq_ok {order? : Option (List Nat)} (h : t.transposed order? = .ok u) :
    u.dtype = t.dtype ∧ Transposes order? t.shape u.shape := by
  cases order? with
  | none =>
    cases h
    exact ⟨rfl, rfl⟩
  | some order =>
    obtain ⟨permutation, permuted⟩ := permute_eq_ok_iff.mp (mapError_eq_ok_iff.mp h)
    exact ⟨permuted.dtype, permutation, permuted.shape⟩

theorem inferShuffle_reshaping {source out target : Dims} :
    inferShuffle source (.reshaping target) = .ok out ↔ Reshapes (some target) source out := by
  rw [inferShuffle_eq_ok_iff]
  constructor
  · rintro ⟨first, second, rfl, reshapes, rfl⟩
    exact reshapes
  · exact fun reshapes => ⟨source, out, rfl, reshapes, rfl⟩

/-- A reshape keeps the data under the shape that the target means. -/
theorem reshaped_eq_ok_iff {target : Dims} :
    t.reshaped (some target) = .ok u ↔ u.dtype = t.dtype ∧ u.data = t.data ∧
      ∃ dims, Reshapes (some target) t.dims dims ∧ dims.toShape? = some u.shape := by
  simp only [reshaped, bind_eq_ok_iff, mapError_eq_ok_iff, inferShuffle_reshaping]
  constructor
  · rintro ⟨dims, reshapes, h⟩
    split at h
    next => cases h
    next shape concrete =>
      rw [mapError_eq_ok_iff] at h
      unfold reshape at h
      split at h
      next =>
        cases h
        exact ⟨rfl, rfl, dims, reshapes, concrete⟩
      next => cases h
  · rintro ⟨dtype, data, dims, reshapes, concrete⟩
    refine ⟨dims, reshapes, ?_⟩
    have sizes : u.shape.size = t.shape.size := by
      refine Nat.eq_of_mul_eq_mul_left t.dtype.size_pos ?_
      rw [← t.length_data, ← data, u.length_data, dtype]
    rw [concrete]
    simp only [reshape, dif_pos sizes]
    exact congrArg Except.ok (ext_data dtype.symm rfl data.symm)

theorem transposed_fits {dtype : DType} {order? : Option (List Nat)} {dims out : Dims}
    (fits : TensorType.Fits ⟨dtype, dims⟩ t) (moved : Transposes order? dims out)
    (h : t.transposed order? = .ok u) : TensorType.Fits ⟨dtype, out⟩ u := by
  obtain ⟨same, shape⟩ := transposed_eq_ok h
  exact ⟨same.trans fits.dtype,
    Dims.describes_iff.mpr (moved.forall₂ (Dims.describes_iff.mp fits.shape) shape)⟩

theorem reshaped_fits {dtype : DType} {target? : Option Dims} {dims out : Dims}
    (words : dims.InWords) (fits : TensorType.Fits ⟨dtype, dims⟩ t)
    (reshapes : Reshapes target? dims out) (h : t.reshaped target? = .ok u) :
    TensorType.Fits ⟨dtype, out⟩ u := by
  cases target? with
  | none =>
    cases h
    exact (show out = dims from reshapes) ▸ fits
  | some target =>
    obtain ⟨same, -, dims', reshapes', concrete⟩ := reshaped_eq_ok_iff.mp h
    have admitted := Dims.admits_ofShape words fits.shape
    exact ⟨same.trans fits.dtype, (reshapes.admits admitted reshapes').describes concrete⟩

/-- The type inferred for a shuffle fits the shuffled tensor. -/
theorem shuffle_fits {dtype : DType} {spec : ShuffleSpec} {source dims : Dims}
    (words : source.InWords) (fits : TensorType.Fits ⟨dtype, source⟩ t)
    (inferred : inferShuffle source spec = .ok dims) (h : t.shuffle spec = .ok u) :
    TensorType.Fits ⟨dtype, dims⟩ u := by
  obtain ⟨first, second, moved, reshapes, moved'⟩ := inferShuffle_eq_ok_iff.mp inferred
  obtain ⟨t1, stage1, h⟩ := bind_eq_ok_iff.mp h
  obtain ⟨t2, stage2, stage3⟩ := bind_eq_ok_iff.mp h
  have words1 := moved.inWords words
  have fits1 := transposed_fits fits moved stage1
  have fits2 := reshaped_fits words1 fits1 reshapes stage2
  exact transposed_fits fits2 moved' stage3

/-! ### Matrix products and elementwise operations -/

theorem singles_eq_ok_iff {xs : Array UInt32} :
    t.singles = .ok xs ↔ t.dtype = .f32 ∧ xs = t.patterns.toArray := by
  unfold singles
  split
  next single =>
    simp only [mapError_eq_ok_iff, map_eq_ok_iff, floats_eq_ok_iff, single, true_and]
    exact ⟨fun ⟨_, entries, result⟩ => by rw [← result, entries],
      fun result => ⟨_, rfl, result.symm⟩⟩
  next other => simp [other]

theorem dtype_of_oriented {op : MatrixOp} (h : t.oriented op = .ok u) : u.dtype = t.dtype := by
  cases op with
  | none =>
    cases h
    rfl
  | transpose =>
    simp only [oriented] at h
    split at h
    next => exact (permute_eq_ok_iff.mp (mapError_eq_ok_iff.mp h)).2.dtype
    next => cases h

theorem matrixMultiply_type {op0 op1 : MatrixOp} (h : a.matrixMultiply op0 b op1 = .ok t) :
    t.dtype = .f32 ∧ a.dtype = .f32 ∧ b.dtype = .f32 ∧
      ∃ dims, inferMatrixMultiply a.dims op0 b.dims op1 = .ok dims ∧
        dims.toShape? = some t.shape := by
  obtain ⟨dims, inferred, h⟩ := bind_eq_ok_iff.mp h
  obtain ⟨shape, concrete, h⟩ := bind_eq_ok_iff.mp h
  obtain ⟨a', orientA, h⟩ := bind_eq_ok_iff.mp h
  obtain ⟨b', orientB, h⟩ := bind_eq_ok_iff.mp h
  obtain ⟨x, singlesA, h⟩ := bind_eq_ok_iff.mp h
  obtain ⟨y, singlesB, h⟩ := bind_eq_ok_iff.mp h
  split at h
  next =>
    obtain ⟨entries, -, h⟩ := bind_eq_ok_iff.mp h
    obtain ⟨-, single, rfl, -⟩ := ofFloats_eq_ok_iff.mp (mapError_eq_ok_iff.mp h)
    exact ⟨single, (dtype_of_oriented orientA).symm.trans (singles_eq_ok_iff.mp singlesA).1,
      (dtype_of_oriented orientB).symm.trans (singles_eq_ok_iff.mp singlesB).1, dims,
      mapError_eq_ok_iff.mp inferred, concreteShape_eq_ok_iff.mp concrete⟩
  next => cases h

theorem elementWise_type {op : ElementWiseOp} (h : a.elementWise b op = .ok t) :
    t.dtype = .f32 ∧ a.dtype = .f32 ∧ b.dtype = .f32 ∧
      ∃ dims, inferBroadcast a.dims b.dims = .ok dims ∧ dims.toShape? = some t.shape := by
  obtain ⟨dims, inferred, h⟩ := bind_eq_ok_iff.mp h
  obtain ⟨shape, concrete, h⟩ := bind_eq_ok_iff.mp h
  obtain ⟨x, singlesA, h⟩ := bind_eq_ok_iff.mp h
  obtain ⟨y, singlesB, h⟩ := bind_eq_ok_iff.mp h
  obtain ⟨entries, -, h⟩ := bind_eq_ok_iff.mp h
  obtain ⟨-, single, rfl, -⟩ := ofFloats_eq_ok_iff.mp (mapError_eq_ok_iff.mp h)
  exact ⟨single, (singles_eq_ok_iff.mp singlesA).1, (singles_eq_ok_iff.mp singlesB).1, dims,
    mapError_eq_ok_iff.mp inferred, concreteShape_eq_ok_iff.mp concrete⟩

variable {dtype : DType} {lhs rhs dims : Dims}

/-- The type inferred for a matrix product fits the product. -/
theorem matrixMultiply_fits {op0 op1 : MatrixOp} (wordsA : lhs.InWords) (wordsB : rhs.InWords)
    (fitsA : TensorType.Fits ⟨dtype, lhs⟩ a) (fitsB : TensorType.Fits ⟨dtype, rhs⟩ b)
    (inferred : inferMatrixMultiply lhs op0 rhs op1 = .ok dims)
    (h : a.matrixMultiply op0 b op1 = .ok t) : TensorType.Fits ⟨dtype, dims⟩ t := by
  obtain ⟨single, singleA, -, dims', inferred', concrete⟩ := matrixMultiply_type h
  have admitted := inferMatrixMultiply_admits (Dims.admits_ofShape wordsA fitsA.shape)
    (Dims.admits_ofShape wordsB fitsB.shape) inferred inferred'
  exact ⟨by rw [single, ← singleA, fitsA.dtype], admitted.describes concrete⟩

/-- The type inferred for an elementwise operation fits the result. -/
theorem elementWise_fits {op : ElementWiseOp} (wordsA : lhs.InWords) (wordsB : rhs.InWords)
    (fitsA : TensorType.Fits ⟨dtype, lhs⟩ a) (fitsB : TensorType.Fits ⟨dtype, rhs⟩ b)
    (inferred : inferBroadcast lhs rhs = .ok dims) (h : a.elementWise b op = .ok t) :
    TensorType.Fits ⟨dtype, dims⟩ t := by
  obtain ⟨single, singleA, -, dims', inferred', concrete⟩ := elementWise_type h
  have admitted := broadcastExtents?_admits (Dims.admits_ofShape wordsA fitsA.shape)
    (Dims.admits_ofShape wordsB fitsB.shape) (inferBroadcast_eq_ok_iff.mp inferred)
    (inferBroadcast_eq_ok_iff.mp inferred')
  exact ⟨by rw [single, ← singleA, fitsA.dtype], admitted.describes concrete⟩

end Tensor

end TensorEngine
