import TensorEngine.Proofs.Execution.Progress
import TensorEngine.Proofs.Execution.Refusals

/-!
# Kernels and the rules of inference

A kernel finds the shape of its result while it runs: a shuffle moves the axes of a tensor, infers
what its target means from the moved extents and moves axes again, and a matrix product exchanges
the axes of its operands in memory. The rules of inference do the same in one pass over dimensions.
For operands of known extents the two come to the same: a kernel computes a tensor exactly when its
rule accepts the dimensions of the operands, and the tensor has the inferred shape.

## Main definitions

* `ResultFits`: results of the inferred dimensions have a number of bytes that is a word
* `Realises`: a computation does what inference says of it

## Main results

* `Tensor.inferShuffle_of_shuffle`: inference accepts every shuffle that has run
* `Tensor.shuffle_realises`, `Tensor.elementWise_realises`, `Tensor.matrixMultiply_realises`: the
  kernels, one by one
* `kernels_realise_inference`: all of them
-/

namespace TensorEngine

/-- A tensor of the inferred dimensions has a number of bytes that is a word. -/
def ResultFits (dtype : DType) (inferred : Except NetworkError Dims) : Prop :=
  ∀ shape, inferred = .ok (Shape.toDims shape) → (Unsigned.product? dtype.size shape).isSome

instance (dtype : DType) (inferred : Except NetworkError Dims) :
    Decidable (ResultFits dtype inferred) :=
  decidable_of_iff (∀ dims ∈ inferred.toOption, ∀ shape ∈ dims.toShape?,
      (Unsigned.product? dtype.size shape).isSome) <| by
    simp only [Option.mem_def, toOption_eq_some_iff, Dims.toShape?_eq_some_iff]
    exact ⟨fun h shape same => h _ same shape rfl, fun h dims same shape eq => h shape (eq ▸ same)⟩

/-- The computation succeeds exactly when inference accepts. Its result then has the element type,
the inferred shape and as many bytes as the checked construction asks for. Otherwise it is refused,
which is no fault. -/
structure Realises (dtype : DType) (run : Except ExecutionFault Tensor)
    (inferred : Except NetworkError Dims) : Prop where
  succeeds : (∃ t, run = .ok t) ↔ ∃ dims, inferred = .ok dims
  result : ∀ t, run = .ok t → t.dtype = dtype ∧ inferred = .ok t.shape.toDims ∧
    Tensor.ofBytes t.dtype t.shape t.data = .ok t
  refused : ∀ e, run = .error e → e.isOrderly

/-- It is enough that accepted dimensions are computed, that results have the inferred shape, and
that their bytes fit. -/
theorem Realises.of_inferred {dtype : DType} {run : Except ExecutionFault Tensor}
    {inferred : Except NetworkError Dims} (fits : ResultFits dtype inferred)
    (orderly : Tensor.ComputesOrRefuses run)
    (progress : ∀ dims, inferred = .ok dims → ∃ t, run = .ok t)
    (shape : ∀ t, run = .ok t → t.dtype = dtype ∧ inferred = .ok t.shape.toDims) :
    Realises dtype run inferred where
  succeeds := ⟨fun ⟨t, computed⟩ => ⟨_, (shape t computed).2⟩,
    fun ⟨dims, accepted⟩ => progress dims accepted⟩
  result := by
    intro t computed
    obtain ⟨rfl, accepted⟩ := shape t computed
    obtain ⟨bytes, product⟩ := Option.isSome_iff_exists.mp (fits t.shape accepted)
    have length : bytes = t.data.length :=
      (Unsigned.product?_eq_some product).trans t.length_data.symm
    exact ⟨rfl, accepted, Tensor.ofBytes_eq_ok_iff.mpr ⟨length ▸ product, rfl, rfl, rfl⟩⟩
  refused := by
    rintro e rfl
    exact orderly

namespace Tensor

variable {a b t u : Tensor} {spec : ShuffleSpec}

/-! ### Shuffles -/

theorem Known.transposed {order? : Option (List Nat)} (known : t.Known)
    (moved : Transposes order? t.shape u.shape) : u.Known :=
  List.map_congr_left fun n member => List.map_inj_left.mp known n (moved.mem member)

theorem reshaped_eq_ok {target? : Option Dims} (known : t.Known)
    (h : t.reshaped target? = .ok u) :
    u.dtype = t.dtype ∧ Reshapes target? t.shape.toDims u.shape.toDims := by
  cases target? with
  | none =>
    cases h
    exact ⟨rfl, rfl⟩
  | some target =>
    obtain ⟨dtype, -, dims, reshapes, concrete⟩ := reshaped_eq_ok_iff.mp h
    obtain rfl := Dims.toShape?_eq_some_iff.mp concrete
    exact ⟨dtype, known ▸ reshapes⟩

/-- A shuffle that has run is one that inference accepts, with the shape of the result. -/
theorem inferShuffle_of_shuffle (known : t.Known) (h : t.shuffle spec = .ok u) :
    u.dtype = t.dtype ∧ inferShuffle t.dims spec = .ok u.shape.toDims := by
  obtain ⟨t1, stage1, h⟩ := bind_eq_ok_iff.mp h
  obtain ⟨t2, stage2, stage3⟩ := bind_eq_ok_iff.mp h
  obtain ⟨dtype1, moved⟩ := transposed_eq_ok stage1
  obtain ⟨dtype2, reshapes⟩ := reshaped_eq_ok (known.transposed moved) stage2
  obtain ⟨dtype3, moved'⟩ := transposed_eq_ok stage3
  refine ⟨dtype3.trans (dtype2.trans dtype1), inferShuffle_eq_ok_iff.mpr ⟨_, _, ?_, reshapes, ?_⟩⟩
  · exact known ▸ moved.map _
  · exact moved'.map _

/-- A shuffle computes what is inferred for it. -/
theorem shuffle_realises (addressable : t.Addressable) (known : t.Known)
    (fits : ResultFits t.dtype (inferShuffle t.dims spec)) :
    Realises t.dtype (t.shuffle spec) (inferShuffle t.dims spec) := by
  refine .of_inferred fits (shuffle_orderly spec addressable) ?_ ?_
  · intro dims accepted
    have static : t.dims.isStatic := known ▸ Dims.isStatic_toDims t.shape
    have own : TensorType.Fits ⟨t.dtype, t.dims⟩ t :=
      ⟨rfl, (Dims.describes_iff_of_isStatic static).mpr known.symm⟩
    exact shuffle_progress (Dims.inWords_ofShape t.shape) static own accepted
  · exact fun u computed => inferShuffle_of_shuffle known computed

/-! ### Elementwise operations and matrix products -/

/-- An elementwise operation computes what is inferred for it. -/
theorem elementWise_realises (op : ElementWiseOp) (knownA : a.Known) (knownB : b.Known)
    (singleA : a.dtype = .f32) (singleB : b.dtype = .f32)
    (fits : ResultFits .f32 (inferBroadcast a.dims b.dims)) :
    Realises .f32 (a.elementWise b op) (inferBroadcast a.dims b.dims) := by
  refine .of_inferred fits (elementWise_orderly a b op) ?_ ?_
  · intro dims accepted
    exact elementWise_progress knownA knownB singleA singleB accepted
      fun shape same => fits shape (same ▸ accepted)
  · intro t computed
    obtain ⟨single, -, -, dims, accepted, concrete⟩ := elementWise_type computed
    exact ⟨single, Dims.toShape?_eq_some_iff.mp concrete ▸ accepted⟩

/-- A matrix product computes what is inferred for it. -/
theorem matrixMultiply_realises (op0 op1 : MatrixOp) (addressable : a.Addressable) (knownA : a.Known)
    (knownB : b.Known) (singleA : a.dtype = .f32) (singleB : b.dtype = .f32)
    (fits : ResultFits .f32 (inferMatrixMultiply a.dims op0 b.dims op1)) :
    Realises .f32 (a.matrixMultiply op0 b op1) (inferMatrixMultiply a.dims op0 b.dims op1) := by
  refine .of_inferred fits (matrixMultiply_orderly addressable b op0 op1) ?_ ?_
  · intro dims accepted
    exact matrixMultiply_progress knownA knownB singleA singleB accepted
      fun shape same => fits shape (same ▸ accepted)
  · intro t computed
    obtain ⟨single, -, -, dims, accepted, concrete⟩ := matrixMultiply_type computed
    exact ⟨single, Dims.toShape?_eq_some_iff.mp concrete ▸ accepted⟩

end Tensor

/-- Kernels over operands of known extents succeed exactly when inference accepts the dimensions of
the operands, and then compute a tensor of the inferred shape. -/
theorem kernels_realise_inference :
    (∀ (t : Tensor) (spec : ShuffleSpec), t.Addressable → t.Known →
      ResultFits t.dtype (inferShuffle t.dims spec) →
        Realises t.dtype (t.shuffle spec) (inferShuffle t.dims spec)) ∧
    ∀ a b : Tensor, a.Addressable → a.Known → a.dtype = .f32 → b.Known → b.dtype = .f32 →
      (∀ op, ResultFits .f32 (inferBroadcast a.dims b.dims) →
        Realises .f32 (a.elementWise b op) (inferBroadcast a.dims b.dims)) ∧
      ∀ op0 op1, ResultFits .f32 (inferMatrixMultiply a.dims op0 b.dims op1) →
        Realises .f32 (a.matrixMultiply op0 b op1) (inferMatrixMultiply a.dims op0 b.dims op1) := by
  refine ⟨fun t spec => Tensor.shuffle_realises, ?_⟩
  intro a b addressable knownA singleA knownB singleB
  exact ⟨fun op => Tensor.elementWise_realises op knownA knownB singleA singleB,
    fun op0 op1 =>
      Tensor.matrixMultiply_realises op0 op1 addressable knownA knownB singleA singleB⟩

/-- A tensor without elements. -/
def hollowTensor : Tensor :=
  ⟨.f16, [2, 0, 3], [], rfl⟩

/-- A row of two numbers. -/
def rowTensor : Tensor :=
  ⟨.f32, [1, 2], [0, 0, 0, 64, 0, 0, 64, 64], rfl⟩

/-- A shuffle of no elements computes a tensor of the inferred shape, and is refused where nothing
follows from their number. A row can be multiplied by its transpose, not by itself. -/
theorem kernels_realise_inference_rows :
    Realises .f16 (hollowTensor.shuffle ⟨some [1, 0, 2], some [0, 5], some [1, 0]⟩) (.ok [5, 0]) ∧
    Realises .f16 (hollowTensor.shuffle (.reshaping [0, 0, -1]))
      (.error (.reshape [2, 0, 3] [0, 0, -1] .notDivisible)) ∧
    Realises .f32 (rowTensor.elementWise rowTensor .sum) (.ok [1, 2]) ∧
    Realises .f32 (rowTensor.matrixMultiply .none rowTensor .transpose) (.ok [1, 1]) ∧
    Realises .f32 (rowTensor.matrixMultiply .none rowTensor .none)
      (.error (.matrixMultiply [1, 2] [1, 2])) := by
  have hollow : hollowTensor.dims = [2, 0, 3] := by decide
  have row : rowTensor.dims = [1, 2] := by decide
  have none_fits : hollowTensor.Addressable := (by decide : 0 < Unsigned.bound)
  have two_fit : rowTensor.Addressable := (by decide : 8 < Unsigned.bound)
  have shuffles := kernels_realise_inference.1 hollowTensor
  obtain ⟨combines, multiplies⟩ :=
    kernels_realise_inference.2 rowTensor rowTensor two_fit row rfl row rfl
  rw [hollow] at shuffles
  rw [row] at combines multiplies
  exact ⟨shuffles ⟨some [1, 0, 2], some [0, 5], some [1, 0]⟩ none_fits hollow (by decide),
    shuffles (.reshaping [0, 0, -1]) none_fits hollow (by decide), combines .sum (by decide),
    multiplies .none .transpose (by decide), multiplies .none .none (by decide)⟩

end TensorEngine
