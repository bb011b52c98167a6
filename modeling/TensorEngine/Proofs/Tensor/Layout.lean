import Mathlib.Algebra.BigOperators.Group.List.Lemmas
import TensorEngine.Proofs.Execution.Numbers
import TensorEngine.Proofs.Network.Filling

/-!
# Tensors under another shape

A tensor that is laid out under another shape keeps its data, so that its numbers stay at their
positions. A tensor that has elements and fits in memory has known extents, and what becomes of it
under a reshape target is the tensor under the shape that fills the target.

## Main definitions

* `Tensor.Addressable`: tensors whose bytes are counted by a word
* `Tensor.Compact`: such tensors that have elements

## Main results

* `Tensor.reshape_eq_ok_iff`: a tensor under another shape
* `Tensor.reshape_of_fills`: a reshape target is filled by one shape
-/

namespace TensorEngine

theorem Shape.le_size {shape : Shape} (positive : 0 < shape.size) {n : Nat} (member : n ∈ shape) :
    n ≤ shape.size := by
  rw [Shape.size_eq_prod] at positive ⊢
  exact Nat.le_of_dvd positive (List.dvd_prod member)

theorem Shape.size_padded (rank : Nat) (shape : Shape) : (shape.padded rank).size = shape.size := by
  rw [padded, size_append, size_eq_prod, List.prod_replicate, Nat.one_pow, Nat.one_mul]

/-- A product that fits is a word. -/
theorem Unsigned.product?_lt {start : Nat} {factors : List Nat} {n : Nat} (first : start < bound)
    (h : product? start factors = some n) : n < bound := by
  induction factors generalizing start with
  | nil => exact Option.some.inj h ▸ first
  | cons factor factors ih =>
    rw [product?, List.foldlM_cons, Option.bind_eq_bind, Option.bind_eq_some_iff] at h
    obtain ⟨next, step, rest⟩ := h
    obtain ⟨fits, rfl⟩ := mul?_eq_some_iff.mp step
    exact ih fits rest

/-- A product of positive factors that is a word fits. -/
theorem Unsigned.isSome_product? {start : Nat} {factors : List Nat}
    (positive : 0 < Shape.size factors) (fits : start * Shape.size factors < bound) :
    (product? start factors).isSome := by
  induction factors generalizing start with
  | nil => rfl
  | cons factor factors ih =>
    rw [Shape.size_cons] at positive fits
    have rest_pos : 0 < Shape.size factors := Nat.pos_of_mul_pos_left positive
    rw [← Nat.mul_assoc] at fits
    have step : mul? start factor = some (start * factor) :=
      mul?_eq_some_iff.mpr ⟨Nat.lt_of_le_of_lt (Nat.le_mul_of_pos_right _ rest_pos) fits, rfl⟩
    rw [product?, List.foldlM_cons, step]
    exact ih rest_pos fits

namespace Tensor

variable {t u : Tensor} {shape : Shape}

theorem reshape_eq_ok_iff :
    t.reshape shape = .ok u ↔ u.dtype = t.dtype ∧ u.shape = shape ∧ u.data = t.data := by
  unfold reshape
  split
  next sizes =>
    rw [Except.ok.injEq]
    constructor
    · rintro rfl
      exact ⟨rfl, rfl, rfl⟩
    · rintro ⟨dtype, rfl, data⟩
      exact ext_data dtype.symm rfl data.symm
  next sizes =>
    refine iff_of_false (by simp) ?_
    rintro ⟨dtype, rfl, data⟩
    refine sizes (Nat.eq_of_mul_eq_mul_left t.dtype.size_pos ?_)
    rw [← t.length_data, ← data, u.length_data, dtype]

theorem size_of_reshape (h : t.reshape shape = .ok u) : shape.size = t.shape.size := by
  unfold reshape at h
  split at h
  next sizes => exact sizes
  next => cases h

theorem patterns_of_reshape (h : t.reshape shape = .ok u) : u.patterns = t.patterns := by
  have sizes := size_of_reshape h
  obtain ⟨dtype, same, data⟩ := reshape_eq_ok_iff.mp h
  simp only [patterns, cells, size, dtype, same, data, sizes]

theorem pattern_of_reshape (h : t.reshape shape = .ok u) : u.pattern = t.pattern := by
  funext position
  rw [pattern, pattern, patterns_of_reshape h]

/-- Laying a tensor out twice is laying it out under the second shape. -/
theorem reshape_reshape {shape' : Shape} {v : Tensor} (h : t.reshape shape = .ok u) :
    u.reshape shape' = .ok v ↔ t.reshape shape' = .ok v := by
  obtain ⟨dtype, -, data⟩ := reshape_eq_ok_iff.mp h
  rw [reshape_eq_ok_iff, reshape_eq_ok_iff, dtype, data]

theorem reshape_self : t.reshape t.shape = .ok t :=
  reshape_eq_ok_iff.mpr ⟨rfl, rfl, rfl⟩

/-- The number of bytes is a word. -/
def Addressable (t : Tensor) : Prop :=
  t.data.length < Unsigned.bound

instance (t : Tensor) : Decidable t.Addressable :=
  inferInstanceAs (Decidable (t.data.length < Unsigned.bound))

theorem Stored.addressable (h : t.Stored) : t.Addressable :=
  Unsigned.product?_lt (by cases t.dtype <;> decide) (stored_iff.mp h).2

/-- There are elements, and the number of bytes is a word. -/
structure Compact (t : Tensor) : Prop where
  positive : 0 < t.shape.size
  bytes : t.dtype.size * t.shape.size < Unsigned.bound

namespace Compact

theorem of_addressable (addressable : t.Addressable) (extents : 0 ∉ t.shape) : t.Compact where
  positive := Shape.size_pos_iff.mpr fun _ member => Nat.pos_of_ne_zero fun zero =>
    extents (zero ▸ member)
  bytes := t.length_data ▸ addressable

theorem of_stored (stored : t.Stored) (extents : 0 ∉ t.shape) : t.Compact :=
  of_addressable stored.addressable extents

/-- Extents of a tensor that has elements are no larger than the number of its bytes. -/
theorem stored (h : t.Compact) : t.Stored := by
  obtain ⟨n, product⟩ :=
    Option.isSome_iff_exists.mp (Unsigned.isSome_product? h.positive h.bytes)
  refine stored_iff.mpr ⟨fun extent member => ?_, ?_⟩
  · calc extent
      _ ≤ t.shape.size := Shape.le_size h.positive member
      _ ≤ t.dtype.size * t.shape.size := Nat.le_mul_of_pos_left _ t.dtype.size_pos
      _ < Unsigned.bound := h.bytes
  · rw [product, Unsigned.product?_eq_some product, t.length_data]

theorem reshape (h : t.Compact) (laid : t.reshape shape = .ok u) : u.Compact := by
  have sizes := size_of_reshape laid
  obtain ⟨dtype, same, -⟩ := reshape_eq_ok_iff.mp laid
  exact ⟨by rw [same, sizes]; exact h.positive, by rw [dtype, same, sizes]; exact h.bytes⟩

/-- The extents of a single precision tensor that has elements are known. -/
theorem known (h : t.Compact) (single : t.dtype = .f32) : t.Known := by
  refine List.map_congr_left fun n member => ?_
  have bytes := h.bytes
  rw [single] at bytes
  have extent := Shape.le_size h.positive member
  refine Signed.ofUnsigned_of_inRange ?_
  simp only [DType.size, Unsigned.bound] at bytes
  simp only [Signed.InRange, Signed.least, Signed.greatest]
  omega

end Compact

/-- The tensor of as many numbers under another shape. -/
theorem ofFloats_of_reshape {shape' : Shape} {xs : List UInt32} (h : ofFloats shape xs = .ok t)
    (compact : t.Compact) (laid : t.reshape shape' = .ok u) : ofFloats shape' xs = .ok u := by
  obtain ⟨⟨-, count⟩, single, rfl, numbers⟩ := ofFloats_eq_ok_iff.mp h
  obtain ⟨dtype, rfl, -⟩ := reshape_eq_ok_iff.mp laid
  have laidCompact := compact.reshape laid
  have fits : 4 * u.shape.size < Unsigned.bound := by
    have bytes := laidCompact.bytes
    rwa [dtype, single] at bytes
  refine ofFloats_eq_ok_iff.mpr ⟨⟨Unsigned.isSome_product? laidCompact.positive fits, ?_⟩,
    dtype.trans single, rfl, (patterns_of_reshape laid).trans numbers⟩
  rw [count, size_of_reshape laid]

theorem exists_reshape (sizes : shape.size = t.shape.size) : ∃ u, t.reshape shape = .ok u := by
  rw [reshape, dif_pos sizes]
  exact ⟨_, rfl⟩

/-- A reshape lays a tensor of known extents out under the shape that fills the target. -/
theorem reshape_of_fills {target : Dims} (known : t.Known)
    (fills : Shape.Fills t.shape 0 target shape) (sizes : shape.size = t.shape.size)
    (h : t.reshaped (some target) = .ok u) : t.reshape shape = .ok u := by
  obtain ⟨dtype, data, dims, reshapes, concrete⟩ := reshaped_eq_ok_iff.mp h
  rw [known] at reshapes
  obtain rfl := reshapes.eq_of_fills sizes fills
  have same := Dims.toDims_injective (Dims.toShape?_eq_some_iff.mp concrete)
  exact reshape_eq_ok_iff.mpr ⟨dtype, same.symm, data⟩

end Tensor

end TensorEngine
