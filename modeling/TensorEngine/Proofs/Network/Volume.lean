import Mathlib.Algebra.BigOperators.Ring.List
import Mathlib.Data.List.TakeWhile
import TensorEngine.Proofs.Network.Counts

/-!
# Volumes

The number of elements is a product of extents that is computed from left to right, in signed words.
As long as no extent is zero, the partial products only increase, and the last one decides whether the
number fits. A zero makes the number fit in any case, and all that comes behind it; but it comes too
late if the extents in front of it have a product that does not fit. So the volume is exact wherever
there is one, and whether there is one depends on the order of the extents if one of them is zero.

## Main definitions

* `Dims.leading`: the extents in front of the first zero

## Main results

* `Dims.volume_is_counted_iff`: which dimensions have a volume, and what another order makes of it
* `late_zero_is_not_counted`: an order in which a zero comes too late
-/

namespace TensorEngine

/-! ### Products of extents that are known -/

/-- The extents in front of the first zero. -/
def Dims.leading (dims : Dims) : Dims :=
  dims.takeWhile (· != 0)

namespace Dims

variable {dims others : Dims} {d n : Int}

@[simp]
theorem leading_zero_cons (dims : Dims) : leading (0 :: dims) = [] := by
  simp [leading]

theorem leading_cons (nonzero : d ≠ 0) (dims : Dims) : leading (d :: dims) = d :: leading dims := by
  simp [leading, nonzero]

theorem leading_eq_self (zero : 0 ∉ dims) : dims.leading = dims := by
  refine List.takeWhile_eq_self_iff.mpr fun d member => ?_
  rw [bne_iff_ne]
  exact fun same => zero (same ▸ member)

/-- Extents in front of a zero are positive, and so is their product. -/
theorem leading_prod_pos (static : ∀ d ∈ dims, 0 ≤ d) : 0 < dims.leading.prod := by
  induction dims with
  | nil => decide
  | cons d dims ih =>
    obtain ⟨nonneg, static⟩ := List.forall_mem_cons.mp static
    by_cases zero : d = 0
    · subst zero
      simp
    · rw [leading_cons zero, List.prod_cons]
      exact Int.mul_pos (by omega) (ih static)

end Dims

/-- Multiplication of extents from left to right succeeds when the product up to the first zero fits,
and is exact. -/
theorem Signed.foldlM_mul?_eq_some_iff_of_nonneg {start p : Int} {dims : Dims} (first : 0 ≤ start)
    (static : ∀ d ∈ dims, 0 ≤ d) (fits : start ≤ greatest) :
    dims.foldlM mul? start = some p ↔
      start * dims.leading.prod ≤ greatest ∧ start * dims.prod = p := by
  induction dims generalizing start with
  | nil => simp [Dims.leading, fits]
  | cons d dims ih =>
    obtain ⟨nonneg, later⟩ := List.forall_mem_cons.mp static
    have product := Int.mul_nonneg first nonneg
    have inRange : InRange (start * d) ↔ start * d ≤ greatest :=
      and_iff_right (Int.le_trans (by decide) product)
    rw [foldlM_mul?_cons, inRange, List.prod_cons, ← mul_assoc]
    by_cases zero : d = 0
    · -- From here on every product is zero.
      subst zero
      rw [mul_zero, ih (Int.le_refl 0) later (by decide)]
      simp [fits]
    · rw [Dims.leading_cons zero, List.prod_cons, ← mul_assoc]
      constructor
      · rintro ⟨range, rest⟩
        exact (ih product later range).mp rest
      · rintro ⟨atMost, exact⟩
        -- The factors that follow are positive, so that the product is at most the last one.
        have range : start * d ≤ greatest :=
          calc start * d = start * d * 1 := (mul_one _).symm
            _ ≤ start * d * (Dims.leading dims).prod :=
              Int.mul_le_mul_of_nonneg_left (Dims.leading_prod_pos later) product
            _ ≤ greatest := atMost
        exact ⟨range, (ih product later range).mpr ⟨atMost, exact⟩⟩

namespace Dims

variable {dims others : Dims} {n : Int}

theorem volume_eq_some_iff_leading : dims.volume = some n ↔
    (∀ d ∈ dims, 0 ≤ d) ∧ dims.leading.prod ≤ Signed.greatest ∧ dims.prod = n := by
  unfold volume
  split
  next static =>
    have static := isStatic_iff.mp static
    rw [Signed.product?, Signed.foldlM_mul?_eq_some_iff_of_nonneg (by decide) static (by decide)]
    simp only [one_mul]
    exact (and_iff_right static).symm
  next unknown => simp [mt isStatic_iff.mpr unknown]

/-- Dimensions without a zero have a volume if their product fits. -/
theorem volume_eq_some_iff_of_zero_notMem (zero : 0 ∉ dims) : dims.volume = some n ↔
    (∀ d ∈ dims, 0 ≤ d) ∧ dims.prod ≤ Signed.greatest ∧ dims.prod = n := by
  rw [volume_eq_some_iff_leading, leading_eq_self zero]

theorem volume_eq_of_perm (zero : 0 ∉ dims) (perm : others.Perm dims) :
    others.volume = dims.volume := by
  have zero' : 0 ∉ others := mt perm.mem_iff.mp zero
  ext n
  rw [volume_eq_some_iff_of_zero_notMem zero, volume_eq_some_iff_of_zero_notMem zero',
    perm.prod_eq]
  simp only [perm.mem_iff]

/-- With a zero, there is no volume but zero. -/
theorem volume_of_zero_mem (zero : 0 ∈ dims) : dims.volume = none ∨ dims.volume = some 0 := by
  rcases counted : dims.volume with _ | n
  · exact .inl rfl
  · exact .inr (congrArg some ((volume_eq_some counted).trans (List.prod_eq_zero zero)))

/-- Dimensions have a volume exactly if all extents are known and those in front of the first zero have
a product that fits, and the volume is the exact product of all extents. Without a zero, this is to say
that the product fits. In another order, dimensions without a zero have the same volume, also if it is a
shuffle that reorders them; with a zero they may have none where the others have the volume zero. -/
theorem volume_is_counted_iff (dims : Dims) :
    (∀ n, dims.volume = some n ↔
      (∀ d ∈ dims, 0 ≤ d) ∧ dims.leading.prod ≤ Signed.greatest ∧ dims.prod = n) ∧
      (0 ∉ dims → ∀ n, dims.volume = some n ↔
        (∀ d ∈ dims, 0 ≤ d) ∧ dims.prod ≤ Signed.greatest ∧ dims.prod = n) ∧
      (∀ others : Dims, others.Perm dims → others.volume ≠ dims.volume →
        0 ∈ dims ∧ (others.volume = none ∧ dims.volume = some 0 ∨
          others.volume = some 0 ∧ dims.volume = none)) ∧
      ∀ order? (moved : Dims), transposeDims dims order? = .ok moved → 0 ∉ dims →
        moved.volume = dims.volume := by
  refine ⟨fun n => volume_eq_some_iff_leading,
    fun zero n => volume_eq_some_iff_of_zero_notMem zero, ?_, ?_⟩
  · intro others perm differ
    have zero : 0 ∈ dims := by
      by_contra zero
      exact differ (volume_eq_of_perm zero perm)
    refine ⟨zero, ?_⟩
    rcases volume_of_zero_mem (perm.mem_iff.mpr zero) with here | here <;>
      rcases volume_of_zero_mem zero with there | there <;> simp_all
  · intro order? moved transposed zero
    exact volume_eq_of_perm zero (Transposes.iff_transposeDims.mpr transposed).perm

/-- Without a zero, the rotated extents have the same volume. -/
theorem volume_is_counted_iff_rotated : 0 ∉ ([2, 3, 4] : Dims) ∧
    transposeDims [2, 3, 4] (some [2, 0, 1]) = .ok [4, 2, 3] ∧
    volume [4, 2, 3] = volume [2, 3, 4] ∧ volume [2, 3, 4] = some 24 := by
  have zero : 0 ∉ ([2, 3, 4] : Dims) := by decide
  have rotated : transposeDims [2, 3, 4] (some [2, 0, 1]) = .ok [4, 2, 3] := by rfl
  obtain ⟨-, counts, -, moves⟩ := volume_is_counted_iff [2, 3, 4]
  exact ⟨zero, rotated, moves _ _ rotated zero, (counts zero 24).mpr (by decide)⟩

end Dims

/-- A quarter of all words, four and zero: all extents are known, and there are no elements. From left
to right the count leaves the words before the zero is reached, and there is no volume. With the zero in
front there is one, and a shuffle that moves the zero there can join the axes, which a reshape alone
cannot. -/
theorem late_zero_is_not_counted :
    let dims : Dims := [2 ^ 62, 4, 0]
    let moved : Dims := [0, 2 ^ 62, 4]
    dims.InWords ∧ (∀ d ∈ dims, 0 ≤ d) ∧ dims.prod = 0 ∧ dims.prod ≤ Signed.greatest ∧
      dims.volume = none ∧ moved.Perm dims ∧ moved.volume = some 0 ∧
      inferShuffle dims (.reshaping [-1]) = .error (.reshape dims [-1] .countOverflows) ∧
      inferShuffle dims ⟨some [2, 0, 1], some [-1], none⟩ = .ok [0] := by
  intro dims moved
  refine ⟨by decide, by decide, by decide, by decide, by decide, by decide, by decide, ?_, ?_⟩
  · rfl
  · rfl

end TensorEngine
