import TensorEngine.Proofs.Network.Inference

/-!
# Shuffles keep the number of elements

A shuffle of known dimensions multiplies extents in two places, from left to right and in signed
words, and may divide one product by the other. Whether such a product fits depends on the order of
the extents, of which one may be zero, and not only on its value. So it has to be argued that a
shuffle which is accepted has counted exactly: the two permutations do not change the product, and
between them the count of the result is compared with the exact one or made equal to it.

## Main definitions

* `Signed.Multiplies`: lists whose products of leading factors all fit
* `CompletesExactly`: a reshape of known dimensions, by exact products

## Main results

* `Signed.product?_eq_some_iff`, `Dims.volume_eq_some_iff`: which products are computed
* `completes_iff_exactly`: what completes a reshape of known dimensions
* `shuffle_keeps_count`: shuffled known dimensions are known and have the same product
-/

namespace TensorEngine

/-! ### Products within signed words -/

namespace Signed

/-- Every product of leading factors fits in a signed word. -/
def Multiplies (factors : List Int) : Prop :=
  ∀ k, InRange (factors.take k).prod

/-- Multiplication from left to right succeeds when every intermediate product fits, and is exact. -/
theorem foldlM_mul?_eq_some_iff {start p : Int} {factors : List Int} (range : InRange start) :
    factors.foldlM mul? start = some p ↔
      (∀ k, InRange (start * (factors.take k).prod)) ∧ start * factors.prod = p := by
  induction factors generalizing start with
  | nil => simp [range]
  | cons factor factors ih =>
    rw [foldlM_mul?_cons, List.prod_cons, ← mul_assoc]
    constructor
    · rintro ⟨next, rest⟩
      obtain ⟨later, exact⟩ := (ih next).mp rest
      refine ⟨fun k => ?_, exact⟩
      cases k with
      | zero => simpa using range
      | succ k => simpa [mul_assoc] using later k
    · rintro ⟨all, exact⟩
      have next : InRange (start * factor) := by simpa using all 1
      refine ⟨next, (ih next).mpr ⟨fun k => ?_, exact⟩⟩
      simpa [mul_assoc] using all (k + 1)

theorem product?_eq_some_iff {factors : List Int} {p : Int} :
    product? factors = some p ↔ Multiplies factors ∧ factors.prod = p := by
  have one : InRange 1 := by decide
  rw [product?, foldlM_mul?_eq_some_iff one]
  simp only [one_mul, Multiplies]

end Signed

theorem Dims.volume_eq_some_iff {dims : Dims} {total : Int} :
    dims.volume = some total ↔ dims.isStatic ∧ Signed.Multiplies dims ∧ dims.prod = total := by
  unfold volume
  split
  next static => simp [static, Signed.product?_eq_some_iff]
  next unknown => simp [unknown]

/-! ### Exact counts -/

/-- How a reshape of known dimensions is completed, by exact products. Without an extent to infer
the two products are the same. An inferred extent is a quotient of products: the divisor is positive
and divides without remainder. -/
inductive CompletesExactly (source copied : Dims) : (place? : Option Nat) → (out : Dims) → Prop
  | compared (total : Signed.Multiplies source) (others : Signed.Multiplies copied)
      (same : copied.prod = source.prod) : CompletesExactly source copied none copied
  | divided (place : Nat) (extent : Int) (total : Signed.Multiplies source)
      (others : Signed.Multiplies (copied.eraseIdx place))
      (positive : 0 < (copied.eraseIdx place).prod)
      (quotient : source.prod = (copied.eraseIdx place).prod * extent)
      (range : Signed.InRange extent) :
      CompletesExactly source copied (some place) (copied.set place extent)

/-- A reshape of known dimensions is completed by exact products. -/
theorem completes_iff_exactly {source target copied out : Dims} {place? : Option Nat}
    (static : source.isStatic) (copies : Copies source 0 place? target copied) :
    Completes source copied place? out ↔ CompletesExactly source copied place? out := by
  constructor
  · rintro (⟨_, unknown⟩ | ⟨place, _, _, unknown⟩ |
      ⟨place, total, known, extent, volume, others, product, nonzero, counts, range⟩ |
      ⟨total, volume, counts⟩)
    · exact absurd static (by simp [unknown])
    · exact absurd (copies.isStatic_eraseIdx static) (by simp [unknown])
    · obtain ⟨-, multiplies, rfl⟩ := Dims.volume_eq_some_iff.mp volume
      obtain ⟨multiplies', rfl⟩ := Signed.product?_eq_some_iff.mp product
      have nonneg := Dims.prod_nonneg others
      have positive : 0 < (copied.eraseIdx place).prod := by omega
      exact .divided place extent multiplies multiplies' positive counts range
    · obtain ⟨-, multiplies, rfl⟩ := Dims.volume_eq_some_iff.mp volume
      obtain ⟨-, multiplies', same⟩ := Dims.volume_eq_some_iff.mp (counts (copies.isStatic static))
      exact .compared multiplies multiplies' same
  · rintro (⟨multiplies, multiplies', same⟩ |
      ⟨place, extent, multiplies, multiplies', positive, counts, range⟩)
    · exact .compared _ (Dims.volume_eq_some_iff.mpr ⟨static, multiplies, rfl⟩) fun known =>
        Dims.volume_eq_some_iff.mpr ⟨known, multiplies', same⟩
    · exact .divided place _ _ extent (Dims.volume_eq_some_iff.mpr ⟨static, multiplies, rfl⟩)
        (copies.isStatic_eraseIdx static) (Signed.product?_eq_some_iff.mpr ⟨multiplies', rfl⟩)
        (Int.ne_of_gt positive) counts range

/-- A shuffle of known dimensions that is accepted has known dimensions with the same product. What
it has multiplied and divided on the way is exact. -/
theorem shuffle_keeps_count {dims out : Dims} {spec : ShuffleSpec} (known : ∀ d ∈ dims, 0 ≤ d)
    (h : inferShuffle dims spec = .ok out) :
    (∀ d ∈ out, 0 ≤ d) ∧ out.prod = dims.prod ∧
      ∀ target ∈ spec.reshape, ∃ first copied place? second,
        transposeDims dims spec.firstTranspose = .ok first ∧
        copyExtents first 0 none target = .ok (copied, place?) ∧
        CompletesExactly first copied place? second ∧
        transposeDims second spec.secondTranspose = .ok out := by
  obtain ⟨first, second, moved, reshapes, moved'⟩ := inferShuffle_eq_ok_iff.mp h
  have static : Dims.isStatic first := moved.isStatic (Dims.isStatic_iff.mpr known)
  obtain ⟨static', counts⟩ := reshapes.prod_eq static
  refine ⟨Dims.isStatic_iff.mp (moved'.isStatic static'), ?_, ?_⟩
  · calc out.prod = second.prod := moved'.perm.prod_eq
      _ = first.prod := counts
      _ = dims.prod := moved.perm.prod_eq
  · intro target asked
    rw [Option.mem_def.mp asked] at reshapes
    obtain ⟨copied, place?, copies, completes⟩ := reshapes
    exact ⟨first, copied, place?, second, Transposes.iff_transposeDims.mp moved,
      Copies.iff_copyExtents.mp copies, (completes_iff_exactly static copies).mp completes,
      Transposes.iff_transposeDims.mp moved'⟩

/-- The last axis is moved to the front, the other two are joined, and the two axes are exchanged. -/
theorem shuffle_keeps_count_joined :
    inferShuffle [2, 3, 4] ⟨some [2, 0, 1], some [0, -1], some [1, 0]⟩ = .ok [6, 4] ∧
      List.prod [6, 4] = List.prod [2, 3, (4 : Int)] := by
  have accepted :
      inferShuffle [2, 3, 4] ⟨some [2, 0, 1], some [0, -1], some [1, 0]⟩ = .ok [6, 4] := by rfl
  exact ⟨accepted, (shuffle_keeps_count (by decide) accepted).2.1⟩

/-- The same extents in another order may be refused, as zero comes too late. -/
example : inferShuffle [0, 0x10000000000, 0x10000000000] (.reshaping [0, 5]) = .ok [0, 5] ∧
    inferShuffle [0x10000000000, 0x10000000000, 0] (.reshaping [5, 0]) =
      .error (.reshape [0x10000000000, 0x10000000000, 0] [5, 0] .countOverflows) := by
  constructor <;> rfl

end TensorEngine
