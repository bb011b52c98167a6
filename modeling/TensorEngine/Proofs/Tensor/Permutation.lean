import Mathlib.Data.List.Nodup
import TensorEngine.Proofs.Tensor.Cells

/-!
# Permutations act on tensors

An order that names every axis once moves the elements of a tensor to the multi-indices whose entries
are in this order, and every other order is refused. Moving twice is moving by the composed order, in
which axis `k` of the second result is the axis of the tensor that the first order names at the place
that the second one names. The order that names the places of the axes leads back.

## Main results

* `IsPermutation.exists_inverse`: the order that leads back
* `Tensor.Permuted.trans`, `Tensor.permute_permute`: moving twice
* `Tensor.permute_range`, `Tensor.permute_back`: the order that moves nothing, and the way back
* `Tensor.permutations_act_on_tensors`: which orders are accepted, and what they do
-/

namespace TensorEngine

/-! ### Orders -/

section Orders

variable {order p q r : List Nat} {rank : Nat}

theorem isPermutation_iff_perm : IsPermutation order rank ↔ order.Perm (List.range rank) := by
  constructor
  · exact IsPermutation.perm_range
  · intro perm
    exact ⟨by rw [perm.length_eq, List.length_range],
      fun axis member => List.mem_range.mp (perm.mem_iff.mp member),
      perm.nodup_iff.mpr List.nodup_range⟩

/-- The composition of two permutations is one. -/
theorem IsPermutation.compose (first : IsPermutation p rank) (second : IsPermutation q rank)
    (composed : Arranged q p r) : IsPermutation r rank := by
  apply isPermutation_iff_perm.mpr
  exact (composed.perm (first.1.symm ▸ second)).trans first.perm_range

/-- If the composition with an order is a permutation, then so is the order. -/
theorem IsPermutation.of_compose (first : IsPermutation p rank) (both : IsPermutation r rank)
    (composed : Arranged q p r) : IsPermutation q rank := by
  have entries : r = q.map fun place => p.getD place default := composed.eq_map
  refine ⟨?_, ?_, ?_⟩
  · rw [← both.1, composed.length_eq]
  · intro place member
    obtain ⟨axis, -, found⟩ := forall₂_mem_left composed member
    rw [← first.1]
    exact (List.getElem?_eq_some_iff.mp found).1
  · have distinct := both.2.2
    rw [entries] at distinct
    exact distinct.of_map _

/-- A permutation names each axis at the place that another one names for the axis. -/
theorem IsPermutation.exists_inverse (permutation : IsPermutation p rank) :
    ∃ q, Arranged q p (List.range rank) ∧ Arranged p q (List.range rank) := by
  obtain ⟨length, below, distinct⟩ := permutation
  have listed : ∀ axis < rank, axis ∈ p := fun axis h =>
    (IsPermutation.perm_range ⟨length, below, distinct⟩).mem_iff.mpr (List.mem_range.mpr h)
  refine ⟨(List.range rank).map p.idxOf, ?_, ?_⟩
  · unfold Arranged
    rw [List.forall₂_map_left_iff, List.forall₂_same]
    intro axis member
    have place := List.idxOf_lt_length_of_mem (listed axis (List.mem_range.mp member))
    rw [List.getElem?_eq_getElem place, List.getElem_idxOf place]
  · refine List.forall₂_iff_get.mpr ⟨by simp [length], fun k h h' => ?_⟩
    have axis_lt := below _ (List.getElem_mem h)
    simp [List.getElem?_range axis_lt, distinct.idxOf_getElem k h]

end Orders

namespace Arranged

variable {α : Type} {p q r : List Nat} {xs ys zs : List α}

/-- Arranging twice is arranging by the composed order. -/
theorem trans (first : Arranged p xs ys) (second : Arranged q ys zs) (composed : Arranged q p r) :
    Arranged r xs zs :=
  Arranged.forall₂ first composed second

theorem range_self (xs : List α) : Arranged (List.range xs.length) xs xs := by
  simpa using arranged_range xs []

/-- What is arranged by a permutation comes from one list only. -/
theorem source_unique (permutation : IsPermutation p xs.length) (length : xs.length = ys.length)
    (h : Arranged p xs zs) (h' : Arranged p ys zs) : xs = ys :=
  List.forall₂_eq_eq_eq ▸ Arranged.forall₂_of permutation length h h' (List.forall₂_refl zs)

end Arranged

/-! ### Tensors -/

namespace Tensor

variable {t u v : Tensor} {p q r : List Nat}

theorem exists_cellAt {idx : List Nat} (within : Shape.Within idx t.shape) :
    ∃ cell, t.cellAt? idx = some cell := by
  have inside : t.shape.offset idx < t.cells.length := by
    rw [length_cells]
    exact Shape.offset_lt within
  exact ⟨_, List.getElem?_eq_getElem inside⟩

theorem Permuted.rank_eq (permutation : IsPermutation p t.rank) (h : Permuted p t u) :
    u.rank = t.rank := by
  rw [rank, Shape.rank, h.shape.length_eq, permutation.1]

/-- The element at a multi-index comes from one multi-index, and has not changed. -/
theorem Permuted.exists_source (permutation : IsPermutation p t.rank) (h : Permuted p t u)
    {idx : List Nat} (within : Shape.Within idx u.shape) :
    ∃ source, (∀ other, other.length = t.rank ∧ Arranged p other idx ↔ other = source) ∧
      Shape.Within source t.shape ∧ ∃ cell, u.cellAt? idx = some cell ∧ t.cellAt? source = some cell := by
  have length : idx.length = t.rank := by
    rw [List.Forall₂.length_eq within, ← h.rank_eq permutation, rank]
  obtain ⟨source, count, arranged⟩ := Arranged.exists_source permutation length
  have inside : Shape.Within source t.shape :=
    Arranged.forall₂_of (count ▸ permutation) count arranged h.shape within
  obtain ⟨cell, found⟩ := exists_cellAt inside
  refine ⟨source, ?_, inside, cell, (h.cells source idx inside arranged).trans found, found⟩
  intro other
  constructor
  · rintro ⟨count', arranged'⟩
    exact Arranged.source_unique (count' ▸ permutation) (count'.trans count.symm) arranged' arranged
  · rintro rfl
    exact ⟨count, arranged⟩

/-- Tensors that are permuted twice are permuted by the composed order. -/
theorem Permuted.trans (permutation : IsPermutation p t.rank) (first : Permuted p t u)
    (permutation' : IsPermutation q t.rank) (second : Permuted q u v) (composed : Arranged q p r) :
    Permuted r t v where
  dtype := second.dtype.trans first.dtype
  shape := first.shape.trans second.shape composed
  cells := by
    intro source target inside arranged
    have length : source.length = t.rank := List.Forall₂.length_eq inside
    -- The multi-index in between.
    obtain ⟨middle, arranged₁⟩ : ∃ middle, Arranged p source middle :=
      Arranged.exists_of_lt (length ▸ permutation.2.1)
    obtain ⟨target', arranged₂⟩ : ∃ target', Arranged q middle target' := by
      apply Arranged.exists_of_lt
      rw [arranged₁.length_eq, permutation.1]
      exact permutation'.2.1
    obtain rfl : target' = target := (arranged₁.trans arranged₂ composed).unique arranged
    have inside₁ : Shape.Within middle u.shape := arranged₁.forall₂ inside first.shape
    rw [second.cells middle target' inside₁ arranged₂, first.cells source middle inside arranged₁]

/-- An order that follows another one does what the composed order does. -/
theorem permute_permute (moved : t.permute p = .ok u) (composed : Arranged q p r) :
    u.permute q = .ok v ↔ t.permute r = .ok v := by
  obtain ⟨permutation, first⟩ := permute_eq_ok_iff.mp moved
  have ranks := first.rank_eq permutation
  have forward : ∀ w, u.permute q = .ok w → t.permute r = .ok w := by
    intro w again
    obtain ⟨permutation', second⟩ := permute_eq_ok_iff.mp again
    rw [ranks] at permutation'
    apply permute_eq_ok_iff.mpr
    exact ⟨permutation.compose permutation' composed,
      first.trans permutation permutation' second composed⟩
  constructor
  · exact forward v
  · intro once
    -- The second order is a permutation as well, so it leads somewhere, and there is no choice.
    have both := (permute_eq_ok_iff.mp once).1
    obtain ⟨w, again, -⟩ := exists_permuted (t := u) (ranks ▸ permutation.of_compose both composed)
    have same := (forward w again).symm.trans once
    rw [again, same]

/-- The axes in their order are the tensor itself. -/
theorem permute_range (t : Tensor) : t.permute (List.range t.rank) = .ok t := by
  apply permute_eq_ok_iff.mpr
  refine ⟨isPermutation_iff_perm.mpr (List.Perm.refl _), rfl, Arranged.range_self t.shape, ?_⟩
  intro source idx inside arranged
  have length : source.length = t.rank := List.Forall₂.length_eq inside
  rw [← length] at arranged
  rw [arranged.unique (Arranged.range_self source)]

/-- An order that leads every axis back to its place gives back the tensor. -/
theorem permute_back (moved : t.permute p = .ok u) (back : Arranged q p (List.range t.rank)) :
    u.permute q = .ok t :=
  (permute_permute moved back).mpr (permute_range t)

/-- An order is accepted exactly if it lists each axis once, and refused otherwise. Axis `k` of
the result is axis `p[k]` of the tensor, and the element at a multi-index is that of the tensor at the
one multi-index whose entry for axis `p[k]` is entry `k`. The order of the axes moves nothing, moving by
`q` after `p` is moving by `p[q[k]]`, and there is an inverse order, which gives back the tensor. -/
theorem permutations_act_on_tensors (t : Tensor) (p : List Nat) :
    ((∃ u, t.permute p = .ok u) ↔ p.Perm (List.range t.rank)) ∧
      (¬ p.Perm (List.range t.rank) → t.permute p = .error (.permutation p t.rank)) ∧
      t.permute (List.range t.rank) = .ok t ∧
      ∀ u, t.permute p = .ok u →
        u.dtype = t.dtype ∧ Arranged p t.shape u.shape ∧
        (∀ idx, Shape.Within idx u.shape → ∃ source,
          (∀ other, other.length = t.rank ∧ Arranged p other idx ↔ other = source) ∧
            Shape.Within source t.shape ∧
            ∃ cell, u.cellAt? idx = some cell ∧ t.cellAt? source = some cell) ∧
        (∀ q r v, Arranged q p r → (u.permute q = .ok v ↔ t.permute r = .ok v)) ∧
        (∃ q, Arranged q p (List.range t.rank) ∧ Arranged p q (List.range t.rank)) ∧
        ∀ q, Arranged q p (List.range t.rank) → u.permute q = .ok t := by
  refine ⟨?_, ?_, permute_range t, ?_⟩
  · rw [← isPermutation_iff_perm]
    constructor
    · intro ⟨u, moved⟩
      exact (permute_eq_ok_iff.mp moved).1
    · intro permutation
      obtain ⟨u, moved, -⟩ := exists_permuted permutation
      exact ⟨u, moved⟩
  · intro other
    rw [permute, if_neg (mt isPermutation_iff_perm.mp other)]
    rfl
  · intro u moved
    obtain ⟨permutation, permuted⟩ := permute_eq_ok_iff.mp moved
    exact ⟨permuted.dtype, permuted.shape, fun idx => permuted.exists_source permutation,
      fun q r v => permute_permute moved, permutation.exists_inverse, fun q => permute_back moved⟩

/-- A cube of bytes turned twice: moving by `[2, 0, 1]` twice is moving by `[1, 2, 0]`. -/
example : (permute ⟨.u8, [1, 2, 3], [0, 1, 2, 3, 4, 5], rfl⟩ [2, 0, 1] >>= (permute · [2, 0, 1])) =
    permute ⟨.u8, [1, 2, 3], [0, 1, 2, 3, 4, 5], rfl⟩ [1, 2, 0] := by
  decide

end Tensor

end TensorEngine
