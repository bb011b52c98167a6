import TensorEngine.Proofs.Execution.Twins
import TensorEngine.Proofs.Lowering.Joining

/-!
# Reshapes that succeed

A target that a shape fills leaves at most one extent to be inferred. Where the extents of the source
are known, none of them is zero and their product fits, such a target is accepted and means the shape,
both for recorded dimensions and for a tensor.

## Main results

* `Shape.Fills.reshapes`: the target is accepted for recorded dimensions
* `Tensor.shuffle_of_fills`: the target is accepted for a tensor
-/

namespace TensorEngine

namespace Copies

variable {source target dims : Dims} {place : Nat} {place? : Option Nat}

/-- At most one entry is left to be inferred. -/
theorem count_inferred (h : Copies source place place? target dims) :
    target.count (-1) ≤ 1 ∧ (place? = none → target.count (-1) = 0) := by
  induction h with
  | nil => simp
  | copied _ _ ih => simpa using ih
  | inferred _ ih => simp [ih.2 rfl]
  | fixed positive _ ih =>
    rw [List.count_cons_of_ne (by omega)]
    exact ih

end Copies

theorem Reshapes.count_inferred {source target out : Dims} (h : Reshapes (some target) source out) :
    target.count (-1) ≤ 1 := by
  obtain ⟨_, _, copies, -⟩ := h
  exact copies.count_inferred.1

namespace Shape.Fills

variable {source shape : Shape} {place : Nat} {target : Dims}

/-- The copies that a target asks for can be made if a shape fills it. -/
theorem exists_copies (h : Fills source place target shape) (once : target.count (-1) ≤ 1) :
    ∃ place? copied, Copies source.toDims place place? target copied ∧
      (target.count (-1) = 0 → place? = none) := by
  induction h with
  | nil => exact ⟨none, [], .nil, fun _ => rfl⟩
  | copied entry _ ih =>
    rw [List.count_cons_of_ne (by decide)] at once ⊢
    obtain ⟨place?, copied, copies, absent⟩ := ih once
    exact ⟨place?, _, .copied (by rw [toDims, List.getElem?_map, entry]; rfl) copies, absent⟩
  | inferred _ ih =>
    rw [List.count_cons_self] at once ⊢
    obtain ⟨place?, copied, copies, absent⟩ := ih (by omega)
    obtain rfl := absent (by omega)
    exact ⟨_, _, .inferred copies, by omega⟩
  | @fixed place n target shape positive _ ih =>
    rw [List.count_cons_of_ne (by omega)] at once ⊢
    obtain ⟨place?, copied, copies, absent⟩ := ih once
    exact ⟨place?, _, .fixed (by exact_mod_cast positive) copies, absent⟩

/-- A target that a shape of as many elements fills is accepted and means the shape. -/
theorem reshapes (h : Fills source 0 target shape) (once : target.count (-1) ≤ 1)
    (sizes : shape.size = source.size) (positive : ∀ n ∈ source, 0 < n)
    (fits : (source.size : Int) ≤ Signed.greatest) :
    Reshapes (some target) source.toDims shape.toDims := by
  have volume := volume_toDims positive fits
  have positive' : ∀ n ∈ shape, 0 < n := by
    rw [← size_pos_iff, sizes, size_pos_iff]
    exact positive
  obtain ⟨place?, copied, copies, -⟩ := h.exists_copies once
  refine ⟨copied, place?, copies, ?_⟩
  rcases h.of_copies copies with ⟨rfl, rfl⟩ | ⟨k, n, rfl, entry, set, erased⟩
  · exact .compared _ volume fun _ => sizes ▸ volume_toDims positive' (sizes ▸ fits)
  · have within := (List.getElem?_eq_some_iff.mp entry).1
    have here := (List.getElem?_eq_some_iff.mp entry).2
    -- The other extents times the one that is inferred are the number of elements.
    have others : n * size (shape.eraseIdx k) = source.size := by
      rw [← sizes, size_eq_prod, size_eq_prod, ← (List.getElem_cons_eraseIdx_perm within).prod_eq,
        List.prod_cons, here]
    have others_pos : ∀ m ∈ shape.eraseIdx k, 0 < m :=
      fun m member => positive' m (List.mem_of_mem_eraseIdx member)
    have below := Nat.le_mul_of_pos_left (size (shape.eraseIdx k))
      (positive' n (List.mem_of_getElem? entry))
    have below' := Nat.le_mul_of_pos_right n (size_pos_iff.mpr others_pos)
    have erased' : copied.eraseIdx k = toDims (shape.eraseIdx k) := by
      rw [erased, toDims, toDims, List.eraseIdx_map]
    rw [← set, Nat.zero_add]
    refine .divided k _ (size (shape.eraseIdx k)) n volume ?_ ?_ ?_ ?_ ?_
    · rw [erased']
      exact Dims.isStatic_toDims _
    · rw [erased']
      exact product?_toDims others_pos (by omega)
    · have := size_pos_iff.mpr others_pos
      omega
    · rw [← others, Int.mul_comm]
      exact Int.natCast_mul _ _
    · simp only [Signed.InRange, Signed.least]
      omega

end Shape.Fills

namespace Tensor

variable {t : Tensor} {shape : Shape} {target : Dims}

theorem known_of_fits (positive : ∀ n ∈ t.shape, 0 < n)
    (fits : (t.shape.size : Int) ≤ Signed.greatest) : t.Known := by
  refine List.map_congr_left fun n member => Signed.ofUnsigned_of_inRange ?_
  have extent := Shape.le_size (Shape.size_pos_iff.mpr positive) member
  simp only [Signed.InRange, Signed.least]
  omega

/-- A reshape to a target that a shape of as many elements fills lays the tensor out under it. -/
theorem shuffle_of_fills (fills : Shape.Fills t.shape 0 target shape) (once : target.count (-1) ≤ 1)
    (sizes : shape.size = t.shape.size) (positive : ∀ n ∈ t.shape, 0 < n)
    (fits : (t.shape.size : Int) ≤ Signed.greatest) :
    ∃ u, t.shuffle (.reshaping target) = .ok u ∧ t.reshape shape = .ok u := by
  obtain ⟨u, laid⟩ := exists_reshape sizes
  obtain ⟨dtype, rfl, data⟩ := reshape_eq_ok_iff.mp laid
  have reshapes := fills.reshapes once sizes positive fits
  rw [← known_of_fits positive fits] at reshapes
  exact ⟨u, shuffle_reshaping.mpr (reshaped_eq_ok_iff.mpr
    ⟨dtype, data, _, reshapes, Dims.toShape?_eq_some_iff.mpr rfl⟩), laid⟩

end Tensor

end TensorEngine
