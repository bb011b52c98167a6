import TensorEngine.Proofs.Network.Reshape

/-!
# Shapes that fill a target

The target of a reshape of known extents, together with the number of elements, leaves one shape
only. A shape is therefore known to be the result once it agrees with the target entry by entry and
has the right number of elements, whatever place the target leaves to be inferred.

## Main definitions

* `Shape.Fills`: shapes that agree with a target

## Main results

* `Reshapes.eq_of_fills`: a shape that fills the target is the result
-/

namespace TensorEngine

namespace Shape

/-- The shape has the copied extents and the positive ones of a target, counting places from
`place`. -/
inductive Fills (source : Shape) : (place : Nat) → (target : Dims) → (shape : Shape) → Prop
  | nil {place : Nat} : Fills source place [] []
  | copied {place n : Nat} {target : Dims} {shape : Shape} (entry : source[place]? = some n)
      (rest : Fills source (place + 1) target shape) :
      Fills source place (0 :: target) (n :: shape)
  | inferred {place n : Nat} {target : Dims} {shape : Shape}
      (rest : Fills source (place + 1) target shape) :
      Fills source place (-1 :: target) (n :: shape)
  | fixed {place n : Nat} {target : Dims} {shape : Shape} (positive : 0 < n)
      (rest : Fills source (place + 1) target shape) :
      Fills source place (n :: target) (n :: shape)

namespace Fills

variable {source shape : Shape} {place : Nat} {target : Dims}

/-- What copying leaves of a target that a shape fills is the shape, but for the entry to infer. -/
theorem of_copies {place? : Option Nat} {copied : Dims} (h : Fills source place target shape)
    (copies : Copies source.toDims place place? target copied) :
    (place? = none ∧ copied = shape.toDims) ∨ ∃ k n, place? = some (place + k) ∧
      shape[k]? = some n ∧ copied.set k n = shape.toDims ∧
      copied.eraseIdx k = shape.toDims.eraseIdx k := by
  induction h generalizing place? copied with
  | nil =>
    cases copies
    exact .inl ⟨rfl, rfl⟩
  | @copied place n target shape entry _ ih =>
    cases copies with
    | copied found rest =>
      rw [Shape.toDims, List.getElem?_map, entry] at found
      cases found
      rcases ih rest with ⟨absent, rfl⟩ | ⟨k, m, rfl, last, set, erased⟩
      · exact .inl ⟨absent, rfl⟩
      · refine .inr ⟨k + 1, m, by rw [Nat.add_right_comm, Nat.add_assoc], last, ?_, ?_⟩
        · exact congrArg _ set
        · exact congrArg _ erased
    | fixed positive => exact absurd positive (by decide)
  | @inferred place n target shape _ ih =>
    cases copies with
    | inferred rest =>
      rcases ih rest with ⟨-, rfl⟩ | ⟨_, _, absurd, _⟩
      · exact .inr ⟨0, n, rfl, rfl, rfl, rfl⟩
      · cases absurd
    | fixed positive => exact absurd positive (by decide)
  | @fixed place n target shape positive _ ih =>
    generalize entry : (n : Int) = d at copies
    cases copies with
    | copied | inferred => omega
    | fixed _ rest =>
      subst entry
      rcases ih rest with ⟨absent, rfl⟩ | ⟨k, m, rfl, last, set, erased⟩
      · exact .inl ⟨absent, rfl⟩
      · refine .inr ⟨k + 1, m, by rw [Nat.add_right_comm, Nat.add_assoc], last, ?_, ?_⟩
        · exact congrArg _ set
        · exact congrArg _ erased

/-- Entries that are given or left to be inferred are filled by what they give. -/
theorem of_entries
    (h : List.Forall₂ (fun (d : Int) (n : Nat) => d = -1 ∨ 0 < d ∧ d = n) target shape) :
    Fills source place target shape := by
  induction h generalizing place with
  | nil => exact .nil
  | cons entry _ ih =>
    rcases entry with rfl | ⟨positive, rfl⟩
    · exact .inferred ih
    · exact .fixed (by exact_mod_cast positive) ih

/-- A target without zeros is filled by the shape that it lists. -/
theorem literal (positive : ∀ n ∈ shape, 0 < n) : Fills source place shape.toDims shape := by
  refine of_entries (List.forall₂_map_left_iff.mpr (List.forall₂_same.mpr fun n member => ?_))
  exact .inr ⟨by exact_mod_cast positive n member, rfl⟩

/-- Zeros in front are filled by the extents that they copy. -/
theorem copy {leading : List Nat}
    (entries : ∀ k n, leading[k]? = some n → source[place + k]? = some n)
    (rest : Fills source (place + leading.length) target shape) :
    Fills source place (List.replicate leading.length 0 ++ target) (leading ++ shape) := by
  induction leading generalizing place with
  | nil => exact rest
  | cons n leading ih =>
    refine .copied (entries 0 n rfl) (ih (fun k m entry => ?_) ?_)
    · rw [Nat.add_right_comm, Nat.add_assoc]
      exact entries (k + 1) m entry
    · rwa [Nat.add_right_comm, Nat.add_assoc]

end Fills

end Shape

/-- A shape that fills the target and has the right number of elements is the result. -/
theorem Reshapes.eq_of_fills {source shape : Shape} {target out : Dims}
    (sizes : shape.size = source.size) (fills : Shape.Fills source 0 target shape)
    (reshapes : Reshapes (some target) source.toDims out) : out = shape.toDims := by
  have static := Dims.isStatic_toDims source
  obtain ⟨copied, place?, copies, completes⟩ := reshapes
  rcases fills.of_copies copies with ⟨rfl, rfl⟩ | ⟨k, n, rfl, entry, set, erased⟩
  · cases completes with
    | unknown _ unknown => exact absurd static (by simp [unknown])
    | compared => rfl
  · rw [Nat.zero_add] at completes
    cases completes with
    | unknown _ unknown => exact absurd static (by simp [unknown])
    | undivided _ _ _ unknown =>
      have others : Dims.isStatic (shape.toDims.eraseIdx k) := Dims.isStatic_iff.mpr fun d member =>
        Dims.isStatic_iff.mp (Dims.isStatic_toDims shape) d (List.mem_of_mem_eraseIdx member)
      exact absurd others (by simp [← erased, unknown])
    | divided _ total known extent volume others product nonzero counts range =>
      have within : k < shape.toDims.length := by
        simpa [Shape.toDims] using (List.getElem?_eq_some_iff.mp entry).1
      -- The inferred extent and the extent of the shape multiply the other extents to the same
      -- number.
      have arranged := (List.getElem_cons_eraseIdx_perm within).prod_eq
      have here : shape.toDims[k] = n := by
        simp [Shape.toDims, (List.getElem?_eq_some_iff.mp entry).2]
      rw [List.prod_cons, here, ← erased, ← (Signed.product?_eq_some product).1, Dims.prod_toDims,
        sizes, ← Dims.prod_toDims, ← Dims.volume_eq_some volume, counts, Int.mul_comm] at arranged
      rw [← set, Int.eq_of_mul_eq_mul_left nonzero arranged]

end TensorEngine
