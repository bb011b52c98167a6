import TensorEngine.Proofs.Execution.Kernels
import TensorEngine.Proofs.Lowering.Targets

/-!
# Joining axes in either mode

Where an extent is unknown, joining axes asks for the same reshape whether dynamic shapes were asked
for or not. Where all extents are known, the one mode lists them and the other one leaves the joined
extent to be inferred; as long as no extent is zero, both are refused for the same dimensions, namely
those whose number of elements does not fit, and both give the dimensions with the axes joined.

## Main results

* `flattens_iff`: joining axes of known extents, in either mode
* `exists_flattenTarget`: what one mode accepts, the other one accepts with the same result
-/

namespace TensorEngine

namespace Shape

variable {shape : Shape}

/-- The extents of a shape whose number of elements fits multiply to it without overflow. -/
theorem product?_toDims (positive : ∀ n ∈ shape, 0 < n)
    (fits : (shape.size : Int) ≤ Signed.greatest) :
    Signed.product? shape.toDims = some (shape.size : Int) := by
  -- Every product on the way is a divisor of the last one, and so is not larger.
  have scaled : ∀ start : Nat, 0 < start → ((start * Shape.size shape : Nat) : Int) ≤ Signed.greatest →
      shape.toDims.foldlM Signed.mul? (start : Int) = some ((start * Shape.size shape : Nat) : Int) := by
    clear fits
    induction shape with
    | nil => simp [toDims]
    | cons n shape ih =>
      intro start start_pos fits
      rw [List.forall_mem_cons] at positive
      rw [Shape.size_cons, ← Nat.mul_assoc] at fits ⊢
      have below : start * n ≤ start * n * Shape.size shape :=
        Nat.le_mul_of_pos_right _ (Shape.size_pos_iff.mpr positive.2)
      refine Signed.foldlM_mul?_cons.mpr ⟨?_, ?_⟩
      · simp only [Signed.InRange, Signed.least]
        omega
      · exact_mod_cast ih positive.2 (start * n) (Nat.mul_pos start_pos positive.1) fits
  simpa [Signed.product?] using scaled 1 Nat.one_pos (by simpa using fits)

theorem volume_toDims (positive : ∀ n ∈ shape, 0 < n)
    (fits : (shape.size : Int) ≤ Signed.greatest) :
    Dims.volume shape.toDims = some (shape.size : Int) := by
  rw [Dims.volume, if_pos (Dims.isStatic_toDims shape), product?_toDims positive fits]

/-- The number of elements of known dimensions, if there is one, fits. -/
theorem size_le_of_volume {total : Int} (h : Dims.volume shape.toDims = some total) :
    (shape.size : Int) ≤ Signed.greatest := by
  have fits := (Dims.inRange_of_volume h).2
  rwa [Dims.volume_eq_some h, Dims.prod_toDims] at fits

end Shape

/-- A reshape of known extents is accepted only if their number of elements fits. -/
theorem Reshapes.volume_isSome {source target out : Dims} (static : source.isStatic)
    (h : Reshapes (some target) source out) : ∃ total, source.volume = some total := by
  obtain ⟨_, _, -, completes⟩ := h
  cases completes with
  | unknown _ unknown => exact absurd static (by simp [unknown])
  | undivided _ total volume | divided _ total _ _ volume | compared total volume =>
    exact ⟨total, volume⟩

namespace Copies

variable {source target dims : Dims} {place : Nat} {place? : Option Nat}

/-- Positive entries are copied as they are. -/
theorem literal (positive : ∀ d ∈ target, 0 < d) : Copies source place none target target := by
  induction target generalizing place with
  | nil => exact .nil
  | cons d target ih =>
    rw [List.forall_mem_cons] at positive
    exact .fixed positive.1 (ih positive.2)

/-- Zeros in front copy the extents at their places. -/
theorem copy {leading : Dims}
    (entries : ∀ k d, leading[k]? = some d → source[place + k]? = some d)
    (rest : Copies source (place + leading.length) place? target dims) :
    Copies source place place? (List.replicate leading.length 0 ++ target) (leading ++ dims) := by
  induction leading generalizing place with
  | nil => exact rest
  | cons d leading ih =>
    refine .copied (entries 0 d rfl) (ih (fun k e entry => ?_) ?_)
    · rw [Nat.add_right_comm, Nat.add_assoc]
      exact entries (k + 1) e entry
    · rwa [Nat.add_right_comm, Nat.add_assoc]

end Copies

namespace Lowering

variable {dims target out : Dims} {shape : Shape} {first last : Nat} {dynamicShape : Bool}

/-- The axes that are joined are axes of the tensor. -/
theorem lt_of_flattenTarget (h : flattenTarget dynamicShape dims first last = .ok target) :
    last < dims.length := by
  unfold flattenTarget at h
  split at h
  next =>
    obtain ⟨_, cut, -⟩ := bind_eq_ok_iff.mp h
    exact (slice_eq_ok_iff.mp cut).1.1
  next =>
    obtain ⟨_, -, h⟩ := bind_eq_ok_iff.mp h
    obtain ⟨_, -, h⟩ := bind_eq_ok_iff.mp h
    obtain ⟨_, cut, -⟩ := bind_eq_ok_iff.mp h
    exact (slice_eq_ok_iff.mp cut).1.1

/-- The extents in front of the joined ones, these, and those behind. -/
theorem slices_toDims {ε : Type} [HasFault ε] (order : first ≤ last) (within : last < shape.length) :
    (slice shape.toDims 0 first : Except ε Dims) = .ok (Shape.toDims (shape.take first)) ∧
      (slice shape.toDims first (last + 1) : Except ε Dims) =
        .ok (Shape.toDims ((shape.take (last + 1)).drop first)) ∧
      (slice shape.toDims (last + 1) (Dims.rank shape.toDims) : Except ε Dims) =
        .ok (Shape.toDims (shape.drop (last + 1))) := by
  have length : shape.toDims.length = shape.length := List.length_map _
  refine ⟨slice_eq_ok_iff.mpr ⟨by omega, ?_⟩, slice_eq_ok_iff.mpr ⟨by omega, ?_⟩,
    slice_eq_ok_iff.mpr ⟨by simp only [Dims.rank]; omega, ?_⟩⟩
  · simp [Shape.toDims, List.map_take]
  · rw [List.drop_take]
    simp [Shape.toDims, List.map_take, List.map_drop]
  · rw [List.take_of_length_le (by rw [List.length_drop])]
    simp [Shape.toDims, List.map_drop]

/-- A target may list positive extents of as many elements. -/
theorem reshapes_of_listed {shape' : Shape} (positive : ∀ n ∈ shape, 0 < n)
    (positive' : ∀ n ∈ shape', 0 < n) (sizes : shape'.size = shape.size)
    (fits : (shape.size : Int) ≤ Signed.greatest) :
    Reshapes (some shape'.toDims) shape.toDims shape'.toDims := by
  refine ⟨_, _, .literal fun d member => ?_, .compared _ (Shape.volume_toDims positive fits) fun _ => ?_⟩
  · obtain ⟨n, listed, rfl⟩ := List.mem_map.mp member
    exact_mod_cast positive' n listed
  · rw [Shape.volume_toDims positive' (sizes.symm ▸ fits), sizes]

/-- A target may copy the extents in front of the joined ones and leave the joined one to be
inferred from the others. -/
theorem reshapes_of_inferred (order : first ≤ last) (within : last < shape.length)
    (positive : ∀ n ∈ shape, 0 < n) (fits : (shape.size : Int) ≤ Signed.greatest) :
    Reshapes (some (List.replicate first 0 ++ -1 :: Shape.toDims (shape.drop (last + 1))))
      shape.toDims (shape.joined first last).toDims := by
  have length : (Shape.toDims (shape.take first)).length = first := by
    rw [Shape.toDims, List.length_map, List.length_take]
    omega
  have others_pos : ∀ n ∈ shape.take first ++ shape.drop (last + 1), 0 < n :=
    List.forall_mem_append.mpr ⟨fun n member => positive n (List.mem_of_mem_take member),
      fun n member => positive n (List.mem_of_mem_drop member)⟩
  have size_pos := Shape.size_pos_iff.mpr positive
  have split : Shape.size (shape.take first ++ shape.drop (last + 1)) *
      Shape.size ((shape.take (last + 1)).drop first) = shape.size := by
    have sizes : (shape.joined first last).size = shape.size := size_joined order
    rw [← sizes, Shape.joined, Shape.size_append, Shape.size_append, Shape.size_cons,
      Nat.mul_assoc, Nat.mul_comm (Shape.size (shape.drop (last + 1)))]
  have othersFits := Nat.le_mul_of_pos_right
    (Shape.size (shape.take first ++ shape.drop (last + 1)))
    (Nat.pos_of_mul_pos_left (split.symm ▸ size_pos))
  have extentFits := Nat.le_mul_of_pos_left (Shape.size ((shape.take (last + 1)).drop first))
    (Nat.pos_of_mul_pos_right (split.symm ▸ size_pos))
  have copies : Copies shape.toDims 0 (some first)
      (List.replicate first 0 ++ -1 :: Shape.toDims (shape.drop (last + 1)))
      (Shape.toDims (shape.take first) ++ -1 :: Shape.toDims (shape.drop (last + 1))) := by
    have trailing : Copies shape.toDims (0 + (Shape.toDims (shape.take first)).length)
        (some first) (-1 :: Shape.toDims (shape.drop (last + 1)))
        (-1 :: Shape.toDims (shape.drop (last + 1))) := by
      rw [Nat.zero_add, length]
      refine .inferred (.literal fun d member => ?_)
      obtain ⟨n, listed, rfl⟩ := List.mem_map.mp member
      exact_mod_cast positive n (List.mem_of_mem_drop listed)
    have copied := Copies.copy (fun k d entry => ?_) trailing
    · rwa [length] at copied
    · rw [Nat.zero_add]
      exact getElem?_of_isPrefix (List.IsPrefix.map _ (List.take_prefix _ _)) entry
  have erased : (Shape.toDims (shape.take first) ++
      -1 :: Shape.toDims (shape.drop (last + 1))).eraseIdx first =
      Shape.toDims (shape.take first ++ shape.drop (last + 1)) := by
    rw [List.eraseIdx_append_of_length_le (by omega), length, Nat.sub_self]
    simp [Shape.toDims]
  have set : (Shape.toDims (shape.take first) ++
      -1 :: Shape.toDims (shape.drop (last + 1))).set first
        (Shape.size ((shape.take (last + 1)).drop first) : Int) =
      (shape.joined first last).toDims := by
    rw [List.set_append_right _ _ (by omega), length, Nat.sub_self]
    simp [Shape.toDims, Shape.joined]
  refine ⟨_, _, copies, set ▸ .divided first _
    (Shape.size (shape.take first ++ shape.drop (last + 1))) _ (Shape.volume_toDims positive fits)
    ?_ ?_ ?_ ?_ ?_⟩
  · rw [erased]
    exact Dims.isStatic_toDims _
  · rw [erased]
    exact Shape.product?_toDims others_pos (by omega)
  · have := Nat.pos_of_mul_pos_right (split.symm ▸ size_pos)
    omega
  · exact_mod_cast split.symm
  · simp only [Signed.InRange, Signed.least]
    omega

/-- Known positive extents are joined in either mode if their number of elements fits. -/
theorem flattenTarget_of_fits (order : first ≤ last) (within : last < shape.length)
    (positive : ∀ n ∈ shape, 0 < n) (fits : (shape.size : Int) ≤ Signed.greatest) :
    ∃ target, flattenTarget dynamicShape shape.toDims first last = .ok target ∧
      Reshapes (some target) shape.toDims (shape.joined first last).toDims := by
  obtain ⟨leadingCut, middleCut, trailingCut⟩ := slices_toDims (ε := RuleError) order within
  have middle_pos : ∀ n ∈ (shape.take (last + 1)).drop first, 0 < n :=
    fun n member => positive n (List.mem_of_mem_take (List.mem_of_mem_drop member))
  unfold flattenTarget
  split
  next =>
    refine ⟨_, bind_eq_ok_iff.mpr ⟨_, trailingCut, bind_eq_ok_iff.mpr ⟨_, middleCut, ?_⟩⟩,
      reshapes_of_inferred order within positive fits⟩
    refine if_pos (List.countP_eq_zero.mpr fun d member => ?_)
    obtain ⟨n, -, rfl⟩ := List.mem_map.mp member
    simp
  next =>
    have joined_pos : ∀ n ∈ shape.joined first last, 0 < n := by
      rw [← Shape.size_pos_iff, size_joined order, Shape.size_pos_iff]
      exact positive
    have middleFits : (Shape.size ((shape.take (last + 1)).drop first) : Int) ≤
        Signed.greatest := by
      have middle : Shape.size ((shape.take (last + 1)).drop first) ∈ shape.joined first last :=
        List.mem_append_right _ List.mem_cons_self
      have := Shape.le_size (Shape.size_pos_iff.mpr joined_pos) middle
      rw [size_joined order] at this
      omega
    have collapsed : collapsedExtent shape.toDims first last =
        .ok (Shape.size ((shape.take (last + 1)).drop first) : Int) := by
      refine bind_eq_ok_iff.mpr ⟨_, middleCut, ?_⟩
      rw [Shape.product?_toDims middle_pos middleFits]
      rfl
    refine ⟨_, bind_eq_ok_iff.mpr ⟨_, leadingCut, bind_eq_ok_iff.mpr ⟨_, collapsed,
      bind_eq_ok_iff.mpr ⟨_, trailingCut, ?_⟩⟩⟩,
      reshapes_of_listed positive joined_pos (size_joined order) fits⟩
    simp [Shape.toDims, Shape.joined, pure, Except.pure]

/-- Joining axes of known positive extents is accepted, in either mode, if there are such axes and the
number of elements fits, and then gives the shape with the axes joined. -/
theorem flattens_iff (order : first ≤ last) (positive : ∀ n ∈ shape, 0 < n) :
    (∃ target, flattenTarget dynamicShape shape.toDims first last = .ok target ∧
        Reshapes (some target) shape.toDims out) ↔
      last < shape.length ∧ (shape.size : Int) ≤ Signed.greatest ∧
        out = (shape.joined first last).toDims := by
  constructor
  · rintro ⟨target, asked, reshapes⟩
    have within : last < shape.length := by
      simpa [Shape.toDims] using lt_of_flattenTarget asked
    obtain ⟨total, volume⟩ := reshapes.volume_isSome (Dims.isStatic_toDims shape)
    have described : Dims.describes shape.toDims shape :=
      (Dims.describes_iff_of_isStatic (Dims.isStatic_toDims shape)).mpr rfl
    have fills := fills_of_flattenTarget order within described positive asked reshapes.mem_target
    exact ⟨within, Shape.size_le_of_volume volume,
      reshapes.eq_of_fills (size_joined order) fills⟩
  · rintro ⟨within, fits, rfl⟩
    exact flattenTarget_of_fits order within positive fits

/-- What one mode makes of joining axes, the other one makes of it as well, unless an extent is
zero. -/
theorem exists_flattenTarget (dynamicShape' : Bool) (order : first ≤ last) (extents : 0 ∉ dims)
    (asked : flattenTarget dynamicShape dims first last = .ok target)
    (reshapes : Reshapes (some target) dims out) :
    ∃ target', flattenTarget dynamicShape' dims first last = .ok target' ∧
      Reshapes (some target') dims out := by
  by_cases static : dims.isStatic = true
  · obtain ⟨shape, rfl⟩ := Dims.exists_toDims static
    have positive : ∀ n ∈ shape, 0 < n := fun n member => Nat.pos_of_ne_zero fun zero =>
      extents (List.mem_map.mpr ⟨n, member, by rw [zero]; rfl⟩)
    exact (flattens_iff order positive).mpr ((flattens_iff order positive).mp ⟨_, asked, reshapes⟩)
  · -- Where an extent is unknown, the mode is not asked for.
    have same : ∀ mode, flattenTarget mode dims first last = flattenDynamic dims first last := by
      intro mode
      rw [flattenTarget, if_pos (by simp [static])]
    exact ⟨target, by rw [same, ← same dynamicShape, asked], reshapes⟩

end Lowering

end TensorEngine
