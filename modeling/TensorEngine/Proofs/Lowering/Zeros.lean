import TensorEngine.Proofs.Lowering.Flattening
import TensorEngine.Proofs.Lowering.Layouts

/-!
# Zeros in reshape targets

A zero in a reshape target copies the extent at its place. A target that is written out extent by
extent therefore means the extents that it lists only as far as zeros stand for zeros: where extents
change their places, a zero may copy another extent instead, and the counts of elements agree all the
same if both are zero.

## Main definitions

* `Shape.KeepsZeros`: shapes whose zeros survive when axes are joined

## Main results

* `Reshapes.eq_target_iff`: a target without an inferred extent means what it lists
* `known_shape_is_recorded_iff`: the dimensions that are recorded where axes are joined or ranks
  expanded
-/

namespace TensorEngine

namespace Copies

variable {source target dims : Dims} {place : Nat} {place? : Option Nat}

/-- Zeros of a target copy zeros if the first entry and the other ones do. -/
theorem forall_zero_cons {d : Int} :
    (∀ k, (d :: target)[k]? = some 0 → source[place + k]? = some 0) ↔
      (d = 0 → source[place]? = some 0) ∧
        ∀ k, target[k]? = some 0 → source[place + 1 + k]? = some 0 := by
  refine Nat.and_forall_add_one.symm.trans ?_
  simp only [List.getElem?_cons_zero, List.getElem?_cons_succ, Option.some.injEq, Nat.add_zero,
    Nat.add_assoc, Nat.add_comm 1]

/-- A target means what it lists exactly if each of its zeros copies a zero. -/
theorem eq_target_iff (h : Copies source place place? target dims) :
    dims = target ↔ ∀ k, target[k]? = some 0 → source[place + k]? = some 0 := by
  induction h with
  | nil => simp
  | copied entry _ ih => simp [forall_zero_cons, ih, entry]
  | inferred _ ih => simp [forall_zero_cons, ih]
  | fixed positive _ ih => simp [forall_zero_cons, ih, Int.ne_of_gt positive]

/-- Zeros in front copy the extents at their places. -/
theorem of_zeros {n : Nat} (h : Copies source place place? (List.replicate n 0 ++ target) dims) :
    ∃ rest, dims = (source.drop place).take n ++ rest ∧
      Copies source (place + n) place? target rest := by
  induction n generalizing place dims with
  | zero => exact ⟨dims, by simp, h⟩
  | succ n ih =>
    rw [List.replicate_succ, List.cons_append] at h
    cases h with
    | copied entry later =>
      obtain ⟨rest, rfl, copies⟩ := ih later
      obtain ⟨within, here⟩ := List.getElem?_eq_some_iff.mp entry
      refine ⟨rest, ?_, by rwa [Nat.add_right_comm, Nat.add_assoc] at copies⟩
      rw [List.drop_eq_getElem_cons within, here, List.take_succ_cons, List.cons_append]
    | fixed positive => exact absurd positive (by decide)

end Copies

/-- A target without an entry to infer means what it lists exactly if each of its zeros stands where
the source has a zero. -/
theorem Reshapes.eq_target_iff {source target out : Dims} (h : Reshapes (some target) source out)
    (listed : -1 ∉ target) :
    out = target ↔ ∀ k : Nat, target[k]? = some 0 → source[k]? = some 0 := by
  obtain ⟨copied, place?, copies, completes⟩ := h
  cases place? with
  | some place =>
    obtain ⟨k, -, entry, -⟩ := copies.getElem?_inferred rfl
    exact absurd (List.mem_of_getElem? entry) listed
  | none =>
    obtain rfl : copied = out := by cases completes <;> rfl
    rw [copies.eq_target_iff]
    simp only [Nat.zero_add]

namespace Shape

variable {shape : Shape} {first last : Nat} {target out : Dims}

/-- The zeros of the shape survive when these axes are joined. Where the target lists all extents,
every zero of the shape with the axes joined has to stand where the shape itself has one. Where the
joined extent is inferred, no extent behind it may be zero. -/
def KeepsZeros (shape : Shape) (dynamicShape : Bool) (first last : Nat) : Prop :=
  if dynamicShape then 0 ∉ shape.drop (last + 1)
  else ∀ k : Nat, (shape.joined first last)[k]? = some 0 → shape[k]? = some 0

theorem getElem?_toDims_eq_zero {k : Nat} : shape.toDims[k]? = some 0 ↔ shape[k]? = some 0 := by
  simp [toDims]

theorem minusOne_notMem_toDims (shape : Shape) : -1 ∉ shape.toDims :=
  List.count_eq_zero.mp (count_toDims shape)

theorem describes_toDims (shape : Shape) :
    List.Forall₂ (fun (d : Int) (n : Nat) => d < 0 ∨ d = n) shape.toDims shape :=
  Dims.describes_iff.mp ((Dims.describes_iff_of_isStatic (Dims.isStatic_toDims shape)).mpr rfl)

open Lowering

/-- Without dynamic shapes, the target lists the extents of the shape with the axes joined. -/
theorem flattenTarget_static (order : first ≤ last) (within : last < shape.length)
    (h : flattenTarget false shape.toDims first last = .ok target) :
    target = (shape.joined first last).toDims := by
  obtain ⟨leadingCut, -, trailingCut⟩ := slices_toDims (ε := RuleError) order within
  rw [flattenTarget, if_neg (by simp [Dims.isStatic_toDims]), flattenStatic, leadingCut, ok_bind] at h
  obtain ⟨extent, collapsed, h⟩ := bind_eq_ok_iff.mp h
  rw [trailingCut] at h
  cases h
  have known : Dims.isStatic ((shape.toDims.drop first).take (last + 1 - first)) :=
    Dims.isStatic_iff.mpr fun d member => Dims.isStatic_iff.mp (Dims.isStatic_toDims shape) d
      (List.mem_of_mem_drop (List.mem_of_mem_take member))
  rw [collapsedExtent_eq_ok (describes_toDims shape) known collapsed]
  simp [joined, toDims]

/-- With dynamic shapes, the target copies the extents in front, leaves the joined one to be inferred
and lists those behind. -/
theorem flattenTarget_dynamic (order : first ≤ last) (within : last < shape.length)
    (h : flattenTarget true shape.toDims first last = .ok target) :
    target = List.replicate first 0 ++ -1 :: toDims (shape.drop (last + 1)) := by
  obtain ⟨-, joinedCut, trailingCut⟩ := slices_toDims (ε := RuleError) order within
  have known : (toDims (shape.drop (last + 1))).countP (· < 0) = 0 :=
    List.countP_eq_zero.mpr fun d member => by
      simpa using Dims.isStatic_iff.mp (Dims.isStatic_toDims _) d member
  rw [flattenTarget, if_pos (by simp), flattenDynamic, trailingCut, ok_bind, joinedCut, ok_bind] at h
  dsimp only at h
  rw [if_pos known] at h
  cases h
  rfl

/-- A reshape that lists all extents records the shape with the axes joined exactly if each of its
zeros stands where the shape has one. -/
theorem static_eq_joined_iff
    (reshapes : Reshapes (some (shape.joined first last).toDims) shape.toDims out) :
    out = (shape.joined first last).toDims ↔
      ∀ k : Nat, (shape.joined first last)[k]? = some 0 → shape[k]? = some 0 := by
  simp only [reshapes.eq_target_iff (minusOne_notMem_toDims _), getElem?_toDims_eq_zero]

/-- A reshape that infers the joined extent keeps the extents in front and copies extents for zeros
behind. The product of the others is not zero, and it divides the number of elements. -/
theorem of_inferred (within : first ≤ shape.length)
    (reshapes : Reshapes (some (List.replicate first 0 ++ -1 :: target)) shape.toDims out) :
    ∃ extent trailing, out = shape.toDims.take first ++ extent :: trailing ∧
      Copies shape.toDims (first + 1) none target trailing ∧
      (shape.toDims.take first ++ trailing).prod ≠ 0 ∧
      shape.size = (shape.toDims.take first ++ trailing).prod * extent := by
  obtain ⟨copied, place?, copies, completes⟩ := reshapes
  obtain ⟨_, rfl, later⟩ := copies.of_zeros
  rw [List.drop_zero, Nat.zero_add] at *
  cases later with
  | fixed positive => exact absurd positive (by decide)
  | @inferred _ _ trailing rest =>
    have length : (shape.toDims.take first).length = first :=
      List.length_take_of_le (by rwa [toDims, List.length_map])
    have erased : (shape.toDims.take first ++ -1 :: trailing).eraseIdx first =
        shape.toDims.take first ++ trailing := by
      rw [List.eraseIdx_append_of_length_le (Nat.le_of_eq length), length, Nat.sub_self,
        List.eraseIdx_cons_zero]
    have static := Dims.isStatic_toDims shape
    cases completes with
    | unknown _ unknown => exact absurd static (by simp [unknown])
    | undivided _ _ _ unknown => exact absurd (copies.isStatic_eraseIdx static) (by simp [unknown])
    | divided _ total known extent volume _ product nonzero counts =>
      obtain rfl := (Signed.product?_eq_some product).1
      rw [erased] at nonzero counts
      refine ⟨extent, trailing, ?_, rest, nonzero, ?_⟩
      · rw [List.set_append_right _ _ (Nat.le_of_eq length), length, Nat.sub_self,
          List.set_cons_zero]
      · rw [← counts, Dims.volume_eq_some volume, Dims.prod_toDims]

/-- A reshape that infers the joined extent records the shape with the axes joined exactly if no extent
behind it is zero. -/
theorem dynamic_eq_joined_iff (order : first ≤ last) (within : last < shape.length)
    (reshapes : Reshapes (some (List.replicate first 0 ++ -1 :: toDims (shape.drop (last + 1))))
      shape.toDims out) :
    out = (shape.joined first last).toDims ↔ 0 ∉ shape.drop (last + 1) := by
  have joined_eq : (shape.joined first last).toDims = shape.toDims.take first ++
      (size ((shape.take (last + 1)).drop first) : Int) :: toDims (shape.drop (last + 1)) := by
    simp [joined, toDims]
  obtain ⟨extent, trailing, rfl, copies, nonzero, counts⟩ := of_inferred (by omega) reshapes
  rw [List.prod_append] at nonzero counts
  rw [joined_eq]
  constructor
  · intro same zero
    obtain ⟨-, rfl⟩ := List.cons.inj (List.append_cancel_left same)
    have member : 0 ∈ toDims (shape.drop (last + 1)) := List.mem_map.mpr ⟨0, zero, rfl⟩
    exact nonzero (by rw [List.prod_eq_zero member, mul_zero])
  · intro clear
    obtain rfl : trailing = toDims (shape.drop (last + 1)) := by
      refine copies.eq_target_iff.mpr fun k entry => absurd ?_ clear
      exact List.mem_of_getElem? (getElem?_toDims_eq_zero.mp entry)
    -- With the extents behind kept, the inferred one can only be the product of those it joins.
    rw [← size_joined order, ← Dims.prod_toDims, joined_eq, List.prod_append, List.prod_cons,
      mul_comm (size _ : Int), ← mul_assoc] at counts
    rw [Int.eq_of_mul_eq_mul_left nonzero counts]

/-- Where axes are joined, the shape with the axes joined is recorded exactly if its zeros survive. -/
theorem eq_joined_iff {dynamicShape : Bool} (order : first ≤ last) (within : last < shape.length)
    (asked : flattenTarget dynamicShape shape.toDims first last = .ok target)
    (reshapes : Reshapes (some target) shape.toDims out) :
    out = (shape.joined first last).toDims ↔ shape.KeepsZeros dynamicShape first last := by
  cases dynamicShape with
  | false =>
    rw [flattenTarget_static order within asked] at reshapes
    exact static_eq_joined_iff reshapes
  | true =>
    rw [flattenTarget_dynamic order within asked] at reshapes
    exact dynamic_eq_joined_iff order within reshapes

/-- Behind extents of one, no zero stands where the shape has one. -/
theorem padded_keeps_zeros_iff {rank : Nat} (lower : shape.rank < rank) :
    (∀ k : Nat, (shape.padded rank)[k]? = some 0 → shape[k]? = some 0) ↔ 0 ∉ shape := by
  constructor
  · intro keeps zero
    obtain ⟨place, entry⟩ := List.mem_iff_getElem?.mp zero
    -- Every zero has another one behind it, so there are zeros behind the end.
    have behind : ∀ n : Nat, ∃ k, n ≤ k ∧ shape[k]? = some 0 := by
      intro n
      induction n with
      | zero => exact ⟨place, Nat.zero_le _, entry⟩
      | succ n ih =>
        obtain ⟨k, further, entry⟩ := ih
        refine ⟨k + (rank - shape.rank), by omega, keeps _ ?_⟩
        rw [padded, List.getElem?_append_right (by simp), List.length_replicate,
          Nat.add_sub_cancel, entry]
    obtain ⟨k, further, entry⟩ := behind shape.length
    rw [List.getElem?_eq_none further] at entry
    cases entry
  · intro clear k entry
    have member := List.mem_of_getElem? entry
    simp only [padded, List.mem_append, List.mem_replicate] at member
    exact absurd (member.resolve_left (by omega)) clear

end Shape

namespace Lowering

open Program

/-- A tensor of lower rank is expanded by a reshape to its extents behind extents of one. -/
theorem expandRank_reshapes {state next : State} {node : Node} {x z : TensorId} {dtype : DType}
    {shape : Shape} {rank : Nat} {part : String}
    (recorded : state.network.types[x.index]? = some ⟨dtype, shape.toDims⟩)
    (lower : shape.rank < rank) (ran : (expandRank node x rank part).run state = (.ok z, next)) :
    ∃ out, next.network.types[z.index]? = some ⟨dtype, out⟩ ∧
      Reshapes (some (shape.padded rank).toDims) shape.toDims out := by
  -- Only what is recorded matters, so no values are given.
  let trial : Trial := ⟨state, fun _ => False, True⟩
  have reaches : trial.Reaches state := Trial.reaches_start
  have holds : trial.Holds state x ⟨dtype, shape.toDims⟩ fun _ _ => True :=
    Trial.holds_start recorded fun _ given => given.elim
  have ends : (expandRank node x rank part).EndsFrom state (fun _ => True) fun z next =>
      ∃ out, next.network.types[z.index]? = some ⟨dtype, out⟩ ∧
        Reshapes (some (shape.padded rank).toDims) shape.toDims out := by
    refine .dimsOf_bind recorded ?_
    rw [Shape.rank_toDims, if_neg (Nat.not_le.mpr lower)]
    refine .requireStatic_bind (Dims.isStatic_toDims shape)
      (.ofExcept_bind (Shape.expandedDims_toDims (Nat.le_of_lt lower)) ?_)
    refine (Trial.ends_laid reaches (fun t => t.shape.padded rank) holds (fun _ _ => trivial)
      fun _ _ _ _ given _ => given.elim).mono ?_
    rintro z next ⟨out, reshapes, made⟩
    exact ⟨out, made.holds.recorded, reshapes⟩
  exact ends.result ran

/-- Where the extents of an operand are known, joining axes records the shape with the axes joined
exactly if its zeros survive, and expanding the rank records the extents behind extents of one exactly
if none of them is zero. -/
theorem known_shape_is_recorded_iff (dtype : DType) (shape : Shape) :
    (∀ {graph : Graph} {state : State} {node : Node} {operand : Argument} {v : ValueId}
        {first last : Nat},
      Joins graph state node operand v ⟨dtype, shape.toDims⟩ first last →
      ∀ next, (lowerNode .builtin graph node).run state = (.ok (), next) →
        ∃ layers z out, state.Emits next layers v z ⟨dtype, out⟩ ∧
          (out = (shape.joined first last).toDims ↔
            shape.KeepsZeros state.settings.dynamicShape first last)) ∧
    (∀ {state next : State} {node : Node} {x z : TensorId} {rank : Nat} {part : String},
      state.network.types[x.index]? = some ⟨dtype, shape.toDims⟩ → shape.rank < rank →
      (expandRank node x rank part).run state = (.ok z, next) →
        ∃ out, next.network.types[z.index]? = some ⟨dtype, out⟩ ∧
          (out = (shape.padded rank).toDims ↔ 0 ∉ shape)) := by
  constructor
  · intro graph state node operand v first last joins next ran
    obtain ⟨-, target, out, asked, reshapes, binds⟩ := joins.ends.result ran
    obtain ⟨layers, z, emits, -⟩ := binds.emits joins.fresh
    obtain ⟨_, _, _, _, lastAxis⟩ := joins.inputs
    have within : last < shape.length := (lt_of_axis? lastAxis).trans_eq (Shape.rank_toDims shape)
    exact ⟨layers, z, out, emits, Shape.eq_joined_iff joins.order within asked reshapes⟩
  · intro state next node x z rank part recorded lower ran
    obtain ⟨out, known, reshapes⟩ := expandRank_reshapes recorded lower ran
    refine ⟨out, known, ?_⟩
    rw [reshapes.eq_target_iff (Shape.minusOne_notMem_toDims _), ← Shape.padded_keeps_zeros_iff lower]
    simp only [Shape.getElem?_toDims_eq_zero]

/-! ### Kept and copied zeros -/

/-- A zero that keeps its place is recorded, and so are positive extents behind extents of one. -/
theorem known_shape_is_recorded_iff_kept :
    (∃ next layers z, (lowerNode .builtin (rowingGraph [0, 0, 5]) rowingNode).run
        (rowingState [0, 0, 5]) = (.ok (), next) ∧
      (rowingState [0, 0, 5]).Emits next layers ⟨3⟩ z ⟨.i32, [0, 5]⟩) ∧
    ∃ next z, (expandRank rowingNode ⟨0⟩ 3 "").run (rowingState [2, 5]) = (.ok z, next) ∧
      next.network.types[z.index]? = some ⟨.i32, [1, 2, 5]⟩ := by
  constructor
  · have joins : Joins _ _ _ _ _ ⟨.i32, Shape.toDims [0, 0, 5]⟩ _ _ := joins_rowing 0 0 5
    have accepted : ∃ next, (lowerNode .builtin (rowingGraph [0, 0, 5]) rowingNode).run
        (rowingState [0, 0, 5]) = (.ok (), next) := ⟨_, rfl⟩
    obtain ⟨next, ran⟩ := accepted
    obtain ⟨layers, z, out, emits, kept⟩ :=
      (known_shape_is_recorded_iff .i32 [0, 0, 5]).1 joins next ran
    have keeps : Shape.KeepsZeros [0, 0, 5] false 0 1
      | 0, _ => rfl
      | 1, entry => nomatch entry
    obtain rfl := kept.mpr keeps
    exact ⟨next, layers, z, ran, emits⟩
  · have accepted : ∃ z next, (expandRank rowingNode ⟨0⟩ 3 "").run (rowingState [2, 5]) =
        (.ok z, next) := ⟨_, _, rfl⟩
    obtain ⟨z, next, ran⟩ := accepted
    have operand : (rowingState [2, 5]).network.types[(⟨0⟩ : TensorId).index]? =
        some ⟨.i32, Shape.toDims [2, 5]⟩ := rfl
    obtain ⟨out, recorded, kept⟩ := (known_shape_is_recorded_iff .i32 [2, 5]).2 operand (by decide) ran
    obtain rfl := kept.mpr (by decide)
    exact ⟨next, z, ran, recorded⟩

/-- A zero that changes its place copies another extent, and the wrong dimensions are recorded: where
axes are joined in both modes, and where the rank is expanded. -/
theorem moved_zeros_copy_extents :
    (∃ next layers z, (lowerNode .builtin (rowingGraph [2, 0, 0]) rowingNode).run
        (rowingState [2, 0, 0]) = (.ok (), next) ∧
      (rowingState [2, 0, 0]).Emits next layers ⟨3⟩ z ⟨.i32, [2, 0]⟩ ∧
      [2, 0] ≠ (Shape.joined [2, 0, 0] 0 1).toDims) ∧
    (∃ next layers z, (lowerNode .builtin (rowingGraph [2, 3, 0]) rowingNode).run
        { rowingState [2, 3, 0] with settings := ⟨true, ⟨0, 8, 6⟩⟩ } = (.ok (), next) ∧
      (rowingState [2, 3, 0]).Emits next layers ⟨3⟩ z ⟨.i32, [0, 3]⟩ ∧
      [0, 3] ≠ (Shape.joined [2, 3, 0] 0 1).toDims) ∧
    ∃ next z, (expandRank rowingNode ⟨0⟩ 4 "").run (rowingState [0, 0, 5]) = (.ok z, next) ∧
      next.network.types[z.index]? = some ⟨.i32, [1, 0, 5, 5]⟩ ∧
      [1, 0, 5, 5] ≠ (Shape.padded 4 [0, 0, 5]).toDims :=
  ⟨⟨_, _, _, rfl, ⟨rfl, rfl, rfl⟩, by decide⟩, ⟨_, _, _, rfl, ⟨rfl, rfl, rfl⟩, by decide⟩,
    ⟨_, _, rfl, rfl, by decide⟩⟩

end Lowering

end TensorEngine
