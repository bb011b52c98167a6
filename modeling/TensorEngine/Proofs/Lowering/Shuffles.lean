import TensorEngine.Lowering.RuleTable
import TensorEngine.Proofs.Execution.Operations
import TensorEngine.Proofs.Lowering.Steps
import TensorEngine.Proofs.Lowering.Targets

/-!
# Rules without arithmetic

Joining axes, reshaping to a requested shape, permuting axes, and constants. The rules that move
elements add one shuffle layer at most.

## Main results

* `implements_flatten`, `implements_reshapeTo`: the same elements under another shape
* `implements_permuteAxes`, `implements_transposeAll`: the axes in another order
* `implements_constantTensor`: constants
-/

namespace TensorEngine

namespace Tensor

variable {t u : Tensor}

/-- A tensor keeps its elements when its axes are permuted. -/
theorem Compact.permute {order : List Nat} (h : t.Compact) (moved : t.permute order = .ok u) :
    u.Compact := by
  obtain ⟨permutation, permuted⟩ := permute_eq_ok_iff.mp moved
  have sizes := permuted.size_eq permutation
  exact ⟨sizes ▸ h.positive, by rw [sizes, permuted.dtype]; exact h.bytes⟩

end Tensor

namespace Lowering

open Program

variable {final : Network} {values : Values} {Good : ValueId → TensorId → Prop} {node : Node}
  {arguments : List Argument} {constants : List Constant} {x : TensorId} {t : Tensor}

/-! ### Reshapes -/

/-- An axis that is read from the arguments is the one that the constant names. -/
theorem ensures_axisAt (held : List.Forall₂ (Argument.Holds values) arguments constants)
    {position rank : Nat} :
    Ensures final Good (axisAt arguments position rank : Program RuleError Nat) fun k =>
      ∃ i, (constants[position]?).bind Constant.int? = some i ∧ axis? rank i = some k := by
  refine .ofExcept fun k found => ?_
  obtain ⟨argument, found, h⟩ := bind_eq_ok_iff.mp found
  obtain ⟨i, read, normal⟩ := bind_eq_ok_iff.mp h
  exact ⟨i, constants_of_int held found read, axis?_of_normalizeAxis normal⟩

/-- Joining a range of axes implements the operation. -/
theorem implements_flatten : Implements flatten Operation.flatten := by
  intro final values Good node arguments constants model held good
  refine (ensures_operandAt model held).bind ?_
  rintro x ⟨t, value, compact, operand⟩
  refine (Ensures.dimsOf x).bind ?_
  rintro dims ⟨_, recorded⟩
  have rank_eq := model.rank_eq value recorded
  have positive := Shape.size_pos_iff.mp compact.positive
  split
  next scalar =>
    have empty : t.shape = [] := List.eq_nil_of_length_eq_zero (rank_eq.symm.trans scalar)
    have sizes : Shape.size [1] = t.shape.size := by rw [empty]; rfl
    have fills : Shape.Fills t.shape 0 [1] [1] := .fixed Nat.one_pos .nil
    refine (ensures_reshape model value compact (fun _ => fills) sizes).bind ?_
    rintro y ⟨u, valueU, laid⟩
    refine .bindOutput fun id rest output =>
      good id rest y u output valueU (compact.reshape laid) ?_
    have rank : t.rank = 0 := rank_eq.symm.trans scalar
    simp [Operation.flatten, operand, rank, Tensor.flatten?, laid, Except.toOption]
  next axes =>
    have rank : t.rank ≠ 0 := fun zero => axes (rank_eq.trans zero)
    refine (ensures_axisAt held).bind ?_
    rintro first ⟨i, readFirst, firstAxis⟩
    refine (ensures_axisAt held).bind ?_
    rintro last ⟨j, readLast, lastAxis⟩
    split
    next => exact .refuse _
    next order =>
      refine (Ensures.gets _).bind fun dynamicShape _ => ?_
      refine (Ensures.ofExcept fun _ => id).bind fun target joined => ?_
      -- An axis that was normalized is below the rank.
      have within : last < t.shape.length := by
        unfold axis? at lastAxis
        grind
      refine (ensures_reshape model value compact (fills_of_flattenTarget (Nat.le_of_not_lt order)
        within (model.describes value recorded) positive joined)
        (size_joined (Nat.le_of_not_lt order))).bind ?_
      rintro y ⟨u, valueU, laid⟩
      refine .bindOutput fun id rest output =>
        good id rest y u output valueU (compact.reshape laid) ?_
      rw [show dims.rank = t.rank from rank_eq] at firstAxis lastAxis
      simp [Operation.flatten, operand, rank, readFirst, readLast, Tensor.flatten?, firstAxis,
        lastAxis, Nat.le_of_not_lt order, laid, Except.toOption]

/-- Reshaping to a requested shape implements the operation. -/
theorem implements_reshapeTo : Implements reshapeTo Operation.view := by
  intro final values Good node arguments constants model held good
  refine (ensures_operandAt model held).bind ?_
  rintro x ⟨t, value, compact, operand⟩
  refine (Ensures.ofExcept fun _ => id).bind fun requested read => ?_
  refine (Ensures.gets _).bind fun dynamicShape _ => ?_
  split
  next => exact .refuse _
  next =>
    refine (Ensures.dimsOf x).bind ?_
    rintro dims ⟨_, recorded⟩
    refine ensures_requireStatic.bind fun _ static => ?_
    refine (Ensures.ofExcept fun _ => id).bind fun target meant => ?_
    rw [model.dims_eq value recorded static] at meant
    obtain ⟨shape, means, sizes, rfl⟩ := requestedShape_eq_ok compact.positive meant
    have positive := Shape.size_pos_iff.mp (sizes ▸ compact.positive)
    refine (ensures_reshape model value compact (fun _ => .literal positive) sizes).bind ?_
    rintro y ⟨u, valueU, laid⟩
    refine .bindOutput fun id rest output =>
      good id rest y u output valueU (compact.reshape laid) ?_
    simp [Operation.view, operand, constants_of_ints held read, Tensor.view?, Tensor.size, means,
      laid, Except.toOption]

/-! ### Permutations -/

/-- A shuffle layer that only transposes permutes the axes. -/
theorem ensures_transpose (model : values.Models final) (value : values.get? x = some t)
    {name : String} {order : List Nat} :
    Ensures final Good (Lowering.perform (.addShuffle name x (.transposing order))) fun y =>
      ∃ u, values.get? y = some u ∧ t.permute order = .ok u := by
  refine (ensures_shuffle model value).mono ?_
  rintro y ⟨u, valueU, shuffled, -⟩
  exact ⟨u, valueU, mapError_eq_ok_iff.mp shuffled⟩

/-- The order that a list of integers names names its axes one by one. -/
theorem order_of_axisOrder {axes : List Int} {rank : Nat} {order : List Nat}
    (h : axisOrder axes rank = .ok order) : axes.mapM (axis? rank) = some order := by
  obtain ⟨named, listed, result⟩ := bind_eq_ok_iff.mp h
  have same : named = order := by
    split at result
    next => exact Except.ok.inj result
    next => cases result
  have entries := mapM_eq_ok_iff.mp (same ▸ listed)
  clear h result listed same
  induction entries with
  | nil => rfl
  | cons axis _ ih =>
    rw [List.mapM_cons, axis?_of_normalizeAxis axis, ih]
    rfl

/-- Permuting axes implements the operation. -/
theorem implements_permuteAxes : Implements permuteAxes Operation.permute := by
  intro final values Good node arguments constants model held good
  refine (ensures_operandAt model held).bind ?_
  rintro x ⟨t, value, compact, operand⟩
  refine (Ensures.dimsOf x).bind ?_
  rintro dims ⟨_, recorded⟩
  rw [model.rank_eq value recorded]
  refine (Ensures.ofExcept fun _ => id).bind fun order named => ?_
  obtain ⟨argument, found, named⟩ := bind_eq_ok_iff.mp named
  obtain ⟨axes, read, named⟩ := bind_eq_ok_iff.mp named
  refine (ensures_transpose model value).bind ?_
  rintro y ⟨u, valueU, moved⟩
  refine .bindOutput fun id rest output => good id rest y u output valueU (compact.permute moved) ?_
  have listed := constants_of_ints held (bind_eq_ok_iff.mpr ⟨argument, found, read⟩)
  have order_eq : axes.mapM (axis? t.rank) = some order := order_of_axisOrder named
  simp [Operation.permute, operand, listed, Tensor.permuted?, order_eq, moved, Except.toOption]

/-- Reversing the axes implements the operation, on constants and on tensors of the network. -/
theorem implements_transposeAll :
    Implements transposeAll (Operation.unary Tensor.transposed?) := by
  intro final values Good node arguments constants model held good
  refine (Ensures.ofExcept fun _ => id).bind fun argument found => ?_
  obtain ⟨c, entry, holds⟩ := holds_of_argumentAt held found
  cases holds with
  | @tensor x t value compact =>
    refine (Ensures.dimsOf x).bind ?_
    rintro dims ⟨_, recorded⟩
    rw [model.rank_eq value recorded]
    refine (ensures_transpose model value).bind ?_
    rintro y ⟨u, valueU, moved⟩
    refine .bindOutput fun id rest output =>
      good id rest y u output valueU (compact.permute moved) ?_
    have moved : t.permute (reversal t.rank) = .ok u := moved
    simp [Operation.unary, Operation.operand?, entry, Constant.tensor?, Tensor.transposed?, moved,
      Except.toOption]
  | constant extents =>
    refine (Ensures.ofExcept fun _ => id).bind fun weights read => ?_
    cases c with
    | tensor t =>
      cases read
      refine (Ensures.ofExcept fun _ => id).bind fun u moved => ?_
      have moved : weights.permute (reversal weights.rank) = .ok u := mapError_eq_ok_iff.mp moved
      refine (ensures_constant model).bind ?_
      rintro y ⟨valueU, stored⟩
      have compact : u.Compact := by
        refine .of_stored stored fun zero => extents weights rfl ?_
        obtain ⟨permutation, permuted⟩ := Tensor.permute_eq_ok_iff.mp moved
        exact permuted.shape.mem zero
      refine .bindOutput fun id rest output => good id rest y u output valueU compact ?_
      simp [Operation.unary, Operation.operand?, entry, Constant.tensor?, Tensor.transposed?, moved,
        Except.toOption]
    | none | bool | int | double | ints => cases read

/-! ### Constants -/

/-- A constant tensor is itself. -/
theorem implements_constantTensor : Implements constantTensor (Operation.unary some) := by
  intro final values Good node arguments constants model held good
  refine (Ensures.ofExcept fun _ => id).bind fun weights read => ?_
  obtain ⟨argument, found, read⟩ := bind_eq_ok_iff.mp read
  obtain ⟨c, entry, holds⟩ := holds_of_argumentAt held found
  cases holds with
  | tensor => cases read
  | constant extents =>
    cases c with
    | tensor t =>
      cases read
      refine (ensures_constant model).bind ?_
      rintro y ⟨value, stored⟩
      refine .bindOutput fun id rest output =>
        good id rest y weights output value (.of_stored stored (extents weights rfl)) ?_
      simp [Operation.unary, Operation.operand?, entry, Constant.tensor?]
    | none | bool | int | double | ints => cases read

end Lowering

end TensorEngine
