import TensorEngine.Lowering.ElementWise
import TensorEngine.Proofs.Execution.Operations
import TensorEngine.Proofs.Lowering.Steps

/-!
# Elementwise rules

Sums, differences and products are lowered to layers over operands of equal rank, the second of
which may have been multiplied by a constant of one number before. They implement the operations on
operands that are broadcast from the right.

## Main results

* `implements_scaled`, `implements_elementProduct`: the rules implement their operations
-/

namespace TensorEngine.Lowering

open Program

variable {final : Network} {values : Values} {Good : ValueId → TensorId → Prop} {node : Node}
  {arguments : List Argument} {constants : List Constant}

/-- The operands of an elementwise operation are laid out with as many axes. -/
theorem ensures_broadcastOperands (model : values.Models final)
    (held : List.Forall₂ (Argument.Holds values) arguments constants) :
    Ensures final Good (broadcastOperands node arguments) fun operands =>
      ∃ a b a' b', Operation.operand? constants 0 = some a ∧
        Operation.operand? constants 1 = some b ∧ a.Compact ∧ b.Compact ∧
        values.get? operands.1 = some a' ∧ values.get? operands.2 = some b' ∧
        a.reshape (a.shape.padded (max a.rank b.rank)) = .ok a' ∧
        b.reshape (b.shape.padded (max a.rank b.rank)) = .ok b' := by
  refine (ensures_operandAt model held).bind ?_
  rintro x ⟨a, valueA, compactA, operandA⟩
  refine (ensures_operandAt model held).bind ?_
  rintro y ⟨b, valueB, compactB, operandB⟩
  refine (Ensures.dimsOf x).bind ?_
  rintro dimsA ⟨_, recordedA⟩
  refine (Ensures.dimsOf y).bind ?_
  rintro dimsB ⟨_, recordedB⟩
  rw [model.rank_eq valueA recordedA, model.rank_eq valueB recordedB]
  refine (ensures_expandRank model valueA compactA).bind ?_
  rintro x' ⟨a', valueA', laidA⟩
  refine (ensures_expandRank model valueB compactB).bind ?_
  rintro y' ⟨b', valueB', laidB⟩
  exact .pure ⟨a, b, a', b', operandA, operandB, compactA, compactB, valueA', valueB', laidA, laidB⟩

theorem factor?_of_scaleFactor (held : List.Forall₂ (Argument.Holds values) arguments constants)
    {factor : UInt64} (h : scaleFactor arguments = .ok factor) :
    Operation.factor? constants = some factor := by
  unfold scaleFactor at h
  unfold Operation.factor?
  cases entry : arguments[2]? with
  | none =>
    have missing : constants[2]? = none := by
      rw [List.getElem?_eq_none_iff] at entry ⊢
      exact List.Forall₂.length_eq held ▸ entry
    rw [entry] at h
    rw [missing]
    cases h
    rfl
  | some argument =>
    obtain ⟨c, found, holds⟩ := forall₂_getElem? held entry
    rw [entry] at h
    rw [found]
    cases holds with
    | tensor => cases h
    | constant =>
      cases c <;> cases h <;> rfl

/-- Scaling leaves the tensor alone or multiplies it by a constant of one number. -/
theorem ensures_scale (model : values.Models final) {x : TensorId} {b : Tensor}
    (value : values.get? x = some b) (compact : b.Compact) {factor : UInt64} :
    Ensures final Good (scale node x factor) fun y =>
      ∃ c, values.get? y = some c ∧ b.scaledBy? factor = some c := by
  unfold scale
  split
  next one => exact .pure ⟨b, value, by rw [Tensor.scaledBy?, if_pos one]⟩
  next other =>
    refine (Ensures.tensorOf x).bind fun record recorded => ?_
    split
    next => exact .refuse _
    next =>
      rw [model.rank_eq value recorded]
      refine (Ensures.ofExcept fun _ => id).bind fun weights scalar => ?_
      refine (ensures_constant model).bind ?_
      rintro z ⟨valueZ, _⟩
      refine (ensures_combine model value valueZ).mono ?_
      rintro y ⟨t, valueT, computed⟩
      exact ⟨t, valueT,
        Tensor.scaledBy?_of_elementWise other compact (mapError_eq_ok_iff.mp scalar) computed⟩

/-- Sums and differences implement the operations whose second operand is scaled. -/
theorem implements_scaled (op : ElementWiseOp) : Implements (scaled op) (Operation.scaled op) := by
  intro final values Good node arguments constants model held good
  refine (ensures_broadcastOperands model held).bind ?_
  rintro ⟨x, y⟩ ⟨a, b, a', b', operandA, operandB, compactA, compactB, valueA, valueB, laidA, laidB⟩
  refine (Ensures.ofExcept fun _ => id).bind fun factor found => ?_
  refine (ensures_scale model valueB (compactB.reshape laidB)).bind ?_
  rintro y' ⟨c', valueC, scaled⟩
  obtain ⟨c, scaled, shape, compactC, laidC⟩ := Tensor.scaledBy?_of_reshape compactB laidB scaled
  refine (ensures_combine model valueA valueC).bind ?_
  rintro z ⟨t, valueT, computed⟩
  have rank : c.rank = b.rank := congrArg List.length shape
  rw [← rank] at laidA laidC
  rw [← shape] at laidC
  obtain ⟨combined, compact⟩ :=
    Tensor.combine?_of_elementWise compactA compactC laidA laidC computed
  refine .bindOutput fun id rest output => good id rest z t output valueT compact ?_
  simp [Operation.scaled, Operation.binary, factor?_of_scaleFactor held found, operandA, operandB,
    scaled, combined]

/-- Products implement the operation. -/
theorem implements_elementProduct :
    Implements elementProduct (Operation.binary (Tensor.combine? .prod)) := by
  intro final values Good node arguments constants model held good
  refine (ensures_broadcastOperands model held).bind ?_
  rintro ⟨x, y⟩ ⟨a, b, a', b', operandA, operandB, compactA, compactB, valueA, valueB, laidA, laidB⟩
  refine (ensures_combine model valueA valueB).bind ?_
  rintro z ⟨t, valueT, computed⟩
  obtain ⟨combined, compact⟩ :=
    Tensor.combine?_of_elementWise compactA compactB laidA laidB computed
  refine .bindOutput fun id rest output => good id rest z t output valueT compact ?_
  simp [Operation.binary, operandA, operandB, combined]

end TensorEngine.Lowering
