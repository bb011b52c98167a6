import TensorEngine.Lowering.Products
import TensorEngine.Proofs.Execution.Products
import TensorEngine.Proofs.Lowering.Steps
import TensorEngine.Proofs.Lowering.Targets

/-!
# Rules for matrix products

A rule for products lays its operands out for one matrix product layer, and lays the result of the
layer out again. It implements the product of operands of any rank.

## Main results

* `ensures_stackedProduct`: operands of rank at least two
* `implements_matmul`, `implements_productOfRank`: the rules implement their operations
-/

namespace TensorEngine.Lowering

open Program

variable {final : Network} {values : Values} {Good : ValueId → TensorId → Prop} {node : Node}
  {arguments : List Argument} {constants : List Constant} {x y : TensorId} {a b t : Tensor}

theorem ensures_requireFloatingPoint :
    Ensures final Good (requireFloatingPoint x) fun _ => True := by
  refine (Ensures.tensorOf x).bind fun record _ => ?_
  dsimp only
  split
  next => exact .pure trivial
  next => exact .refuse _

/-- The operands of a product have the values of the arguments. -/
theorem ensures_factors (model : values.Models final)
    (held : List.Forall₂ (Argument.Holds values) arguments constants) :
    Ensures final Good (factors arguments) fun operands =>
      ∃ a b, Operation.operand? constants 0 = some a ∧ Operation.operand? constants 1 = some b ∧
        a.Compact ∧ b.Compact ∧ values.get? operands.1 = some a ∧
        values.get? operands.2 = some b := by
  refine (ensures_operandAt model held).bind ?_
  rintro x ⟨a, valueA, compactA, operandA⟩
  refine (ensures_operandAt model held).bind ?_
  rintro y ⟨b, valueB, compactB, operandB⟩
  refine ensures_requireFloatingPoint.bind fun _ _ => ?_
  refine ensures_requireFloatingPoint.bind fun _ _ => ?_
  exact .pure ⟨a, b, operandA, operandB, compactA, compactB, valueA, valueB⟩

/-! ### Folded stacks -/

/-- A stack is folded by joining all axes but the last one, which unfolding gets back. -/
theorem folding_eq_ok {stack : Shape} {m k : Nat} {plan : Folding}
    (h : folding (Shape.toDims (stack ++ [m, k])) = .ok plan) :
    plan.folded = Shape.toDims [Shape.size (stack ++ [m]), k] ∧
      plan.unfolded = Shape.toDims (stack ++ [m]) ++ [-1] := by
  have parts : Shape.toDims (stack ++ [m, k]) = Shape.toDims (stack ++ [m]) ++ [(k : Int)] := by
    simp [Shape.toDims]
  obtain ⟨last, difference, h⟩ := bind_eq_ok_iff.mp h
  -- The last axis is the one behind the stack and the rows.
  have last_eq : last = (Shape.toDims (stack ++ [m])).length := by
    unfold Unsigned.sub at difference
    split at difference
    next =>
      cases difference
      rw [parts]
      simp
    next => cases difference
  obtain ⟨rows, cut, h⟩ := bind_eq_ok_iff.mp h
  obtain ⟨-, rfl⟩ := slice_eq_ok_iff.mp cut
  have rows_eq : (List.drop 0 (Shape.toDims (stack ++ [m, k]))).take (last - 0) =
      Shape.toDims (stack ++ [m]) := by
    rw [parts, last_eq, List.drop_zero, Nat.sub_zero, List.take_left']
    rfl
  rw [rows_eq] at h
  split at h
  next => cases h
  next count product =>
    obtain ⟨columns, found, result⟩ := bind_eq_ok_iff.mp h
    rw [entry_eq_ok_iff, parts, last_eq, List.getElem?_concat_length] at found
    cases found
    cases result
    rw [(Signed.product?_eq_some product).1, Dims.prod_toDims]
    exact ⟨rfl, rfl⟩

/-- A stack times one matrix gives the product. -/
theorem ensures_foldedProduct (model : values.Models final) (compactA : a.Compact)
    (compactB : b.Compact) (valueA : values.get? x = some a) (valueB : values.get? y = some b)
    {dtype : DType} {dims : Dims} (recorded : final.types[x.index]? = some ⟨dtype, dims⟩)
    (rankA : 2 ≤ a.rank) (rankB : b.rank = 2) :
    Ensures final Good (foldedProduct node x dims y) fun z =>
      ∃ t, values.get? z = some t ∧ t.Compact ∧ a.product? b = some t := by
  obtain ⟨stack, m, k, shapeA⟩ := Shape.exists_matrix rankA
  refine ensures_requireStatic.bind fun _ static => ?_
  rw [model.dims_eq valueA recorded static, shapeA]
  refine (Ensures.ofExcept fun _ => id).bind fun plan folded => ?_
  obtain ⟨folded_eq, unfolded_eq⟩ := folding_eq_ok folded
  have sizes : Shape.size [Shape.size (stack ++ [m]), k] = a.shape.size := by
    rw [shapeA, show stack ++ [m, k] = (stack ++ [m]) ++ [k] by simp]
    exact (Shape.size_append _ _).symm
  have positive : ∀ n ∈ [Shape.size (stack ++ [m]), k], 0 < n :=
    Shape.size_pos_iff.mp (sizes ▸ compactA.positive)
  rw [folded_eq, unfolded_eq]
  refine (ensures_reshape model valueA compactA (fun _ => .literal positive) sizes).bind ?_
  rintro x' ⟨a', valueA', laidA⟩
  refine (ensures_multiply model valueA' valueB).bind ?_
  rintro z ⟨u, valueU, computed⟩
  obtain ⟨n, shapeU, compactU, product⟩ :=
    Tensor.product?_of_folded compactA compactB shapeA rankB laidA computed
  have unfolds : stack ++ [m, n] = (stack ++ [m]) ++ [n] := by simp
  have sizes' : Shape.size (stack ++ [m, n]) = u.shape.size := by
    rw [unfolds, shapeU]
    exact Shape.size_append _ _
  have rows_pos : ∀ d ∈ stack ++ [m], 0 < d :=
    Shape.size_pos_iff.mp (positive _ List.mem_cons_self)
  refine (ensures_reshape model valueU compactU (fun _ => ?_) sizes').mono
    fun w ⟨t, valueT, laid⟩ => ⟨t, valueT, compactU.reshape laid, product t laid⟩
  rw [unfolds]
  refine .of_entries (List.rel_append ?_ (.cons (.inl rfl) .nil))
  exact List.forall₂_map_left_iff.mpr (List.forall₂_same.mpr fun d member =>
    .inr ⟨by exact_mod_cast rows_pos d member, rfl⟩)

/-- Operands of rank at least two are multiplied. -/
theorem ensures_stackedProduct (model : values.Models final) (compactA : a.Compact)
    (compactB : b.Compact) (valueA : values.get? x = some a) (valueB : values.get? y = some b)
    (rankA : 2 ≤ a.rank) (rankB : 2 ≤ b.rank) :
    Ensures final Good (stackedProduct node x y) fun z =>
      ∃ t, values.get? z = some t ∧ t.Compact ∧ a.product? b = some t := by
  refine (Ensures.dimsOf x).bind ?_
  rintro dimsA ⟨_, recordedA⟩
  refine (Ensures.dimsOf y).bind ?_
  rintro dimsB ⟨_, recordedB⟩
  have rankA_eq := model.rank_eq valueA recordedA
  have rankB_eq := model.rank_eq valueB recordedB
  split
  next fold =>
    exact ensures_foldedProduct model compactA compactB valueA valueB recordedA rankA
      (rankB_eq.symm.trans fold.2)
  next =>
    rw [rankA_eq, rankB_eq]
    refine (ensures_expandRank model valueA compactA).bind ?_
    rintro x' ⟨a', valueA', laidA⟩
    refine (ensures_expandRank model valueB compactB).bind ?_
    rintro y' ⟨b', valueB', laidB⟩
    refine (ensures_multiply model valueA' valueB').mono fun z ⟨t, valueT, computed⟩ => ?_
    obtain ⟨product, compact⟩ :=
      Tensor.product?_of_padded compactA compactB rankA rankB laidA laidB computed
    exact ⟨t, valueT, compact, product⟩

/-! ### Vectors -/

/-- A lifted operand is laid out under the shape that fills the target. -/
theorem ensures_lift (model : values.Models final) (value : values.get? x = some t)
    (compact : t.Compact) {dims target : Dims} {part : String} {shape : Shape}
    (fills : Shape.Fills t.shape 0 target shape) (sizes : shape.size = t.shape.size) :
    Ensures final Good (lift node x dims target part) fun y =>
      ∃ u, values.get? y = some u ∧ t.reshape shape = .ok u :=
  ensures_requireStatic.bind fun _ _ => ensures_reshape model value compact (fun _ => fills) sizes

theorem withoutPlaces_append {places : List Nat} {xs ys : Dims}
    (later : ∀ place ∈ places, xs.length ≤ place) : withoutPlaces places (xs ++ ys) =
      xs ++ ((ys.zipIdx xs.length).filter fun (_, place) => !places.contains place).map (·.1) := by
  have kept : xs.zipIdx.filter (fun (_, place) => !places.contains place) = xs.zipIdx := by
    refine List.filter_eq_self.mpr fun entry member => ?_
    obtain ⟨-, within, -⟩ := List.mem_zipIdx member
    have absent : entry.2 ∉ places := fun listed => by
      have := later entry.2 listed
      omega
    simpa using absent
  rw [withoutPlaces, List.zipIdx_append, List.filter_append, kept, List.map_append, Nat.zero_add]
  simp

/-- Leaving out the extents of one that lifting has added leaves the others. -/
theorem squeezedDims_eq_ok {stack : Shape} {m n : Nat} {liftedLhs liftedRhs : Bool} {target : Dims}
    (h : squeezedDims (Shape.toDims (stack ++ [m, n])) liftedLhs liftedRhs = .ok target) :
    target = Shape.toDims (stack ++ (if liftedLhs then [] else [m]) ++
      (if liftedRhs then [] else [n])) := by
  have parts : Shape.toDims (stack ++ [m, n]) = stack.toDims ++ [(m : Int), (n : Int)] := by
    simp [Shape.toDims]
  have row : (Unsigned.sub (stack.toDims ++ [(m : Int), (n : Int)]).length 2 :
      Except RuleError Nat) = .ok stack.toDims.length := by simp [Unsigned.sub]
  have column : (Unsigned.sub (stack.toDims ++ [(m : Int), (n : Int)]).length 1 :
      Except RuleError Nat) = .ok (stack.toDims.length + 1) := by simp [Unsigned.sub]
  rw [parts] at h
  unfold squeezedDims at h
  rw [show Dims.rank _ = _ from rfl, row, column] at h
  have places : target = withoutPlaces ((if liftedLhs then [stack.toDims.length] else []) ++
      (if liftedRhs then [stack.toDims.length + 1] else []))
      (stack.toDims ++ [(m : Int), (n : Int)]) := by
    cases liftedLhs <;> cases liftedRhs <;> exact (Except.ok.inj h).symm
  rw [places, withoutPlaces_append (by cases liftedLhs <;> cases liftedRhs <;> simp)]
  cases liftedLhs <;> cases liftedRhs <;> simp [Shape.toDims]

/-- A left factor that may be a vector is laid out as rows. -/
theorem ensures_liftLhs (model : values.Models final) (value : values.get? x = some t)
    (compact : t.Compact) {dims : Dims} {part : String} (vector : t.rank = 1) :
    Ensures final Good (lift node x dims [1, -1] part) fun y =>
      ∃ u, values.get? y = some u ∧ t.reshape t.shape.asRow = .ok u := by
  obtain ⟨k, shape⟩ := List.length_eq_one_iff.mp vector
  rw [shape]
  exact ensures_lift model value compact (.fixed Nat.one_pos (.inferred .nil))
    (by rw [shape]; exact Nat.one_mul _)

/-- A right factor that may be a vector is laid out as columns. -/
theorem ensures_liftRhs (model : values.Models final) (value : values.get? x = some t)
    (compact : t.Compact) {dims : Dims} {part : String} (vector : t.rank = 1) :
    Ensures final Good (lift node x dims [-1, 1] part) fun y =>
      ∃ u, values.get? y = some u ∧ t.reshape t.shape.asColumn = .ok u := by
  obtain ⟨k, shape⟩ := List.length_eq_one_iff.mp vector
  rw [shape]
  exact ensures_lift model value compact (.inferred (.fixed Nat.one_pos .nil))
    (by rw [shape]; rfl)

/-- The product of operands of any rank implements the operation. -/
theorem implements_matmul : Implements matmul (Operation.binary Tensor.product?) := by
  intro final values Good node arguments constants model held good
  refine (ensures_factors model held).bind ?_
  rintro ⟨x, y⟩ ⟨a, b, operandA, operandB, compactA, compactB, valueA, valueB⟩
  refine (Ensures.dimsOf x).bind ?_
  rintro dimsA ⟨_, recordedA⟩
  refine (Ensures.dimsOf y).bind ?_
  rintro dimsB ⟨_, recordedB⟩
  have rankA : dimsA.rank = a.rank := model.rank_eq valueA recordedA
  have rankB : dimsB.rank = b.rank := model.rank_eq valueB recordedB
  rw [rankA, rankB]
  split
  next => exact .refuse _
  next axes =>
    -- Each operand is lifted if it is a vector and taken as it is otherwise; either way it has the
    -- shape of its row or column form.
    refine Ensures.ite_bind (ensures_liftLhs model valueA compactA) (fun other => ?_) ?_
    · exact .pure ⟨a, valueA, by rw [Shape.asRow_of_rank other]; exact Tensor.reshape_self⟩
    rintro x' ⟨a', valueA', laidA⟩
    refine Ensures.ite_bind (ensures_liftRhs model valueB compactB) (fun other => ?_) ?_
    · exact .pure ⟨b, valueB, by rw [Shape.asColumn_of_rank other]; exact Tensor.reshape_self⟩
    rintro y' ⟨b', valueB', laidB⟩
    have rankA' : 2 ≤ a'.rank := by
      rw [Tensor.rank, (Tensor.reshape_eq_ok_iff.mp laidA).2.1]
      exact Shape.two_le_rank_asRow fun scalar => axes (.inl scalar)
    have rankB' : 2 ≤ b'.rank := by
      rw [Tensor.rank, (Tensor.reshape_eq_ok_iff.mp laidB).2.1]
      exact Shape.two_le_rank_asColumn fun scalar => axes (.inr scalar)
    refine (ensures_stackedProduct model (compactA.reshape laidA) (compactB.reshape laidB) valueA'
      valueB' rankA' rankB').bind ?_
    rintro z ⟨u, valueU, compactU, product⟩
    obtain ⟨stack, m, n, shapeU, sizes, squeezes⟩ :=
      Tensor.product?_of_lifted laidA laidB product compactU
    -- Whether or not axes are squeezed out again, the output is a layout of the stacked product.
    have bound : ∀ {w : TensorId} {t : Tensor}, values.get? w = some t →
        u.reshape (stack ++ (if a.rank = 1 then [] else [m]) ++
          (if b.rank = 1 then [] else [n])) = .ok t →
        Ensures final Good (bindOutput node w) fun _ => True := fun {w t} valueT laid =>
      .bindOutput fun id rest output => good id rest w t output valueT (compactU.reshape laid) <| by
        simp [Operation.binary, operandA, operandB, squeezes t laid]
    split
    next vectors =>
      refine (Ensures.dimsOf z).bind ?_
      rintro dims ⟨_, recorded⟩
      refine ensures_requireStatic.bind fun _ static => ?_
      refine (Ensures.ofExcept fun _ => id).bind fun target squeezed => ?_
      rw [model.dims_eq valueU recorded static, shapeU] at squeezed
      have target_eq := squeezedDims_eq_ok squeezed
      simp only [decide_eq_true_eq] at target_eq
      rw [target_eq]
      have positive := Shape.size_pos_iff.mp (sizes ▸ compactU.positive)
      refine (ensures_reshape model valueU compactU (fun _ => .literal positive) sizes).bind ?_
      rintro w ⟨t, valueT, laid⟩
      exact bound valueT laid
    next matrices =>
      refine bound valueU ?_
      rw [if_neg (mt .inl matrices), if_neg (mt .inr matrices), List.append_assoc,
        List.singleton_append, ← shapeU]
      exact Tensor.reshape_self

/-- Products of operands of one rank implement the operation. -/
theorem implements_productOfRank {operation : String} {rank : Nat} (two_le : 2 ≤ rank) :
    Implements (productOfRank operation rank) (Operation.binary (Tensor.productOfRank? rank)) := by
  intro final values Good node arguments constants model held good
  have ensures_rank : ∀ {x : TensorId} {t : Tensor}, values.get? x = some t →
      Ensures final Good (requireRank operation rank x) fun _ => t.rank = rank := by
    intro x t value
    refine (Ensures.dimsOf x).bind ?_
    rintro dims ⟨_, recorded⟩
    rw [model.rank_eq value recorded]
    split
    next same => exact .pure same
    next => exact .refuse _
  refine (ensures_factors model held).bind ?_
  rintro ⟨x, y⟩ ⟨a, b, operandA, operandB, compactA, compactB, valueA, valueB⟩
  refine (ensures_rank valueA).bind fun _ rankA => ?_
  refine (ensures_rank valueB).bind fun _ rankB => ?_
  refine (ensures_multiply model valueA valueB).bind ?_
  rintro z ⟨t, valueT, computed⟩
  have high : max a.rank b.rank = rank := by rw [rankA, rankB, Nat.max_self]
  obtain ⟨product, compact⟩ := Tensor.product?_of_padded compactA compactB (rankA ▸ two_le)
    (rankB ▸ two_le) (by rw [high, Shape.padded_of_le rankA.ge]; exact Tensor.reshape_self)
    (by rw [high, Shape.padded_of_le rankB.ge]; exact Tensor.reshape_self) computed
  refine .bindOutput fun id rest output => good id rest z t output valueT compact ?_
  simp [Operation.binary, operandA, operandB, Tensor.productOfRank?, rankA, rankB, product]

end TensorEngine.Lowering
