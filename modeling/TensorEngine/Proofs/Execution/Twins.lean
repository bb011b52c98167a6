import TensorEngine.Proofs.Lowering.Modes

/-!
# Runs of twins

Networks that are the same but for the targets of joined axes compute the same. On a value that fits
the recorded dimensions, every target that joins the same axes of them is filled by the same shape. A
run on either network therefore computes the same values layer by layer, as long as both go on.

## Main results

* `Layer.Twins.compute_eq`: layers that are twins compute the same
* `EnginePlan.execute_twins`: plans of twins leave the same in the slots
-/

namespace TensorEngine

open Lowering

/-- The extents of a tensor that has elements of at least two bytes are known. -/
theorem Tensor.Compact.known_of_wide {t : Tensor} (h : t.Compact) (wide : 2 ≤ t.dtype.size) :
    t.Known := by
  refine List.map_congr_left fun n member => ?_
  have bytes := h.bytes
  have extent := Shape.le_size h.positive member
  have twice := Nat.mul_le_mul_right t.shape.size wide
  refine Signed.ofUnsigned_of_inRange ?_
  simp only [Unsigned.bound] at bytes
  simp only [Signed.InRange, Signed.least, Signed.greatest]
  omega

/-- On a value that fits the dimensions, a target that joins axes of them lays out the value with its
axes joined. -/
theorem Tensor.reshape_of_flattenTarget {t u : Tensor} {dtype : DType} {dims target : Dims}
    {mode : Bool} {first last : Nat} (compact : t.Compact) (wide : 2 ≤ t.dtype.size)
    (fits : TensorType.Fits ⟨dtype, dims⟩ t) (order : first ≤ last)
    (asked : flattenTarget mode dims first last = .ok target)
    (h : t.reshaped (some target) = .ok u) : t.reshape (t.shape.joined first last) = .ok u := by
  have rank : dims.length = t.shape.length :=
    List.Forall₂.length_eq (Dims.describes_iff.mp fits.shape)
  have within : last < t.shape.length := rank ▸ lt_of_flattenTarget asked
  obtain ⟨-, -, _, reshapes, -⟩ := reshaped_eq_ok_iff.mp h
  have fills := fills_of_flattenTarget order within fits.shape
    (Shape.size_pos_iff.mp compact.positive) asked reshapes.mem_target
  exact reshape_of_fills (compact.known_of_wide wide) fills (size_joined order) h

theorem Tensor.shuffle_reshaping {t u : Tensor} {target : Dims} :
    t.shuffle (.reshaping target) = .ok u ↔ t.reshaped (some target) = .ok u := by
  refine bind_eq_ok_iff.trans ⟨?_, fun h => ⟨t, rfl, bind_eq_ok_iff.mpr ⟨u, h, rfl⟩⟩⟩
  rintro ⟨_, same, h⟩
  cases same
  obtain ⟨_, reshaped, same⟩ := bind_eq_ok_iff.mp h
  cases same
  exact reshaped

namespace Layer

variable {layer layer' : Layer} {types : List TensorType} {values : Values} {t t' : Tensor}

/-- Layers that are twins compute the same from values that fit the records. -/
theorem Twins.compute_eq (twins : Layer.Twins types layer layer') (coherent : layer.Coherent types)
    (agree : values.Agree types) (compact : values.Compact)
    (wide : layer.computes → ∀ type, types[layer.output.index]? = some type → 2 ≤ type.dtype.size)
    (computed : layer.compute values = .ok t) (computed' : layer'.compute values = .ok t') :
    t' = t := by
  obtain ⟨name, inputs, output, kind⟩ := twins
  have operand : ∀ position, layer'.operand values position = layer.operand values position :=
    fun position => by rw [Layer.operand, Layer.operand, inputs]
  have typed := coherent.typed
  unfold compute at computed computed'
  unfold computes at wide
  simp only [operand] at computed'
  generalize layer.kind = source, layer'.kind = other at kind computed computed' wide typed
  cases kind with
  | same => exact Except.ok.inj (computed'.symm.trans computed)
  | @joined x dtype dims target target' first last mode mode' input recorded order asked asked' =>
    obtain ⟨a, read, computed⟩ := bind_eq_ok_iff.mp computed
    obtain ⟨_, read', computed'⟩ := bind_eq_ok_iff.mp computed'
    cases read.symm.trans read'
    -- The operand is a value of the tensor whose axes are joined.
    obtain ⟨id, listed, found⟩ := operand_eq_ok_iff.mp read
    rw [input] at listed
    cases listed
    obtain ⟨type, recorded', fits⟩ := agree x a found
    cases recorded.symm.trans recorded'
    have compactA := compact x a found
    have wideA : 2 ≤ a.dtype.size := by
      obtain ⟨operands, type, known, infers, result⟩ := typed
      rw [input] at known
      obtain ⟨out, rfl, -⟩ := (infers_reshaping_iff recorded known).mp infers
      rw [fits.dtype]
      exact wide rfl ⟨dtype, out⟩ result
    have laid := Tensor.reshape_of_flattenTarget compactA wideA fits order asked
      (Tensor.shuffle_reshaping.mp computed)
    have laid' := Tensor.reshape_of_flattenTarget compactA wideA fits order asked'
      (Tensor.shuffle_reshaping.mp computed')
    exact Except.ok.inj (laid'.symm.trans laid)

end Layer

theorem BuildConfig.wide_of_accepts {config : BuildConfig} {dtype : DType}
    (h : config.accepts dtype) : 2 ≤ dtype.size := by
  cases dtype with
  | f32 | f16 | i64 | i32 => decide
  | u8 => simp [accepts] at h

/-- Runs of layers that are twins, from the same values, end with the same values. -/
theorem runLayers_twins {network : Network} {config : BuildConfig} {plan : EnginePlan}
    (isFor : plan.IsFor network config) (coherent : network.Coherent)
    (words : ∀ type ∈ network.types, type.dims.InWords)
    (kinds : ∀ layer ∈ network.layers, layer.kind.HasWords)
    (constants : ∀ layer ∈ network.layers, ∀ weights, layer.kind = .constant weights →
      weights.Compact)
    {layers layers' : List Layer} (twins : List.Forall₂ (Layer.Twins network.types) layers layers')
    (given : layers ⊆ network.layers) {values final final' : Values}
    (agree : values.Agree network.types) (compact : values.Compact)
    (ran : runLayers layers values = (final, .ok ()))
    (ran' : runLayers layers' values = (final', .ok ())) : final' = final := by
  induction twins generalizing values with
  | nil =>
    cases ran
    cases ran'
    rfl
  | @cons layer layer' layers layers' both _ ih =>
    rw [List.cons_subset] at given
    obtain ⟨t, middle, computed, stored, ran⟩ := runLayers_cons_eq_ok_iff.mp ran
    obtain ⟨t', middle', computed', stored', ran'⟩ := runLayers_cons_eq_ok_iff.mp ran'
    have coherentLayer := coherent.layers layer given.1
    have wide : layer.computes → ∀ type, network.types[layer.output.index]? = some type →
        2 ≤ type.dtype.size := by
      intro computes type recorded
      obtain ⟨output, known, -, accepted⟩ := isFor.layers layer given.1
      cases (Network.types_getElem?_of_tensor known).symm.trans recorded
      exact BuildConfig.wide_of_accepts (accepted computes)
    obtain rfl := both.compute_eq coherentLayer agree compact wide computed computed'
    rw [both.output] at stored'
    cases stored.symm.trans stored'
    have kind := kinds layer given.1
    obtain ⟨type, recorded, fits⟩ := coherentLayer.compute_fits words
      (fun weights constant => by rwa [constant] at kind) agree computed
    exact ih given.2 (agree.store recorded fits stored)
      (compact.store (Layer.compact_of_compute compact (constants layer given.1) computed) stored)
      ran ran'

namespace EnginePlan

variable {network network' : Network} {config config' : BuildConfig}
  {capability capability' : Capability} {plan plan' : EnginePlan}

/-- Plans of twins have the same bindings. -/
theorem bindings_twins (twins : network.Twins network')
    (planned : ofNetwork network config capability = .ok plan)
    (planned' : ofNetwork network' config' capability' = .ok plan') :
    plan'.bindings = plan.bindings := by
  obtain ⟨-, -, -, inputs, outputs, bindInputs, bindOutputs, rfl⟩ := ofNetwork_eq_ok_iff.mp planned
  obtain ⟨-, -, -, inputs', outputs', bindInputs', bindOutputs', rfl⟩ :=
    ofNetwork_eq_ok_iff.mp planned'
  have same : ∀ isInput, planBinding network' isInput = planBinding network isInput := by
    intro isInput
    funext id
    rw [planBinding, planBinding, builtTensor, builtTensor, twins.tensor]
  rw [twins.inputs, same] at bindInputs'
  rw [twins.outputs, same] at bindOutputs'
  cases bindInputs.symm.trans bindInputs'
  cases bindOutputs.symm.trans bindOutputs'
  rfl

/-- The values that are taken from slots with elements have elements. -/
theorem compact_of_takeInputs (isFor : plan.IsFor network config) (coherent : network.Coherent)
    {slots emptied : Slots} {values : Values} (count : slots.length = plan.bindings.length)
    (elements : ∀ t, some t ∈ slots → t.Compact)
    (taken : takeInputs plan.bindings slots plan.noValues = (emptied, values, .ok ())) :
    values.Compact := by
  intro id t found
  by_cases input : id ∈ TensorEngine.inputTensors plan.bindings
  · obtain ⟨b, member, rfl⟩ := List.mem_map.mp input
    obtain ⟨member, isInput⟩ := List.mem_filter.mp member
    obtain ⟨slot, bound⟩ := List.mem_iff_getElem?.mp member
    obtain ⟨t', held, -, value⟩ :=
      get?_of_takeInputs count (isFor.inputTensors_nodup coherent) taken bound isInput
    cases found.symm.trans value
    exact elements t (List.mem_of_getElem? held)
  · have untouched : (takeInputs plan.bindings slots plan.noValues).2.1.get? id =
        plan.noValues.get? id := get?_of_takeInputs_of_not_mem input
    rw [taken, noValues, Values.get?_replicate] at untouched
    cases found.symm.trans untouched

/-- Executions of plans of twins that succeed leave the same in the slots. -/
theorem execute_twins (twins : network.Twins network') (coherent : network.Coherent)
    (words : network.InWords) (planned : ofNetwork network config capability = .ok plan)
    (planned' : ofNetwork network' config' capability' = .ok plan') {slots filled filled' : Slots}
    (elements : ∀ t, some t ∈ slots → t.Compact)
    (done : plan.execute slots = (filled, .ok ()))
    (done' : plan'.execute slots = (filled', .ok ())) : filled' = filled := by
  have isFor := isFor_of_ofNetwork planned
  have isFor' := isFor_of_ofNetwork planned'
  obtain ⟨count, emptied, given, values, taken, ran, filling⟩ := execute_eq_ok_iff.mp done
  obtain ⟨-, emptied', given', values', taken', ran', filling'⟩ := execute_eq_ok_iff.mp done'
  have noValues : plan'.noValues = plan.noValues := by
    rw [EnginePlan.noValues, EnginePlan.noValues, isFor.planned, isFor'.planned, twins.tensors]
  rw [bindings_twins twins planned planned'] at taken' filling'
  rw [noValues] at taken'
  cases taken.symm.trans taken'
  rw [isFor.planned] at ran
  rw [isFor'.planned] at ran'
  have typeWords : ∀ type ∈ network.types, type.dims.InWords := by
    intro type member
    obtain ⟨t, listed, rfl⟩ := List.mem_map.mp member
    exact words.tensors t listed
  have kinds : ∀ layer ∈ network.layers, layer.kind.HasWords := by
    intro layer member
    have kind := (words.layers layer member).kind
    cases constant : layer.kind <;> rw [constant] at kind
    · exact kind.shape
    all_goals exact kind
  have agree : (takeInputs plan.bindings slots plan.noValues).2.1.Agree network.types :=
    isFor.agree_takeInputs (List.Subset.refl _) (.replicate _)
  rw [taken] at agree
  obtain rfl := runLayers_twins isFor coherent typeWords kinds twins.constants twins.layers
    (List.Subset.refl _) agree (compact_of_takeInputs isFor coherent count elements taken) ran ran'
  exact (Prod.mk.inj (filling'.symm.trans filling)).1

end EnginePlan

end TensorEngine
