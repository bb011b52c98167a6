import TensorEngine.Proofs.Execution.Agreement

/-!
# Values of a finished run

A layer reads only what is older than its output, so that later layers do not change what it has
read. After a run that succeeds the values therefore satisfy every layer at once: each layer, run on
the final values, computes the final value of its output.

## Main definitions

* `Values.Models`: values that satisfy a network

## Main results

* `computed_of_runLayers`: layers that have run are satisfied by the final values
* `EnginePlan.models_of_execute`: the values of a run that succeeds, and what the slots hold of them
-/

namespace TensorEngine

/-- Every layer computes the value of its output from the values of its inputs, values fit their
records, and what computes is in single precision. -/
structure Values.Models (values : Values) (network : Network) : Prop where
  computed : ∀ layer ∈ network.layers,
    ∃ t, layer.compute values = .ok t ∧ values.get? layer.output = some t
  agree : values.Agree network.types
  words : ∀ type ∈ network.types, type.dims.InWords
  stored : ∀ layer ∈ network.layers, ∀ weights, layer.kind = .constant weights → weights.Stored
  single : ∀ layer ∈ network.layers, layer.computes →
    ∀ t, values.get? layer.output = some t → t.dtype = .f32

variable {values next : Values}

/-- What a layer computes depends on the values of its inputs only. -/
theorem Layer.compute_congr {layer : Layer}
    (same : ∀ id ∈ layer.inputs, values.get? id = next.get? id) :
    layer.compute values = layer.compute next := by
  have operands : ∀ position, layer.operand values position = layer.operand next position := by
    intro position
    unfold operand
    cases entry : layer.inputs[position]? with
    | none => rfl
    | some id => rw [Option.bind_some, Option.bind_some, same id (List.mem_of_getElem? entry)]
  unfold compute
  simp only [operands]

theorem get?_of_runLayers_of_ne {layers : List Layer} {id : TensorId}
    (other : ∀ layer ∈ layers, layer.output ≠ id) :
    (runLayers layers values).1.get? id = values.get? id := by
  refine runLayers_induction (P := fun next => next.get? id = values.get? id) rfl ?_
  intro layer member t before next _ stored same
  rw [Values.get?_of_store stored, if_neg (other layer member).symm, same]

/-- After layers that stand in the order of their outputs have run, every one of them computes the
final value of its output from the final values of its inputs. -/
theorem computed_of_runLayers {layers : List Layer}
    (older : ∀ layer ∈ layers, ∀ id ∈ layer.inputs, id.index < layer.output.index)
    (ascending : layers.Pairwise fun a b => a.output.index < b.output.index)
    (ran : runLayers layers values = (next, .ok ())) :
    ∀ layer ∈ layers, ∃ t, layer.compute next = .ok t ∧ next.get? layer.output = some t := by
  induction layers generalizing values with
  | nil => exact nofun
  | cons layer layers ih =>
    rw [List.forall_mem_cons] at older ⊢
    rw [List.pairwise_cons] at ascending
    obtain ⟨t, middle, computed, stored, later⟩ := runLayers_cons_eq_ok_iff.mp ran
    refine ⟨⟨t, ?_, ?_⟩, ih older.2 ascending.2 later⟩
    · have kept : ∀ id ∈ layer.inputs, values.get? id = next.get? id := by
        intro id read
        have untouched : (runLayers layers middle).1.get? id = middle.get? id :=
          get?_of_runLayers_of_ne fun other member same =>
            Nat.lt_asymm (older.1 id read) (same ▸ ascending.1 other member)
        have different : id ≠ layer.output := by
          rintro rfl
          exact Nat.lt_irrefl _ (older.1 _ read)
        rw [later] at untouched
        rw [untouched, Values.get?_of_store stored, if_neg different]
      rw [← computed, Layer.compute_congr kept]
    · have untouched : (runLayers layers middle).1.get? layer.output = middle.get? layer.output :=
        get?_of_runLayers_of_ne fun other member same =>
          Nat.lt_irrefl _ (same ▸ ascending.1 other member)
      rw [later] at untouched
      rw [untouched, Values.get?_of_store stored, if_pos rfl]

/-- A run that succeeds has values that satisfy the network. Inputs are the tensors that their slots
held, and the slots of outputs hold the values of their tensors. -/
theorem EnginePlan.models_of_execute {network : Network} {config : BuildConfig} {plan : EnginePlan}
    {slots filled : Slots} (isFor : plan.IsFor network config) (coherent : network.Coherent)
    (words : network.InWords) (single : config.allowHalf = false)
    (done : plan.execute slots = (filled, .ok ())) :
    ∃ values : Values, values.Models network ∧
      ∀ (slot : Nat) b, plan.bindings[slot]? = some b → ∃ t, values.get? b.tensor = some t ∧
        if b.spec.isInput then slots[slot]? = some (some t) else filled[slot]? = some (some t) := by
  obtain ⟨count, emptied, given, values, taken, ran, filling⟩ := execute_eq_ok_iff.mp done
  rw [isFor.planned] at ran
  have typeWords : ∀ type ∈ network.types, type.dims.InWords := by
    intro type member
    obtain ⟨t, listed, rfl⟩ := List.mem_map.mp member
    exact words.tensors t listed
  have stored : ∀ layer ∈ network.layers, ∀ weights, layer.kind = .constant weights →
      weights.Stored := by
    intro layer member weights constant
    have kind := (words.layers layer member).kind
    rwa [constant] at kind
  have kinds : ∀ layer ∈ network.layers, layer.kind.HasWords := by
    intro layer member
    have kind := (words.layers layer member).kind
    cases constant : layer.kind <;> rw [constant] at kind
    · exact kind.shape
    all_goals exact kind
  have agree : values.Agree network.types := by
    have start : (takeInputs plan.bindings slots plan.noValues).2.1.Agree network.types :=
      isFor.agree_takeInputs (List.Subset.refl _) (.replicate _)
    rw [taken] at start
    have kept := coherent.agree_runLayers typeWords kinds (List.Subset.refl _) start
    rwa [ran] at kept
  have computed := computed_of_runLayers (fun layer member => (coherent.layers layer member).older)
    coherent.ascending ran
  refine ⟨values, ⟨computed, agree, typeWords, stored, ?_⟩, ?_⟩
  · intro layer member computes t value
    obtain ⟨type, recorded, fits⟩ := agree layer.output t value
    exact fits.dtype.trans (isFor.dtype_of_computes single member computes recorded)
  · intro slot b bound
    have outcome := getElem?_of_fillOutputs (length_eq_of_takeInputs count taken) filling bound
    by_cases isInput : b.spec.isInput = true
    · obtain ⟨t, held, -, value⟩ :=
        get?_of_takeInputs count (isFor.inputTensors_nodup coherent) taken bound isInput
      have input : b.tensor ∈ network.inputs := by
        have listed := (isFor.binds (List.mem_of_getElem? bound)).1
        rwa [if_pos isInput] at listed
      -- No layer writes to an input, so its value is still the one that was taken.
      have untouched : (runLayers network.layers given).1.get? b.tensor = given.get? b.tensor :=
        get?_of_runLayers_of_ne fun layer member same => coherent.apart layer member (same ▸ input)
      rw [ran] at untouched
      exact ⟨t, untouched.trans value, by rwa [if_pos isInput]⟩
    · rw [if_neg isInput] at outcome
      obtain ⟨t, value, held⟩ := outcome
      exact ⟨t, value, by rwa [if_neg isInput]⟩

end TensorEngine
