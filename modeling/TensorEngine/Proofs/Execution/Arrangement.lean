import TensorEngine.Proofs.Plan.Arrangement

/-!
# Running rearranged networks

Plans of rearranged networks take the same inputs, under the same ids. A run that succeeds gives tensors
the values that they stand for, and a layer of the other network stands for the same as one of this
network. It therefore has a value, so that the run on the other network succeeds as well, and outputs
get the same values.

## Main results

* `takeInputs_eq_of_matches`, `fillOutputs_eq_of_matches`: bindings that match take and fill the same
* `EnginePlan.execute_rearranged`: plans of rearranged networks leave the same in the slots
-/

namespace TensorEngine

variable {network network' : Network} {bindings bindings' : List PlanBinding} {slots : Slots}
  {values values' : Values}

/-- Bindings that match take the same inputs. -/
theorem takeInputs_eq_of_matches
    (matched : List.Forall₂ (PlanBinding.Matches network network') bindings bindings') :
    takeInputs bindings' slots values = takeInputs bindings slots values := by
  induction matched generalizing slots values with
  | nil => rfl
  | @cons b b' bindings bindings' first _ ih =>
    cases slots with
    | nil => rfl
    | cons slot slots =>
      cases isInput : b.spec.isInput with
      | true =>
        have same : b' = b := by
          cases b
          cases b'
          cases first.spec
          cases first.input isInput
          rfl
        simp only [takeInputs, same, ih]
      | false => simp only [takeInputs, first.spec, isInput, ih, Bool.false_eq_true, if_false]

/-- Bindings that match fill their slots alike if outputs that match have the same values. -/
theorem fillOutputs_eq_of_matches
    (matched : List.Forall₂ (PlanBinding.Matches network network') bindings bindings')
    (alike : ∀ x y, network.Matches network' x y → values'.get? y = values.get? x) :
    fillOutputs values' bindings' slots = fillOutputs values bindings slots := by
  induction matched generalizing slots with
  | nil => rfl
  | @cons b b' bindings bindings' first _ ih =>
    cases slots with
    | nil => rfl
    | cons slot slots =>
      cases isInput : b.spec.isInput with
      | true => simp only [fillOutputs, first.spec, isInput, ih, if_true]
      | false =>
        simp only [fillOutputs, first.spec, isInput, ih, alike _ _ (first.output isInput),
          Bool.false_eq_true, if_false]

/-- What is computed in a network is computed in a rearrangement of it. -/
theorem Network.Rearranged.exists_runLayers (h : network.Rearranged network')
    (coherent : network.Coherent) (coherent' : network'.Coherent)
    (length : values.length = network'.tensors.length)
    (ran : runLayers network.layers values = (values', .ok ())) :
    ∃ next, runLayers network'.layers values = (next, .ok ()) ∧
      ∀ x y, network.Matches network' x y → next.get? y = values'.get? x := by
  have computed := computed_of_runLayers (fun layer member => (coherent.layers layer member).older)
    coherent.ascending ran
  -- In the one network, every tensor has the value that it stands for.
  have meant : ∀ x f, network.Denotes x f →
      values'.get? x = f fun k => (network.inputs[k]?).bind values.get? := by
    intro x f denotes
    refine denotes.value (fun k x listed => ?_) computed
    have untouched : (runLayers network.layers values).1.get? x = values.get? x :=
      get?_of_runLayers_of_ne fun layer member same =>
        coherent.apart layer member (same ▸ List.mem_of_getElem? listed)
    rw [ran] at untouched
    rw [untouched, listed, Option.bind_some]
  have inputs : ∀ (k : Nat) x, network'.inputs[k]? = some x →
      values.get? x = (network.inputs[k]?).bind values.get? := by
    intro k x listed
    rw [← h.inputs, listed, Option.bind_some]
  have defined : ∀ layer' ∈ network'.layers, ∃ f t, network'.Denotes layer'.output f ∧
      f (fun k => (network.inputs[k]?).bind values.get?) = some t := by
    intro layer' member
    obtain ⟨layer, listed, matched⟩ := h.exists_layer member
    obtain ⟨f, left, right⟩ := matched.output.meaning
    obtain ⟨t, -, value⟩ := computed layer listed
    exact ⟨f, t, right, (meant _ f left).symm.trans value⟩
  obtain ⟨next, ran', meant'⟩ := coherent'.exists_runLayers length inputs defined
  refine ⟨next, ran', fun x y matched => ?_⟩
  obtain ⟨f, left, right⟩ := matched.meaning
  rw [meant' y f right, meant x f left]

/-- Plans of rearranged networks leave the same in the slots. -/
theorem EnginePlan.execute_rearranged {config : BuildConfig} {plan plan' : EnginePlan}
    {filled : Slots} (h : network.Rearranged network') {allowed allowed' : Network.Edit → Prop}
    (reached : network.Reached allowed) (reached' : network'.Reached allowed')
    (isFor : plan.IsFor network config) (isFor' : plan'.IsFor network' config)
    (matched : List.Forall₂ (PlanBinding.Matches network network') plan.bindings plan'.bindings)
    (done : plan.execute slots = (filled, .ok ())) : plan'.execute slots = (filled, .ok ()) := by
  obtain ⟨count, emptied, given, values, taken, ran, filling⟩ := execute_eq_ok_iff.mp done
  have tensors := h.length_eq reached reached'
  have noValues : plan'.noValues = plan.noValues := by
    rw [EnginePlan.noValues, EnginePlan.noValues, isFor.planned, isFor'.planned, tensors]
  have length : given.length = network'.tensors.length := by
    rw [length_values_of_takeInputs taken, EnginePlan.noValues, List.length_replicate, isFor.planned,
      tensors]
  rw [isFor.planned] at ran
  obtain ⟨values', ran', alike⟩ := h.exists_runLayers reached.coherent reached'.coherent length ran
  refine execute_eq_ok_iff.mpr ⟨?_, emptied, given, values', ?_, isFor'.planned ▸ ran', ?_⟩
  · rw [count, List.Forall₂.length_eq matched]
  · rw [takeInputs_eq_of_matches matched, noValues, taken]
  · rw [fillOutputs_eq_of_matches matched alike, filling]

end TensorEngine
