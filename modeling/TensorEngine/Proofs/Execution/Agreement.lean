import TensorEngine.Proofs.Execution.Kernels
import TensorEngine.Proofs.Execution.Values
import TensorEngine.Proofs.Network.Words
import TensorEngine.Proofs.Plan.Built

/-!
# Values have their recorded types

A network records an element type and dimensions for every tensor when it is built, with some
extents unknown. Every value that a run of its plan computes has that element type and a shape that
those dimensions describe, however far the run gets.

## Main definitions

* `Values.Agree`: values that fit the recorded types

## Main results

* `Layer.Coherent.compute_fits`: what a layer computes fits the type of its output
* `values_fit_records`: all values of a run fit the records of the network
-/

namespace TensorEngine

/-- Every known value fits the type that is recorded for its tensor. -/
def Values.Agree (values : Values) (types : List TensorType) : Prop :=
  ∀ id t, values.get? id = some t → ∃ type, types[id.index]? = some type ∧ type.Fits t

variable {values next : Values} {types : List TensorType} {t : Tensor}

theorem Values.Agree.store {id : TensorId} {type : TensorType} (h : values.Agree types)
    (known : types[id.index]? = some type) (fits : type.Fits t)
    (stored : values.store id t = .ok next) : next.Agree types := by
  intro other u found
  rw [get?_of_store stored] at found
  split at found
  next same =>
    cases found
    exact ⟨type, same ▸ known, fits⟩
  next => exact h other u found

theorem Values.Agree.replicate (count : Nat) :
    Values.Agree (List.replicate count none) types := by
  intro id t found
  rw [get?_replicate] at found
  cases found

namespace Layer

variable {layer : Layer}

theorem operand_eq_ok_iff {position : Nat} : layer.operand values position = .ok t ↔
    ∃ id, layer.inputs[position]? = some id ∧ values.get? id = some t := by
  rw [← Option.bind_eq_some_iff]
  unfold operand
  split
  next u found => rw [found, Except.ok.injEq, Option.some.injEq]
  next missing => simp [missing]

theorem operand_fits {position : Nat} {operands : List TensorType} {type : TensorType}
    (known : List.Forall₂ (fun id type => types[id.index]? = some type) layer.inputs operands)
    (agree : values.Agree types) (operand : operands[position]? = some type)
    (h : layer.operand values position = .ok t) : type.Fits t := by
  obtain ⟨id, entry, found⟩ := operand_eq_ok_iff.mp h
  obtain ⟨_, operand', recorded⟩ := forall₂_getElem? known entry
  cases operand.symm.trans operand'
  obtain ⟨_, recorded', fits⟩ := agree id t found
  cases recorded.symm.trans recorded'
  exact fits

theorem constant_fits {weights : Tensor} (words : Shape.InWords weights.shape) :
    TensorType.Fits ⟨weights.dtype, .ofShape weights.shape⟩ weights := by
  refine ⟨rfl, Dims.describes_iff.mpr (List.forall₂_map_left_iff.mpr ?_)⟩
  refine List.forall₂_same.mpr fun n member => ?_
  -- An extent whose signed reading is negative is recorded as unknown, any other is its own
  -- reading.
  rcases Int.lt_or_le (Signed.ofUnsigned n) 0 with negative | nonneg
  · exact .inl negative
  · exact .inr (Signed.ofUnsigned_of_nonneg (words n member) nonneg)

/-- What a layer computes from values that fit the recorded types fits the type of its output. -/
theorem Coherent.compute_fits (coherent : layer.Coherent types)
    (words : ∀ type ∈ types, type.dims.InWords)
    (constant : ∀ weights, layer.kind = .constant weights → Shape.InWords weights.shape)
    (agree : values.Agree types) (computed : layer.compute values = .ok t) :
    ∃ type, types[layer.output.index]? = some type ∧ type.Fits t := by
  obtain ⟨operands, type, known, infers, output⟩ := coherent.typed
  have operandWords : ∀ operand ∈ operands, operand.dims.InWords := by
    intro operand member
    obtain ⟨_, -, entry⟩ := forall₂_mem_right known member
    exact words operand (List.mem_of_getElem? entry)
  refine ⟨type, output, ?_⟩
  unfold compute at computed
  generalize layer.kind = kind at infers computed constant
  cases infers with
  | constant =>
    cases computed
    exact constant_fits (constant t rfl)
  | shuffle inferred =>
    obtain ⟨a, first, result⟩ := bind_eq_ok_iff.mp computed
    have fits := operand_fits known agree rfl first
    exact Tensor.shuffle_fits (operandWords _ List.mem_cons_self) fits inferred result
  | matrixMultiply inferred =>
    obtain ⟨a, first, computed⟩ := bind_eq_ok_iff.mp computed
    obtain ⟨b, second, result⟩ := bind_eq_ok_iff.mp computed
    have fitsA := operand_fits known agree rfl first
    have fitsB := operand_fits known agree rfl second
    exact Tensor.matrixMultiply_fits (operandWords _ List.mem_cons_self)
      (operandWords _ (List.mem_cons_of_mem _ List.mem_cons_self)) fitsA fitsB inferred result
  | elementWise inferred =>
    obtain ⟨a, first, computed⟩ := bind_eq_ok_iff.mp computed
    obtain ⟨b, second, result⟩ := bind_eq_ok_iff.mp computed
    have fitsA := operand_fits known agree rfl first
    have fitsB := operand_fits known agree rfl second
    exact Tensor.elementWise_fits (operandWords _ List.mem_cons_self)
      (operandWords _ (List.mem_cons_of_mem _ List.mem_cons_self)) fitsA fitsB inferred result

end Layer

namespace EnginePlan.IsFor

variable {network : Network} {config : BuildConfig} {plan : EnginePlan} {slots : Slots}

/-- A plan takes an input for each input of its network. -/
theorem inputTensors_perm (h : plan.IsFor network config) :
    plan.inputTensors.Perm network.inputs := by
  obtain ⟨inputs, outputs, bindInputs, bindOutputs, ordered⟩ := h.bindings
  -- All bindings of inputs are taken and none of outputs; sorting only rearranges them.
  have taken : inputs.filter (·.spec.isInput) = inputs := by
    refine List.filter_eq_self.mpr fun b member => ?_
    obtain ⟨_, -, bound⟩ := forall₂_mem_right bindInputs member
    exact bound.isInput
  have left : outputs.filter (·.spec.isInput) = [] := by
    refine List.filter_eq_nil_iff.mpr fun b member => ?_
    obtain ⟨_, -, bound⟩ := forall₂_mem_right bindOutputs member
    simp [bound.isInput]
  have tensors : inputs.map (·.tensor) = network.inputs := by
    refine List.forall₂_eq_eq_eq ▸ List.forall₂_map_left_iff.mpr (bindInputs.flip.imp ?_)
    exact fun _ _ bound => bound.tensor
  rw [inputTensors, ordered, ← tensors]
  refine List.Perm.map _ (((sorted_perm _ (inputs ++ outputs)).filter _).trans ?_)
  rw [List.filter_append, taken, left, List.append_nil]

theorem inputTensors_nodup (h : plan.IsFor network config) (coherent : network.Coherent) :
    plan.inputTensors.Nodup :=
  h.inputTensors_perm.nodup_iff.mpr (List.nodup_append.mp coherent.distinct).1

/-- Taking inputs keeps all values fitting. -/
theorem agree_takeInputs (h : plan.IsFor network config) {bindings : List PlanBinding}
    (bound : bindings ⊆ plan.bindings) (agree : values.Agree network.types) :
    (takeInputs bindings slots values).2.1.Agree network.types := by
  refine takeInputs_induction (P := fun values => values.Agree network.types) agree ?_
  intro b member _ t values next fits stored agree
  obtain ⟨-, record⟩ := h.binds (bound member)
  simp only [BindingSpec.fits, Bool.and_eq_true, decide_eq_true_eq] at fits
  exact agree.store (Network.types_getElem?_of_tensor record) ⟨fits.1, fits.2⟩ stored

end EnginePlan.IsFor

/-- Running layers keeps all values fitting. -/
theorem Network.Coherent.agree_runLayers {network : Network} (coherent : network.Coherent)
    (words : ∀ type ∈ network.types, type.dims.InWords)
    (kinds : ∀ layer ∈ network.layers, layer.kind.HasWords) {layers : List Layer}
    (given : layers ⊆ network.layers) (agree : values.Agree network.types) :
    (runLayers layers values).1.Agree network.types := by
  refine runLayers_induction (P := fun values => values.Agree network.types) agree ?_
  intro layer member t values next computed stored agree
  have kind := kinds layer (given member)
  obtain ⟨type, recorded, fits⟩ := (coherent.layers layer (given member)).compute_fits words
    (fun weights constant => by rwa [constant] at kind) agree computed
  exact agree.store recorded fits stored

/-- The values that are known once a run has taken the inputs of the first `taken` slots and run the
first `ran` layers, or that were known when it failed before. -/
def EnginePlan.valuesAfter (plan : EnginePlan) (slots : Slots) (taken ran : Nat) : Values :=
  (runLayers (plan.network.layers.take ran)
    (takeInputs (plan.bindings.take taken) slots plan.noValues).2.1).1

theorem EnginePlan.IsFor.agree_valuesAfter {network : Network} {config : BuildConfig}
    {plan : EnginePlan} (h : plan.IsFor network config) (coherent : network.Coherent)
    (words : ∀ type ∈ network.types, type.dims.InWords)
    (kinds : ∀ layer ∈ network.layers, layer.kind.HasWords) (slots : Slots) (taken ran : Nat) :
    (plan.valuesAfter slots taken ran).Agree network.types := by
  unfold valuesAfter
  rw [h.planned]
  refine coherent.agree_runLayers words kinds (List.take_subset _ _) ?_
  exact h.agree_takeInputs (List.take_subset _ _) (.replicate _)

theorem EnginePlan.values_of_execute {plan : EnginePlan} {slots filled : Slots}
    (h : plan.execute slots = (filled, .ok ())) {slot : Nat} {b : PlanBinding}
    (bound : plan.bindings[slot]? = some b) (isOutput : b.spec.isInput = false) :
    ∃ t, (plan.valuesAfter slots plan.bindings.length plan.network.layers.length).get? b.tensor =
      some t ∧ filled[slot]? = some (some t) := by
  obtain ⟨count, emptied, given, values, taken, ran, filling⟩ := execute_eq_ok_iff.mp h
  have output := getElem?_of_fillOutputs (length_eq_of_takeInputs count taken) filling bound
  simpa [isOutput, valuesAfter, taken, ran] using output

/-- Whatever the slots hold and however far a run of a plan gets, every value that it has computed
has the element type that the network records for its tensor and a shape that the recorded
dimensions describe. In particular the outputs of a run that succeeds fit their bindings. -/
theorem values_fit_records {edits : List Network.Edit} {config : BuildConfig}
    {capability : Capability} {plan : EnginePlan} (words : ∀ e ∈ edits, e.InWords)
    (planned : EnginePlan.ofNetwork (.built edits) config capability = .ok plan) (slots : Slots) :
    (∀ taken ran id t, (plan.valuesAfter slots taken ran).get? id = some t →
      ∃ record, (Network.built edits).tensor id = .ok record ∧ t.dtype = record.dtype ∧
        Dims.describes record.dims t.shape) ∧
    ∀ filled, plan.execute slots = (filled, .ok ()) →
      ∀ (slot : Nat) b, plan.bindings[slot]? = some b → b.spec.isInput = false →
        ∃ t, filled[slot]? = some (some t) ∧ b.spec.fits t := by
  have isFor := EnginePlan.isFor_of_ofNetwork planned
  have reached : (Network.built edits).Reached Network.Edit.InWords := .of_built words
  have agree := isFor.agree_valuesAfter reached.coherent (reached.dims_inWords fun _ call => call)
    reached.hasWords slots
  refine ⟨fun taken ran id t known => ?_, fun filled done slot b bound isOutput => ?_⟩
  · obtain ⟨type, recorded, fits⟩ := agree taken ran id t known
    obtain ⟨record, found, rfl⟩ := Network.exists_tensor_of_types recorded
    exact ⟨record, found, fits.dtype, fits.shape⟩
  · obtain ⟨t, known, held⟩ := EnginePlan.values_of_execute done bound isOutput
    obtain ⟨type, recorded, fits⟩ := agree _ _ _ t known
    have record := Network.types_getElem?_of_tensor (isFor.binds (List.mem_of_getElem? bound)).2
    cases record.symm.trans recorded
    refine ⟨t, held, ?_⟩
    simpa [BindingSpec.fits, NetworkTensor.type] using And.intro fits.dtype fits.shape

/-- Calls for a network that lays a vector of unknown length out as a row. -/
def rowEdits : List Network.Edit :=
  [.addInput "input_0" .f32 [-1], .addShuffle "row" ⟨0⟩ (.reshaping [1, -1]),
    .markOutput ⟨1⟩ "output_0"]

/-- The plan of that network. -/
def rowPlan : EnginePlan where
  formatVersion := 1
  engineName := "engine"
  builtFor := ⟨8, 6⟩
  network := .built rowEdits
  bindings := [⟨⟨⟨"input_0"⟩, true, .f32, [-1]⟩, ⟨0⟩⟩, ⟨⟨⟨"output_0"⟩, false, .f32, [1, -1]⟩, ⟨1⟩⟩]

theorem rowEdits_inWords : ∀ e ∈ rowEdits, e.InWords := by
  decide

theorem ofNetwork_rowEdits :
    EnginePlan.ofNetwork (.built rowEdits) .standard ⟨8, 6⟩ = .ok rowPlan := by
  rfl

/-- A row of two numbers fits the record of a row of unknown length. -/
theorem values_fit_records_row :
    (∀ e ∈ rowEdits, e.InWords) ∧
      EnginePlan.ofNetwork (.built rowEdits) .standard ⟨8, 6⟩ = .ok rowPlan ∧
      ∃ record, (Network.built rowEdits).tensor ⟨1⟩ = .ok record ∧ DType.f32 = record.dtype ∧
        Dims.describes record.dims [1, 2] :=
  ⟨rowEdits_inWords, ofNetwork_rowEdits,
    (values_fit_records rowEdits_inWords ofNetwork_rowEdits
      [some ⟨.f32, [2], [0, 0, 0, 64, 0, 0, 64, 64], rfl⟩, none]).1 2 1 ⟨1⟩
      ⟨.f32, [1, 2], [0, 0, 0, 64, 0, 0, 64, 64], rfl⟩ (by rfl)⟩

end TensorEngine
