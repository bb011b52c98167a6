import TensorEngine.Plan.Basic
import TensorEngine.Proofs.Network.Coherent

/-!
# Plans of networks

What the builder accepts, and what it makes of it: every layer is within the limits, and the plan
binds each input and each output of the network once, under its recorded name and with its recorded
type.

## Main definitions

* `Network.Binds`: a binding of an input or output of a network
* `EnginePlan.IsFor`: the plans of a network

## Main results

* `EnginePlan.ofNetwork_eq_ok_iff`: which networks have plans
* `EnginePlan.isFor_of_ofNetwork`: the builder makes a plan of the network
* `EnginePlan.IsFor.tensors_perm`, `EnginePlan.IsFor.countP_eq`: each input and output is bound once
-/

namespace TensorEngine

/-- The binding stands for a tensor of the network, under its name and with its type. -/
structure Network.Binds (network : Network) (isInput : Bool) (id : TensorId) (b : PlanBinding) :
    Prop where
  tensor : b.tensor = id
  isInput : b.spec.isInput = isInput
  record : network.tensor id = .ok ⟨b.spec.name.text, b.spec.dtype, b.spec.dims⟩
  index : ∃ k, b.spec.name.logicalIndex = .ok k

/-- The layer is within the limits of the builder. -/
def Layer.WithinLimits (layer : Layer) (network : Network) (config : BuildConfig) : Prop :=
  ∃ output, network.tensor layer.output = .ok output ∧ output.dims.rank ≤ planRankLimit ∧
    (layer.computes → config.accepts output.dtype)

/-- The plan is for the network: its layers are within the limits, and its bindings, in the order of
their names, are those of the inputs and of the outputs. -/
structure EnginePlan.IsFor (plan : EnginePlan) (network : Network) (config : BuildConfig) : Prop where
  formatVersion : plan.formatVersion = planFormatVersion
  planned : plan.network = network
  layers : ∀ layer ∈ network.layers, layer.WithinLimits network config
  bindings : ∃ inputs outputs, List.Forall₂ (network.Binds true) network.inputs inputs ∧
    List.Forall₂ (network.Binds false) network.outputs outputs ∧
    plan.bindings = sortedByName (inputs ++ outputs)

variable {network : Network} {config : BuildConfig} {capability : Capability}

theorem builtTensor_eq_ok_iff {id : TensorId} {t : NetworkTensor} :
    builtTensor network id = .ok t ↔ network.tensor id = .ok t :=
  mapError_eq_ok_iff

theorem planBinding_eq_ok {isInput : Bool} {id : TensorId} {b : PlanBinding}
    (h : planBinding network isInput id = .ok b) : network.Binds isInput id b := by
  obtain ⟨t, known, h⟩ := bind_eq_ok_iff.mp h
  obtain ⟨k, index, h⟩ := bind_eq_ok_iff.mp h
  cases h
  exact ⟨rfl, rfl, builtTensor_eq_ok_iff.mp known, k, mapError_eq_ok_iff.mp index⟩

theorem checkLayers_eq_ok_iff {layers : List Layer} :
    checkLayers network config layers = .ok () ↔
      ∀ layer ∈ layers, layer.WithinLimits network config := by
  induction layers with
  | nil => exact ⟨fun _ => nofun, fun _ => rfl⟩
  | cons layer layers ih =>
    rw [List.forall_mem_cons, ← ih]
    constructor
    · intro h
      obtain ⟨output, known, h⟩ := bind_eq_ok_iff.mp h
      by_cases rank : planRankLimit < output.dims.rank
      · rw [if_pos rank] at h
        cases h
      · rw [if_neg rank] at h
        by_cases dtype : (layer.computes && !config.accepts output.dtype) = true
        · rw [if_pos dtype] at h
          cases h
        · rw [if_neg dtype] at h
          refine ⟨⟨output, builtTensor_eq_ok_iff.mp known, Nat.not_lt.mp rank, fun computes => ?_⟩, h⟩
          simpa [computes] using dtype
    · rintro ⟨⟨output, known, rank, accepted⟩, rest⟩
      refine bind_eq_ok_iff.mpr ⟨output, builtTensor_eq_ok_iff.mpr known, ?_⟩
      rw [if_neg (Nat.not_lt.mpr rank), if_neg (by simpa using accepted)]
      exact rest

/-- A network has a plan if it has outputs and its layers and its constants are within the limits, and
if its inputs and outputs can be bound. -/
theorem EnginePlan.ofNetwork_eq_ok_iff {plan : EnginePlan} :
    ofNetwork network config capability = .ok plan ↔
      network.outputs.isEmpty = false ∧ checkLayers network config network.layers = .ok () ∧
        checkWorkspace network config = .ok () ∧
        ∃ inputs outputs, network.inputs.mapM (planBinding network true) = .ok inputs ∧
          network.outputs.mapM (planBinding network false) = .ok outputs ∧
          plan = ⟨planFormatVersion, config.engineName, capability, network,
            sortedByName (inputs ++ outputs)⟩ := by
  unfold ofNetwork
  by_cases empty : network.outputs.isEmpty = true
  · rw [if_pos empty]
    exact iff_of_false nofun fun h => Bool.noConfusion (empty.symm.trans h.1)
  rw [if_neg empty]
  constructor
  · intro h
    obtain ⟨_, layers, h⟩ := bind_eq_ok_iff.mp h
    obtain ⟨_, workspace, h⟩ := bind_eq_ok_iff.mp h
    obtain ⟨inputs, bindInputs, h⟩ := bind_eq_ok_iff.mp h
    obtain ⟨outputs, bindOutputs, h⟩ := bind_eq_ok_iff.mp h
    cases h
    exact ⟨Bool.eq_false_iff.mpr empty, layers, workspace, inputs, outputs, bindInputs, bindOutputs,
      rfl⟩
  · rintro ⟨-, layers, workspace, inputs, outputs, bindInputs, bindOutputs, rfl⟩
    refine bind_eq_ok_iff.mpr ⟨(), layers, bind_eq_ok_iff.mpr ⟨(), workspace, ?_⟩⟩
    exact bind_eq_ok_iff.mpr ⟨inputs, bindInputs, bind_eq_ok_iff.mpr ⟨outputs, bindOutputs, rfl⟩⟩

theorem EnginePlan.isFor_of_ofNetwork {plan : EnginePlan}
    (h : ofNetwork network config capability = .ok plan) : plan.IsFor network config := by
  obtain ⟨-, layers, -, inputs, outputs, bindInputs, bindOutputs, rfl⟩ := ofNetwork_eq_ok_iff.mp h
  refine ⟨rfl, rfl, checkLayers_eq_ok_iff.mp layers, inputs, outputs, ?_, ?_, rfl⟩
  · exact (mapM_eq_ok_iff.mp bindInputs).imp fun _ _ => planBinding_eq_ok
  · exact (mapM_eq_ok_iff.mp bindOutputs).imp fun _ _ => planBinding_eq_ok

theorem EnginePlan.builtFor_of_ofNetwork {plan : EnginePlan}
    (h : ofNetwork network config capability = .ok plan) : plan.builtFor = capability := by
  obtain ⟨-, -, -, _, _, -, -, rfl⟩ := ofNetwork_eq_ok_iff.mp h
  rfl

namespace EnginePlan.IsFor

variable {plan : EnginePlan}

/-- Every binding of the plan is one of an input or an output of the network. -/
theorem bound (h : plan.IsFor network config) {b : PlanBinding} (member : b ∈ plan.bindings) :
    (b.tensor ∈ if b.spec.isInput then network.inputs else network.outputs) ∧
      network.Binds b.spec.isInput b.tensor b := by
  obtain ⟨inputs, outputs, bindInputs, bindOutputs, sorted⟩ := h.bindings
  rw [sorted, sortedByName, mem_sorted, List.mem_append] at member
  rcases member with input | output
  · obtain ⟨id, listed, bound⟩ := forall₂_mem_right bindInputs input
    rw [bound.isInput, bound.tensor]
    exact ⟨listed, bound⟩
  · obtain ⟨id, listed, bound⟩ := forall₂_mem_right bindOutputs output
    rw [bound.isInput, bound.tensor]
    exact ⟨listed, bound⟩

theorem binds (h : plan.IsFor network config) {b : PlanBinding} (member : b ∈ plan.bindings) :
    (b.tensor ∈ if b.spec.isInput then network.inputs else network.outputs) ∧
      network.tensor b.tensor = .ok ⟨b.spec.name.text, b.spec.dtype, b.spec.dims⟩ :=
  (h.bound member).imp_right (·.record)

/-- Inputs and outputs of the network are bound, each once. -/
theorem tensors_perm (h : plan.IsFor network config) :
    (plan.bindings.map (·.tensor)).Perm (network.inputs ++ network.outputs) := by
  obtain ⟨inputs, outputs, bindInputs, bindOutputs, sorted⟩ := h.bindings
  -- Before they are sorted, the bindings stand in the order of inputs and outputs.
  have tensors : ∀ {isInput : Bool} {ids : List TensorId} {bs : List PlanBinding},
      List.Forall₂ (network.Binds isInput) ids bs → bs.map (·.tensor) = ids := by
    intro isInput ids bs bind
    induction bind with
    | nil => rfl
    | cons first _ ih => rw [List.map_cons, ih, first.tensor]
  rw [sorted, ← tensors bindInputs, ← tensors bindOutputs, ← List.map_append]
  exact (sorted_perm _ _).map _

/-- As many bindings as the network has inputs are inputs, and as many as it has outputs are none. -/
theorem countP_eq (h : plan.IsFor network config) (isInput : Bool) :
    plan.bindings.countP (·.spec.isInput == isInput) =
      (if isInput then network.inputs else network.outputs).length := by
  obtain ⟨inputs, outputs, bindInputs, bindOutputs, ordered⟩ := h.bindings
  -- Bindings of one kind all count or none does.
  have counts : ∀ {kind : Bool} {ids : List TensorId} {bs : List PlanBinding},
      List.Forall₂ (network.Binds kind) ids bs →
      bs.countP (·.spec.isInput == isInput) = if kind = isInput then ids.length else 0 := by
    intro kind ids bs bind
    induction bind with
    | nil => simp
    | cons first _ ih =>
      rw [List.countP_cons, ih, first.isInput]
      cases kind <;> cases isInput <;> simp
  rw [ordered, sortedByName, (sorted_perm _ (inputs ++ outputs)).countP_eq, List.countP_append,
    counts bindInputs, counts bindOutputs]
  cases isInput <;> simp

/-- Every input and every output of the network has a binding. -/
theorem exists_binding (h : plan.IsFor network config) {isInput : Bool} {id : TensorId}
    (marked : id ∈ if isInput then network.inputs else network.outputs) :
    ∃ b ∈ plan.bindings, b.spec.isInput = isInput ∧ b.tensor = id := by
  obtain ⟨inputs, outputs, bindInputs, bindOutputs, sorted⟩ := h.bindings
  simp only [sorted, sortedByName, mem_sorted, List.mem_append]
  cases isInput with
  | true =>
    obtain ⟨b, member, bound⟩ := forall₂_mem_left bindInputs marked
    exact ⟨b, .inl member, bound.isInput, bound.tensor⟩
  | false =>
    obtain ⟨b, member, bound⟩ := forall₂_mem_left bindOutputs marked
    exact ⟨b, .inr member, bound.isInput, bound.tensor⟩

theorem exists_input (h : plan.IsFor network config) {id : TensorId} (input : id ∈ network.inputs) :
    ∃ b ∈ plan.bindings, b.spec.isInput ∧ b.tensor = id :=
  h.exists_binding input

/-- Layers compute in single precision where half precision is not allowed. -/
theorem dtype_of_computes (h : plan.IsFor network config) (single : config.allowHalf = false)
    {layer : Layer} (member : layer ∈ network.layers) (computes : layer.computes)
    {type : TensorType} (output : network.types[layer.output.index]? = some type) :
    type.dtype = .f32 := by
  obtain ⟨t, known, -, accepted⟩ := h.layers layer member
  cases (Network.types_getElem?_of_tensor known).symm.trans output
  simpa [BuildConfig.accepts, single, NetworkTensor.type] using accepted computes

end EnginePlan.IsFor

end TensorEngine
