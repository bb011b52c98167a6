import TensorEngine.Proofs.Engine.Numbering
import TensorEngine.Proofs.Plan.Loading

/-!
# Names of built engines

The builder takes every name that ends in an index. Whether the indices of all inputs, and of all
outputs, are numbers from zero on is not looked at before an engine is restored. What is loaded of an
engine that was built is the plan of its network, but it is restored only if the names that were given
to its network number it.

## Main definitions

* `Network.CarriesIndices`: inputs or outputs that are numbered by their names

## Main results

* `numbered_ofPlan_iff`: the bindings of a plan are numbered if its network is
* `eq_ofPlan_of_load`: what is loaded from the bytes of a plan
* `built_engine_is_routed_iff`: which engines that were built have slot maps, and what is reported of
  the others
-/

namespace TensorEngine

/-- The name of the tensor has this logical index. -/
def Network.IsIndexed (network : Network) (id : TensorId) (k : Nat) : Prop :=
  ∃ t, network.tensor id = .ok t ∧ (BindingName.mk t.name).logicalIndex = .ok k

/-- The names of the inputs, or of the outputs, carry the logical indices `0, 1, …`, each of them
once. -/
def Network.CarriesIndices (network : Network) (isInput : Bool) : Prop :=
  ∃ indices, List.Forall₂ network.IsIndexed
      (if isInput then network.inputs else network.outputs) indices ∧
    indices.Perm (List.range (if isInput then network.inputs else network.outputs).length)

variable {network : Network} {config : BuildConfig} {plan : EnginePlan}

theorem Network.rightUnique_isIndexed : Relator.RightUnique network.IsIndexed := by
  rintro id k l ⟨t, known, index⟩ ⟨u, known', index'⟩
  cases known.symm.trans known'
  exact Except.ok.inj (index.symm.trans index')

/-- The logical index of a binding, if it is one of this kind. -/
def PlanBinding.index? (isInput : Bool) (b : PlanBinding) : Option Nat :=
  if b.spec.isInput = isInput then b.spec.name.logicalIndex.toOption else none

theorem Network.Binds.index?_eq {kind isInput : Bool} {id : TensorId} {b : PlanBinding}
    (h : network.Binds kind id b) :
    ∃ k, network.IsIndexed id k ∧ b.index? isInput = if kind = isInput then some k else none := by
  obtain ⟨k, index⟩ := h.index
  refine ⟨k, ⟨_, h.record, index⟩, ?_⟩
  rw [PlanBinding.index?, h.isInput, index]
  rfl

theorem indices_of_binds {isInput : Bool} {ids : List TensorId} {bs : List PlanBinding}
    (h : List.Forall₂ (network.Binds isInput) ids bs) :
    List.Forall₂ network.IsIndexed ids (bs.filterMap (·.index? isInput)) := by
  induction h with
  | nil => exact .nil
  | cons first _ ih =>
    obtain ⟨k, indexed, index⟩ := first.index?_eq
    rw [List.filterMap_cons_some (index.trans (if_pos rfl))]
    exact .cons indexed ih

theorem indices_of_other {kind isInput : Bool} (other : kind ≠ isInput) {ids : List TensorId}
    {bs : List PlanBinding} (h : List.Forall₂ (network.Binds kind) ids bs) :
    bs.filterMap (·.index? isInput) = [] := by
  induction h with
  | nil => rfl
  | cons first _ ih =>
    obtain ⟨k, -, index⟩ := first.index?_eq
    rw [List.filterMap_cons_none (index.trans (if_neg other)), ih]

/-- The indices of the bindings of a plan are those in the names of its network, in some order. -/
theorem EnginePlan.IsFor.exists_indices (h : plan.IsFor network config) (isInput : Bool) :
    ∃ indices, List.Forall₂ network.IsIndexed
        (if isInput then network.inputs else network.outputs) indices ∧
      (plan.bindings.filterMap (·.index? isInput)).Perm indices := by
  obtain ⟨inputs, outputs, bindInputs, bindOutputs, sorted⟩ := h.bindings
  have perm := (sorted_perm (fun a b => a.spec.name.text ≤ b.spec.name.text)
    (inputs ++ outputs)).filterMap (·.index? isInput)
  rw [sorted, sortedByName]
  rw [List.filterMap_append] at perm
  cases isInput with
  | true =>
    rw [indices_of_other Bool.false_ne_true bindOutputs, List.append_nil] at perm
    exact ⟨_, indices_of_binds bindInputs, perm⟩
  | false =>
    rw [indices_of_other Bool.false_ne_true.symm bindInputs, List.nil_append] at perm
    exact ⟨_, indices_of_binds bindOutputs, perm⟩

section OfPlan

variable {bytes : Bytes} {isInput : Bool}

theorem slotCount_ofPlan : (LoadedEngine.ofPlan plan bytes).slotCount = plan.bindings.length :=
  rfl

theorem binding?_ofPlan (slot : Nat) :
    (LoadedEngine.ofPlan plan bytes).binding? slot = (plan.bindings[slot]?).map (·.spec) :=
  rfl

theorem indices_ofPlan : (LoadedEngine.ofPlan plan bytes).indices isInput =
    plan.bindings.filterMap (·.index? isInput) := by
  have places := congrArg (List.filterMap (·.bind (PlanBinding.index? isInput)))
    (map_getElem?_range plan.bindings)
  rw [List.filterMap_map, List.filterMap_map] at places
  simp only [LoadedEngine.indices, slotCount_ofPlan, binding?_ofPlan, Option.bind_map]
  exact places

theorem kindCount_ofPlan : (LoadedEngine.ofPlan plan bytes).kindCount isInput =
    plan.bindings.countP (·.spec.isInput == isInput) := by
  have places := congrArg (List.countP (·.any fun b : PlanBinding => b.spec.isInput == isInput))
    (map_getElem?_range plan.bindings)
  rw [List.countP_map, List.countP_map] at places
  simp only [LoadedEngine.kindCount, slotCount_ofPlan, binding?_ofPlan, Option.any_map]
  exact places

/-- The names in the plan of a network have indices. -/
theorem EnginePlan.IsFor.named (h : plan.IsFor network config) :
    ∀ slot < (LoadedEngine.ofPlan plan bytes).slotCount, ∃ spec k,
      (LoadedEngine.ofPlan plan bytes).binding? slot = some spec ∧
        spec.name.logicalIndex = .ok k := by
  intro slot within
  rw [slotCount_ofPlan] at within
  obtain ⟨k, index⟩ := (h.bound (List.getElem_mem within)).2.index
  refine ⟨_, k, ?_, index⟩
  rw [binding?_ofPlan, List.getElem?_eq_getElem within, Option.map_some]

/-- The bindings of a plan are numbered if its network carries the indices. -/
theorem EnginePlan.IsFor.numbered_ofPlan_iff (h : plan.IsFor network config) :
    (LoadedEngine.ofPlan plan bytes).Numbered ↔ ∀ isInput, network.CarriesIndices isInput := by
  have perm_iff : ∀ isInput, ((LoadedEngine.ofPlan plan bytes).indices isInput).Perm
      (List.range ((LoadedEngine.ofPlan plan bytes).kindCount isInput)) ↔
        network.CarriesIndices isInput := by
    intro isInput
    rw [indices_ofPlan, kindCount_ofPlan, h.countP_eq]
    obtain ⟨indices, indexed, perm⟩ := h.exists_indices isInput
    constructor
    · intro numbered
      exact ⟨indices, indexed, perm.symm.trans numbered⟩
    · rintro ⟨indices', indexed', numbered⟩
      -- Every name has one index only.
      obtain rfl : indices = indices' :=
        List.right_unique_forall₂' Network.rightUnique_isIndexed indexed indexed'
      exact perm.trans numbered
  constructor
  · intro numbered isInput
    exact (perm_iff isInput).mp (numbered.numbered isInput)
  · intro carries
    exact ⟨h.named, fun isInput => (perm_iff isInput).mpr (carries isInput)⟩

end OfPlan

/-- Whatever is loaded from the bytes of a plan is that plan. -/
theorem eq_ofPlan_of_load {loaded : LoadedEngine} (load : referenceBackend.load plan.bytes = .ok loaded) :
    loaded = .ofPlan plan plan.bytes := by
  obtain ⟨read, loads, rfl⟩ := referenceBackend_load_eq_ok_iff.mp load
  have parsed := (EnginePlan.load_eq_ok_iff.mp loads).1
  obtain ⟨-, rfl⟩ := EnginePlan.parse?_bytes_eq_some_iff.mp parsed
  rfl

theorem EnginePlan.load_of_ofNetwork {edits : List Network.Edit} {capability : Capability}
    (stored : ∀ e ∈ edits, e.Stored) (count : (Network.built edits).tensors.length ≤ Unsigned.bound)
    (planned : ofNetwork (.built edits) config capability = .ok plan) :
    load plan.bytes = .ok plan := by
  have isFor := isFor_of_ofNetwork planned
  have reached := Network.Reached.of_built stored
  have words := isFor.inWords (reached.inWords (fun _ call => call) count)
  exact load_bytes words isFor.formatVersion (isFor.validate reached.coherent)

open Engine

/-- What is loaded of an engine that was built has a logical index in the name of every slot. It has slot
maps if the names of the inputs of its network, and those of the outputs, carry the indices from zero on.
If not, a slot is reported whose index is past the count, or belongs to another slot as well, in whatever
order the slots are checked. The engine is loaded if the constants of its network are stored. -/
theorem built_engine_is_routed_iff {edits : List Network.Edit} {device : DeviceDescriptor}
    {artifact : EngineArtifact}
    (built : referenceBuilder.build (.built edits) config device = .ok artifact) :
    (∀ loaded, referenceBackend.load artifact.engine = .ok loaded →
      (∀ slot < loaded.slotCount, ∃ spec k,
        loaded.binding? slot = some spec ∧ spec.name.logicalIndex = .ok k) ∧
      ((∃ maps, bindingMaps loaded = .ok maps) ↔
        ∀ isInput, (Network.built edits).CarriesIndices isInput) ∧
      ∀ {arrange}, (∀ slots, (arrange slots).Perm slots) →
        (∀ maps, bindingMapsIn arrange loaded = .ok maps ↔ bindingMaps loaded = .ok maps) ∧
          ∀ e, bindingMapsIn arrange loaded = .error e → Misnumbered loaded e) ∧
    ((∀ e ∈ edits, e.Stored) → (Network.built edits).tensors.length ≤ Unsigned.bound →
      ∃ loaded, referenceBackend.load artifact.engine = .ok loaded) := by
  obtain ⟨plan, planned, rfl⟩ := referenceBuilder_build_eq_ok_iff.mp built
  have isFor := EnginePlan.isFor_of_ofNetwork planned
  constructor
  · intro loaded load
    obtain rfl := eq_ofPlan_of_load load
    refine ⟨isFor.named, ?_, fun arranges => ⟨fun maps => bindingMapsIn_eq_ok_iff arranges, ?_⟩⟩
    · rw [exists_bindingMaps_iff, isFor.numbered_ofPlan_iff]
    · intro e
      exact misnumbered_of_bindingMapsIn arranges isFor.named
  · intro stored count
    have load := EnginePlan.load_of_ofNetwork stored count planned
    exact ⟨_, referenceBackend_load_eq_ok_iff.mpr ⟨plan, load, rfl⟩⟩

/-- Calls for a sum of two inputs with these names. -/
def sumEdits (left right : String) : List Network.Edit :=
  [.addInput left .f32 [2], .addInput right .f32 [2], .addElementWise "sum" ⟨0⟩ ⟨1⟩ .sum,
    .markOutput ⟨2⟩ "sum_0"]

/-- The plan of the sum, when the names are in this order. -/
def sumPlan (left right : String) : EnginePlan where
  formatVersion := 1
  engineName := "engine"
  builtFor := ⟨8, 6⟩
  network := .built (sumEdits left right)
  bindings := [⟨⟨⟨left⟩, true, .f32, [2]⟩, ⟨0⟩⟩, ⟨⟨⟨right⟩, true, .f32, [2]⟩, ⟨1⟩⟩,
    ⟨⟨⟨"sum_0"⟩, false, .f32, [2]⟩, ⟨2⟩⟩]

/-- An engine whose inputs are named by zero and one, after different labels, has slot maps. -/
theorem built_engine_is_routed_iff_labelled :
    let edits := sumEdits "left_01" "right_0"
    let plan := sumPlan "left_01" "right_0"
    (∀ e ∈ edits, e.Stored) ∧ (Network.built edits).tensors.length ≤ Unsigned.bound ∧
      referenceBuilder.build (.built edits) .standard ⟨0, 8, 6⟩ = .ok ⟨⟨0, 8, 6⟩, plan.bytes⟩ ∧
      ∃ loaded, referenceBackend.load plan.bytes = .ok loaded ∧
        ∃ maps, bindingMaps loaded = .ok maps := by
  intro edits plan
  have stored : ∀ e ∈ edits, e.Stored := by decide
  have count : (Network.built edits).tensors.length ≤ Unsigned.bound := by decide
  have planned : EnginePlan.ofNetwork (.built edits) .standard ⟨8, 6⟩ = .ok plan := by rfl
  have built : referenceBuilder.build (.built edits) .standard ⟨0, 8, 6⟩ =
      .ok ⟨⟨0, 8, 6⟩, plan.bytes⟩ := referenceBuilder_build_eq_ok_iff.mpr ⟨plan, planned, rfl⟩
  obtain ⟨routes, loads⟩ := built_engine_is_routed_iff built
  obtain ⟨loaded, load⟩ := loads stored count
  refine ⟨stored, count, built, loaded, load, (routes loaded load).2.1.mpr fun isInput => ?_⟩
  cases isInput with
  | true =>
    refine ⟨[1, 0], .cons ⟨_, rfl, rfl⟩ (.cons ⟨_, rfl, rfl⟩ .nil), ?_⟩
    decide
  | false => exact ⟨[0], .cons ⟨_, rfl, rfl⟩ .nil, .refl _⟩

/-- Inputs with different labels and the same index are built into an engine that has no slot maps. -/
theorem built_engine_is_not_routed :
    let edits := sumEdits "left_0" "right_0"
    let plan := sumPlan "left_0" "right_0"
    (∀ e ∈ edits, e.Stored) ∧ (Network.built edits).tensors.length ≤ Unsigned.bound ∧
      referenceBuilder.build (.built edits) .standard ⟨0, 8, 6⟩ = .ok ⟨⟨0, 8, 6⟩, plan.bytes⟩ ∧
      ∃ loaded, referenceBackend.load plan.bytes = .ok loaded ∧
        bindingMaps loaded = .error (.bindingIndex ⟨"right_0"⟩ 0 .usedTwice) := by
  intro edits plan
  have stored : ∀ e ∈ edits, e.Stored := by decide
  have planned : EnginePlan.ofNetwork (.built edits) .standard ⟨8, 6⟩ = .ok plan := by rfl
  have load := EnginePlan.load_of_ofNetwork stored (by decide) planned
  refine ⟨stored, by decide, ?_, .ofPlan plan plan.bytes, ?_, rfl⟩
  · exact referenceBuilder_build_eq_ok_iff.mpr ⟨plan, planned, rfl⟩
  · exact referenceBackend_load_eq_ok_iff.mpr ⟨plan, load, rfl⟩

end TensorEngine
