import TensorEngine.Proofs.Engine.Devices
import TensorEngine.Proofs.Execution.Arrangement
import TensorEngine.Proofs.Lowering.Arrangement

/-!
# Engines of rearranged graphs

The order in which the nodes of a graph were added shows in the ids of tensors and in the order of
layers, and in nothing else. A rearranged graph is compiled if the graph is, and the engines of both have
the same bindings and return the same outputs.

## Main definitions

* `LoadedEngine.Alike`, `Engine.Alike`: engines that nobody can tell apart by running them

## Main results

* `Engine.Alike.execute_eq_ok`: engines that are alike return the same
* `Engine.exists_restore_of_alike`: what is loaded alike is restored alike
* `compile_rearranges`: a rearranged graph is compiled to a plan of a rearranged network
* `node_order_is_irrelevant`: compilations and engines of rearranged graphs
-/

namespace TensorEngine

open Lowering

/-- Loaded engines that bind the same slots, run on the same devices and leave the same in the slots. -/
structure LoadedEngine.Alike (loaded loaded' : LoadedEngine) : Prop where
  slotCount : loaded'.slotCount = loaded.slotCount
  binding? : loaded'.binding? = loaded.binding?
  builtFor : loaded'.builtFor = loaded.builtFor
  prepare : loaded'.prepare = loaded.prepare
  execute : ∀ slots filled,
    loaded.execute slots = (filled, .ok ()) ↔ loaded'.execute slots = (filled, .ok ())

namespace Engine

/-- Engines of one device that route alike and were loaded alike. -/
structure Alike (engine engine' : Engine) : Prop where
  name : engine'.name = engine.name
  device : engine'.device = engine.device
  loaded : engine.loaded.Alike engine'.loaded
  inputs : engine'.inputs = engine.inputs
  outputs : engine'.outputs = engine.outputs

variable {engine engine' : Engine}

/-- Engines that are alike return the same. -/
theorem Alike.execute_eq_ok (h : engine.Alike engine') (tensors outputs : List Tensor) :
    engine.execute tensors = .ok outputs ↔ engine'.execute tensors = .ok outputs := by
  have slots : engine'.inputSlots tensors = engine.inputSlots tensors := by
    rw [inputSlots, inputSlots, h.loaded.slotCount, h.inputs]
  have output : engine'.output = engine.output := by
    funext filled k
    rw [Engine.output, Engine.output, h.outputs]
  simp only [execute_eq_ok_iff, h.inputs, h.outputs, slots, output, h.loaded.execute]

variable {σ : Type} [DeviceDriver σ] {backend : Backend} {driver : σ} {name : String}
  {record bytes bytes' : Bytes}

/-- The driver after an engine was restored, or was not, does not depend on the engine bytes. -/
theorem restore_fst : (restore driver backend name ⟨record, bytes'⟩).1 =
    (restore driver backend name ⟨record, bytes⟩).1 := by
  unfold restore
  dsimp only
  split
  next => rfl
  next => split <;> rfl

/-- What is loaded alike is restored alike. -/
theorem exists_restore_of_alike
    (loads : ∀ loaded, backend.load bytes = .ok loaded →
      ∃ loaded', backend.load bytes' = .ok loaded' ∧ loaded.Alike loaded')
    (restored : (restore driver backend name ⟨record, bytes⟩).2 = .ok engine) :
    ∃ engine', (restore driver backend name ⟨record, bytes'⟩).2 = .ok engine' ∧
      engine.Alike engine' := by
  have loadFor : ∀ active loaded inputs outputs,
      loadFor backend active bytes = .ok (loaded, inputs, outputs) →
      ∃ loaded', loadFor backend active bytes' = .ok (loaded', inputs, outputs) ∧
        loaded.Alike loaded' := by
    intro active loaded inputs outputs h
    obtain ⟨started, load, capable, prepared, maps⟩ := loadFor_eq_ok_iff.mp h
    obtain ⟨loaded', load', alike⟩ := loads loaded load
    refine ⟨loaded', loadFor_eq_ok_iff.mpr ⟨started, load', ?_, ?_, ?_⟩, alike⟩
    · rwa [alike.builtFor]
    · rwa [alike.prepare]
    · rwa [bindingMaps_congr alike.slotCount alike.binding?]
  unfold restore at restored ⊢
  dsimp only at restored ⊢
  split at restored
  next bare =>
    obtain ⟨active, known, made⟩ := bind_eq_ok_iff.mp restored
    obtain ⟨⟨loaded, inputs, outputs⟩, load, result⟩ := bind_eq_ok_iff.mp made
    cases result
    obtain ⟨loaded', load', alike⟩ := loadFor active loaded inputs outputs load
    rw [if_pos bare]
    exact ⟨⟨nameOf name, active, loaded', inputs, outputs⟩,
      bind_eq_ok_iff.mpr ⟨active, known, bind_eq_ok_iff.mpr ⟨_, load', rfl⟩⟩, rfl, rfl, alike, rfl, rfl⟩
  next present =>
    rw [if_neg present]
    split at restored
    next => cases restored
    next driver' recorded selected =>
      obtain ⟨active, known, made⟩ := bind_eq_ok_iff.mp restored
      obtain ⟨_, capable, made⟩ := bind_eq_ok_iff.mp made
      obtain ⟨⟨loaded, inputs, outputs⟩, load, result⟩ := bind_eq_ok_iff.mp made
      cases result
      obtain ⟨loaded', load', alike⟩ := loadFor active loaded inputs outputs load
      exact ⟨⟨nameOf name, recorded, loaded', inputs, outputs⟩,
        bind_eq_ok_iff.mpr ⟨active, known, bind_eq_ok_iff.mpr ⟨(), capable,
          bind_eq_ok_iff.mpr ⟨_, load', rfl⟩⟩⟩, rfl, rfl, alike, rfl, rfl⟩

end Engine

/-! ### Plans -/

theorem execute_ofPlan_eq_ok_iff {plan : EnginePlan} {bytes : Bytes} {slots filled : Slots} :
    (LoadedEngine.ofPlan plan bytes).execute slots = (filled, .ok ()) ↔
      plan.execute slots = (filled, .ok ()) := by
  simp only [LoadedEngine.ofPlan, mapError_eq_ok_iff, Prod.ext_iff]

/-- Plans of networks that are rearranged, with bindings that match. -/
structure EnginePlan.Rearranged (config : BuildConfig) (capability : Capability)
    (plan plan' : EnginePlan) : Prop where
  networks : plan.network.Rearranged plan'.network
  reached : plan.network.Reached fun _ => True
  reached' : plan'.network.Reached fun _ => True
  planned : ofNetwork plan.network config capability = .ok plan
  planned' : ofNetwork plan'.network config capability = .ok plan'
  bindings : List.Forall₂ (PlanBinding.Matches plan.network plan'.network) plan.bindings plan'.bindings

namespace EnginePlan.Rearranged

variable {config : BuildConfig} {capability : Capability} {plan plan' : EnginePlan}

theorem symm (h : Rearranged config capability plan plan') :
    Rearranged config capability plan' plan where
  networks := h.networks.symm
  reached := h.reached'
  reached' := h.reached
  planned := h.planned'
  planned' := h.planned
  bindings := h.bindings.flip.imp fun _ _ both => both.symm

theorem specs_eq (h : Rearranged config capability plan plan') :
    plan'.bindings.map (·.spec) = plan.bindings.map (·.spec) := by
  rw [← List.forall₂_eq_eq_eq, List.forall₂_map_left_iff, List.forall₂_map_right_iff]
  exact h.bindings.flip.imp fun _ _ both => both.spec

theorem execute_eq_ok (h : Rearranged config capability plan plan') {slots filled : Slots}
    (done : plan.execute slots = (filled, .ok ())) : plan'.execute slots = (filled, .ok ()) :=
  execute_rearranged h.networks h.reached h.reached' (isFor_of_ofNetwork h.planned)
    (isFor_of_ofNetwork h.planned') h.bindings done

/-- The plans are alike as loaded engines, whatever bytes they were loaded from. -/
theorem alike (h : Rearranged config capability plan plan') (bytes bytes' : Bytes) :
    (LoadedEngine.ofPlan plan bytes).Alike (.ofPlan plan' bytes') where
  slotCount := (List.Forall₂.length_eq h.bindings).symm
  binding? := by
    funext slot
    simp only [LoadedEngine.ofPlan, ← List.getElem?_map, h.specs_eq]
  builtFor := by
    simp only [LoadedEngine.ofPlan, builtFor_of_ofNetwork h.planned, builtFor_of_ofNetwork h.planned']
  prepare := rfl
  execute slots filled := by
    rw [execute_ofPlan_eq_ok_iff, execute_ofPlan_eq_ok_iff]
    exact ⟨h.execute_eq_ok, h.symm.execute_eq_ok⟩

/-- The engine bytes of one plan load if those of the other one do. -/
theorem exists_load (h : Rearranged config capability plan plan') {loaded : LoadedEngine}
    (load : referenceBackend.load plan.bytes = .ok loaded) :
    ∃ loaded', referenceBackend.load plan'.bytes = .ok loaded' ∧ loaded.Alike loaded' := by
  obtain ⟨words, rfl⟩ := referenceBackend_load_eq_ok load
  have isFor := isFor_of_ofNetwork h.planned'
  have words' := isFor.inWords (h.networks.inWords h.reached h.reached' words.network)
  have read := load_bytes words' isFor.formatVersion (isFor.validate h.reached'.coherent)
  exact ⟨_, referenceBackend_load_eq_ok_iff.mpr ⟨plan', read, rfl⟩, h.alike _ _⟩

end EnginePlan.Rearranged

/-! ### Graphs -/

/-- A rearranged graph is compiled if the graph is, to a plan of a rearranged network. -/
theorem compile_rearranges {graph graph' : Graph} (arranged : graph.Rearranges graph')
    {settings : Settings} {config : BuildConfig} {artifact : EngineArtifact}
    (compiled : compile .builtin settings referenceBuilder config graph = .ok artifact) :
    ∃ plan plan', EnginePlan.Rearranged config settings.device.capability plan plan' ∧
      artifact = ⟨settings.device, plan.bytes⟩ ∧
      compile .builtin settings referenceBuilder config graph' =
        .ok ⟨settings.device, plan'.bytes⟩ := by
  obtain ⟨lowered, plan, lowers, ranks, planned, rfl⟩ := compile_eq_ok_iff.mp compiled
  obtain ⟨lowered', lowers', networks⟩ := lower_rearranges arranged lowers
  obtain ⟨plan', planned', bindings⟩ := networks.exists_ofNetwork planned
  have reached := reached_of_lower lowers
  have reached' := reached_of_lower lowers'
  have ranks' : ∀ t ∈ lowered'.network.tensors, t.dims.rank ≤ planRankLimit := by
    intro t' member
    obtain ⟨t, listed, same⟩ := List.mem_map.mp
      (networks.mem_types reached'.coherent (List.mem_map_of_mem member))
    have dims : t.dims = t'.dims := congrArg TensorType.dims same
    exact dims ▸ ranks t listed
  refine ⟨plan, plan', ?_, rfl, compile_eq_ok_iff.mpr ⟨lowered', plan', lowers', ranks', planned', rfl⟩⟩
  -- The network of a plan is the one that it was made for.
  have same := (EnginePlan.isFor_of_ofNetwork planned).planned
  have same' := (EnginePlan.isFor_of_ofNetwork planned').planned
  rw [← same] at networks reached planned bindings
  rw [← same'] at networks reached' planned' bindings
  exact ⟨networks, reached, reached', planned, planned', bindings⟩

variable {σ : Type} [DeviceDriver σ]

/-- The order in which nodes were added to a graph does not matter. Graphs with the same values, inputs
and outputs, and with the same nodes in some order, are compiled both or not at all. The plans that they
are compiled to have the same bindings. On every driver, both are restored or none is, with the same
effect on the driver, and the engines have the same bindings and slot maps and return the same outputs
for the same inputs, if any. -/
theorem node_order_is_irrelevant {graph graph' : Graph} (arranged : graph.Rearranges graph')
    (settings : Settings) (config : BuildConfig) :
    ((∃ artifact, compile .builtin settings referenceBuilder config graph = .ok artifact) ↔
      ∃ artifact', compile .builtin settings referenceBuilder config graph' = .ok artifact') ∧
    ∀ artifact artifact', compile .builtin settings referenceBuilder config graph = .ok artifact →
      compile .builtin settings referenceBuilder config graph' = .ok artifact' →
      (∃ plan plan' : EnginePlan, artifact = ⟨settings.device, plan.bytes⟩ ∧
        artifact' = ⟨settings.device, plan'.bytes⟩ ∧
        plan'.bindings.map (·.spec) = plan.bindings.map (·.spec)) ∧
      ∀ (driver : σ) name,
        let restored := Engine.restore driver referenceBackend name artifact.toPayload
        let restored' := Engine.restore driver referenceBackend name artifact'.toPayload
        restored'.1 = restored.1 ∧
        ((∃ engine, restored.2 = .ok engine) ↔ ∃ engine', restored'.2 = .ok engine') ∧
        ∀ engine engine', restored.2 = .ok engine → restored'.2 = .ok engine' →
          engine'.loaded.slotCount = engine.loaded.slotCount ∧
          engine'.loaded.binding? = engine.loaded.binding? ∧
          engine'.inputs = engine.inputs ∧ engine'.outputs = engine.outputs ∧
          ∀ tensors outputs,
            engine.execute tensors = .ok outputs ↔ engine'.execute tensors = .ok outputs := by
  refine ⟨⟨?_, ?_⟩, ?_⟩
  · rintro ⟨artifact, compiled⟩
    obtain ⟨plan, plan', -, -, compiled'⟩ := compile_rearranges arranged compiled
    exact ⟨_, compiled'⟩
  · rintro ⟨artifact, compiled⟩
    obtain ⟨plan, plan', -, -, compiled'⟩ := compile_rearranges arranged.symm compiled
    exact ⟨_, compiled'⟩
  intro artifact artifact' compiled compiled'
  obtain ⟨plan, plan', plans, rfl, again⟩ := compile_rearranges arranged compiled
  cases compiled'.symm.trans again
  refine ⟨⟨plan, plan', rfl, rfl, plans.specs_eq⟩, fun driver name => ⟨Engine.restore_fst, ⟨?_, ?_⟩, ?_⟩⟩
  · rintro ⟨engine, restored⟩
    obtain ⟨engine', restored', -⟩ :=
      Engine.exists_restore_of_alike (fun _ load => plans.exists_load load) restored
    exact ⟨engine', restored'⟩
  · rintro ⟨engine', restored'⟩
    obtain ⟨engine, restored, -⟩ :=
      Engine.exists_restore_of_alike (fun _ load => plans.symm.exists_load load) restored'
    exact ⟨engine, restored⟩
  · intro engine engine' restored restored'
    obtain ⟨other, restored'', alike⟩ :=
      Engine.exists_restore_of_alike (fun _ load => plans.exists_load load) restored
    obtain rfl : engine' = other := Except.ok.inj (restored'.symm.trans restored'')
    exact ⟨alike.loaded.slotCount, alike.loaded.binding?, alike.inputs, alike.outputs,
      alike.execute_eq_ok⟩

/-- A graph that transposes a matrix, and joins its axes. -/
def forkedGraph : Graph where
  values := [⟨"x", .input .f32 [2, 2]⟩, ⟨"%1", .constant (.int 0)⟩, ⟨"%2", .constant (.int (-1))⟩,
    ⟨"%3", .tensor⟩, ⟨"%4", .tensor⟩]
  nodes := [⟨⟨"aten::t(Tensor self) -> (Tensor)"⟩, [⟨0⟩], [⟨3⟩]⟩,
    ⟨⟨"aten::flatten.using_ints(Tensor self, int start_dim=0, int end_dim=-1) -> (Tensor)"⟩,
      [⟨0⟩, ⟨1⟩, ⟨2⟩], [⟨4⟩]⟩]
  inputs := [⟨0⟩]
  outputs := [⟨3⟩, ⟨4⟩]

/-- The same graph with its nodes added the other way round. -/
def swappedGraph : Graph :=
  { forkedGraph with nodes := forkedGraph.nodes.reverse }

/-- The calls that build the network of the first graph. -/
def forkedEdits : List Network.Edit :=
  [.addInput "input_0" .f32 [2, 2],
    .addShuffle "%3 = aten::t(%0)" ⟨0⟩ (.transposing [1, 0]),
    .addShuffle "%4 = aten::flatten.using_ints(%0, %1, %2)" ⟨0⟩ (.reshaping [4]),
    .markOutput ⟨1⟩ "output_0", .markOutput ⟨2⟩ "output_1"]

/-- The plan of that network. -/
def forkedPlan : EnginePlan where
  formatVersion := 1
  engineName := "engine"
  builtFor := ⟨8, 6⟩
  network := .built forkedEdits
  bindings := [⟨⟨⟨"input_0"⟩, true, .f32, [2, 2]⟩, ⟨0⟩⟩, ⟨⟨⟨"output_0"⟩, false, .f32, [2, 2]⟩, ⟨1⟩⟩,
    ⟨⟨⟨"output_1"⟩, false, .f32, [4]⟩, ⟨2⟩⟩]

/-- The engine that is restored from that plan. -/
def forkedEngine : Engine where
  name := Engine.nameOf "forked"
  device := ⟨0, 8, 6⟩
  loaded := .ofPlan forkedPlan forkedPlan.bytes
  inputs := [(0, 0)]
  outputs := [(1, 0), (2, 1)]

theorem lower_forkedGraph : (lower .builtin ⟨false, ⟨0, 8, 6⟩⟩ forkedGraph).map (·.network) =
    .ok (.built forkedEdits) := by
  decide +kernel

theorem ofNetwork_forkedEdits :
    EnginePlan.ofNetwork (.built forkedEdits) .standard ⟨8, 6⟩ = .ok forkedPlan := by
  rfl

theorem compile_forkedGraph : compile .builtin ⟨false, ⟨0, 8, 6⟩⟩ referenceBuilder .standard forkedGraph =
    .ok ⟨⟨0, 8, 6⟩, forkedPlan.bytes⟩ := by
  obtain ⟨lowered, lowers, network⟩ := map_eq_ok_iff.mp lower_forkedGraph
  refine compile_eq_ok_iff.mpr ⟨lowered, forkedPlan, lowers, ?_, network ▸ ofNetwork_forkedEdits, rfl⟩
  rw [network]
  decide

theorem restore_forkedPlan :
    Engine.restore (SimulatedDriver.ofCapabilities [⟨8, 6⟩]) referenceBackend "forked"
        (EngineArtifact.toPayload ⟨⟨0, 8, 6⟩, forkedPlan.bytes⟩) =
      (⟨[⟨0, 8, 6⟩], 0, 1⟩, .ok forkedEngine) := by
  have isFor := EnginePlan.isFor_of_ofNetwork ofNetwork_forkedEdits
  have stored : ∀ e ∈ forkedEdits, e.Stored := by decide
  have reached := Network.Reached.of_built stored
  have words := isFor.inWords (reached.inWords (fun _ call => call) (by decide))
  have read : EnginePlan.load forkedPlan.bytes = .ok forkedPlan :=
    EnginePlan.load_bytes words rfl (isFor.validate reached.coherent)
  have load : referenceBackend.load forkedPlan.bytes = .ok (.ofPlan forkedPlan forkedPlan.bytes) :=
    referenceBackend_load_eq_ok_iff.mpr ⟨_, read, rfl⟩
  have selected : DeviceDriver.select (SimulatedDriver.ofCapabilities [⟨8, 6⟩])
      (DeviceDescriptor.id ⟨0, 8, 6⟩) = .ok ⟨[⟨0, 8, 6⟩], 0, 1⟩ := rfl
  have capable : Capability.canRun (DeviceDescriptor.capability ⟨0, 8, 6⟩)
      (DeviceDescriptor.capability ⟨0, 8, 6⟩) := by decide
  have maps : Engine.bindingMaps (.ofPlan forkedPlan forkedPlan.bytes) =
      .ok ([(0, 0)], [(1, 0), (2, 1)]) := by rfl
  exact Engine.restore_of_load selected rfl capable rfl load rfl rfl maps "forked"

theorem execute_forkedEngine : forkedEngine.execute [squareMatrix] =
    .ok [⟨.f32, [2, 2], turnedMatrix.data, rfl⟩, ⟨.f32, [4], squareMatrix.data, rfl⟩] := by
  rfl

/-- The networks of both graphs are different, and their engines return the same. -/
theorem node_order_is_irrelevant_forked : forkedGraph.Rearranges swappedGraph ∧
    (lower .builtin ⟨false, ⟨0, 8, 6⟩⟩ swappedGraph).map (·.network) ≠
      (lower .builtin ⟨false, ⟨0, 8, 6⟩⟩ forkedGraph).map (·.network) ∧
    ∃ artifact engine outputs,
      compile .builtin ⟨false, ⟨0, 8, 6⟩⟩ referenceBuilder .standard swappedGraph = .ok artifact ∧
      (Engine.restore (SimulatedDriver.ofCapabilities [⟨8, 6⟩]) referenceBackend "forked"
        artifact.toPayload).2 = .ok engine ∧
      forkedEngine.execute [squareMatrix] = .ok outputs ∧
      engine.execute [squareMatrix] = .ok outputs := by
  have arranged : forkedGraph.Rearranges swappedGraph :=
    ⟨rfl, List.reverse_perm _, rfl, rfl⟩
  obtain ⟨compiles, agree⟩ := node_order_is_irrelevant (σ := SimulatedDriver) arranged
    ⟨false, ⟨0, 8, 6⟩⟩ .standard
  obtain ⟨artifact, compiled⟩ := compiles.mp ⟨_, compile_forkedGraph⟩
  obtain ⟨-, restores⟩ := agree _ artifact compile_forkedGraph compiled
  obtain ⟨-, restorable, engines⟩ := restores (SimulatedDriver.ofCapabilities [⟨8, 6⟩]) "forked"
  have restored := congrArg Prod.snd restore_forkedPlan
  obtain ⟨engine, restored'⟩ := restorable.mp ⟨forkedEngine, restored⟩
  obtain ⟨-, -, -, -, answers⟩ := engines forkedEngine engine restored restored'
  refine ⟨arranged, by decide +kernel, artifact, engine, _, compiled, restored', execute_forkedEngine, ?_⟩
  exact (answers _ _).mp execute_forkedEngine

end TensorEngine
