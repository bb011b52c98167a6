import TensorEngine.Proofs.Engine.Limits
import TensorEngine.Proofs.Engine.Restored
import TensorEngine.Proofs.Execution.Models
import TensorEngine.Proofs.Lowering.Graph
import TensorEngine.Proofs.Plan.Loading

/-!
# Compiled engines compute their graphs

A graph is lowered, built, written to a file, read, restored and run. What the restored engine
returns is what the graph means: its outputs, in their order, are the values that the graph gives to
the ids of its outputs.

## Main results

* `compile_eq_ok_iff`: the stages of a compilation
* `compiled_engine_computes_graph`: the outputs of a restored engine
-/

namespace TensorEngine

open Lowering

/-- The label and index of a name are read back as the index, if they are read at all. -/
theorem BindingName.eq_of_logicalIndex {label : String} {index k : Nat}
    (h : (labelled label index).logicalIndex = .ok k) : k = index := by
  have hmark : '_' ∉ Nat.toDigits 10 index := fun member => by
    simpa using isDigit_of_mem_toDigits member
  have value : Nat.ofDigitChars 10 (Nat.toDigits 10 index) 0 = index :=
    Nat.ofDigitChars_toDigits (by decide) (by decide)
  simp only [logicalIndex, toList_labelled, indexText?_append hmark, Option.bind_some,
    indexOfText?, value] at h
  split at h
  next found =>
    split at found
    · exact (Except.ok.inj h).symm.trans (Option.some.inj found).symm
    · cases found
  next => cases h

/-- A graph is compiled if it is lowered to tensors of supported ranks and the network has a plan. -/
theorem compile_eq_ok_iff {table : RuleTable} {settings : Settings} {config : BuildConfig}
    {graph : Graph} {artifact : EngineArtifact} :
    compile table settings referenceBuilder config graph = .ok artifact ↔
      ∃ lowered plan, lower table settings graph = .ok lowered ∧
        (∀ t ∈ lowered.network.tensors, t.dims.rank ≤ planRankLimit) ∧
        EnginePlan.ofNetwork lowered.network config settings.device.capability = .ok plan ∧
        artifact = ⟨settings.device, plan.bytes⟩ := by
  constructor
  · intro h
    obtain ⟨network, given, built⟩ := bind_eq_ok_iff.mp h
    obtain ⟨-, ranks, lowered, lowers, rfl⟩ := networkFor_eq_ok_iff.mp given
    obtain ⟨plan, planned, rfl⟩ :=
      referenceBuilder_build_eq_ok_iff.mp (mapError_eq_ok_iff.mp built)
    exact ⟨lowered, plan, lowers, ranks, planned, rfl⟩
  · rintro ⟨lowered, plan, lowers, ranks, planned, rfl⟩
    have given : networkFor table settings referenceBuilder graph = .ok lowered.network :=
      networkFor_eq_ok_iff.mpr ⟨fun _ => rfl, ranks, lowered, lowers, rfl⟩
    refine bind_eq_ok_iff.mpr ⟨lowered.network, given, ?_⟩
    exact mapError_eq_ok_iff.mpr (referenceBuilder_build_eq_ok_iff.mpr ⟨plan, planned, rfl⟩)

/-- A graph is compiled by lowering it and building the plan of its network. -/
theorem compile_eq_ok {table : RuleTable} {settings : Settings} {config : BuildConfig}
    {graph : Graph} {artifact : EngineArtifact}
    (h : compile table settings referenceBuilder config graph = .ok artifact) :
    ∃ state plan, (lowering table graph).run (.start settings) = (.ok (), state) ∧
      EnginePlan.ofNetwork state.network config settings.device.capability = .ok plan ∧
      artifact = ⟨settings.device, plan.bytes⟩ := by
  obtain ⟨lowered, plan, lowers, -, planned, rfl⟩ := compile_eq_ok_iff.mp h
  obtain ⟨state, ran, rfl⟩ := lower_eq_ok_iff.mp lowers
  exact ⟨state, plan, ran, planned, rfl⟩

theorem referenceBackend_load_eq_ok {plan : EnginePlan} {loaded : LoadedEngine}
    (h : referenceBackend.load plan.bytes = .ok loaded) :
    plan.InWords ∧ loaded = .ofPlan plan plan.bytes := by
  obtain ⟨parsed, load, rfl⟩ := referenceBackend_load_eq_ok_iff.mp h
  obtain ⟨words, rfl⟩ :=
    EnginePlan.parse?_bytes_eq_some_iff.mp (EnginePlan.load_eq_ok_iff.mp load).1
  exact ⟨words, rfl⟩

namespace EnginePlan.IsFor

variable {network : Network} {config : BuildConfig} {plan : EnginePlan}

theorem countP_outputs (h : plan.IsFor network config) :
    plan.bindings.countP (·.spec.isInput == false) = network.outputs.length :=
  h.countP_eq false

/-- A binding is named as the network names its tensor. -/
theorem name_eq (h : plan.IsFor network config) {b : PlanBinding} (member : b ∈ plan.bindings)
    {name : BindingName} (named : network.IsNamed b.tensor name) : b.spec.name = name := by
  obtain ⟨record, known, same⟩ := named
  cases (h.binds member).2.symm.trans known
  exact congrArg BindingName.mk same

end EnginePlan.IsFor

variable {σ : Type} [DeviceDriver σ]

/-- The outputs of a restored engine are the values that the graph it was compiled from gives to the
ids of its outputs, and it gives them no others. -/
theorem compiled_engine_computes_graph {settings : Settings} {config : BuildConfig} {graph : Graph}
    {artifact : EngineArtifact}
    (compiled : compile .builtin settings referenceBuilder config graph = .ok artifact)
    (single : config.allowHalf = false)
    (tensors : ∀ node ∈ graph.nodes, ∀ id ∈ node.outputs,
      ∃ name, graph.value id = .ok ⟨name, .tensor⟩)
    (constants : ∀ id name t, graph.value id = .ok ⟨name, .constant (.tensor t)⟩ → 0 ∉ t.shape) :
    ∃ payload, EnginePayload.ofFile artifact.toPayload.toFile = .ok payload ∧
      ∀ (driver driver' : σ) name engine,
        Engine.restore driver referenceBackend name payload = (driver', .ok engine) →
        ∀ inputs outputs, (∀ t ∈ inputs, t.Stored ∧ 0 ∉ t.shape) →
          engine.execute inputs = .ok outputs →
          outputs.length = graph.outputs.length ∧
            ∀ (j : Nat) id, graph.outputs[j]? = some id → ∃ t, outputs[j]? = some t ∧
              ∀ c, graph.Evaluates inputs id c ↔ c = .tensor t := by
  obtain ⟨state, plan, ran, planned, rfl⟩ := compile_eq_ok compiled
  refine ⟨_, EnginePayload.ofFile_toFile (by
    rw [EngineArtifact.toPayload, DeviceDescriptor.length_encode]; decide), ?_⟩
  intro driver driver' name engine restored inputs outputs given executed
  obtain ⟨loads, maps⟩ := Engine.restore_eq_ok restored
  obtain ⟨words, loaded⟩ := referenceBackend_load_eq_ok loads
  have isFor := EnginePlan.isFor_of_ofNetwork planned
  have reached : ((lowering .builtin graph).run (.start settings)).2.network.Reached fun _ => True :=
    Program.run_reached _ .empty
  have coherent := reached.coherent
  rw [ran] at coherent
  have networkWords : state.network.InWords := isFor.planned ▸ words.network
  obtain ⟨slots, executes, count, results⟩ := Engine.execute_eq_ok executed
  have done : plan.execute (engine.inputSlots inputs) = (slots, .ok ()) := by
    rw [loaded] at executes
    obtain ⟨same, result⟩ := Prod.mk.inj executes
    exact Prod.ext same (mapError_eq_ok_iff.mp result)
  have binding? : ∀ slot, engine.loaded.binding? slot = (plan.bindings[slot]?).map (·.spec) :=
    fun slot => loaded ▸ rfl
  obtain ⟨values, model, bound⟩ :=
    EnginePlan.models_of_execute isFor coherent networkWords single done
  -- The loader routes by the index in a name, and the name of an input has its place as index.
  have routed : ∀ k x, state.network.inputs[k]? = some x → state.network.IsNamed x (.input k) →
      ∃ t, inputs[k]? = some t ∧ values.get? x = some t ∧ t.Compact := by
    intro k x input named
    obtain ⟨b, member, isInput, rfl⟩ := isFor.exists_input (List.mem_of_getElem? input)
    obtain ⟨slot, listed⟩ := List.mem_iff_getElem?.mp member
    obtain ⟨t, value, held⟩ := bound slot b listed
    rw [if_pos isInput] at held
    have boundTo : engine.loaded.binding? slot = some b.spec := by rw [binding?, listed]; rfl
    obtain ⟨k', index, listed'⟩ := Engine.inputSlots_eq_some maps boundTo held
    rw [isFor.name_eq member named] at index
    obtain rfl := BindingName.eq_of_logicalIndex index
    obtain ⟨stored, extents⟩ := given t (List.mem_of_getElem? listed')
    exact ⟨t, listed', value, .of_stored stored extents⟩
  obtain ⟨distinct, -, length, meanings⟩ := lowering_eq_ok ran model constants routed
  obtain ⟨order, _, ranOrder, -⟩ := Program.run_bind_eq_ok_iff.mp ran
  have ordered := mapError_eq_ok_iff.mp (Program.run_ofExcept_eq_ok_iff.mp ranOrder).1
  have sourced := Graph.sourced_of_order ordered distinct tensors
  have lengths : outputs.length = graph.outputs.length := by
    rw [count, Engine.length_outputs maps (plan.bindings.map (·.spec)), List.countP_map,
      ← length, ← isFor.countP_outputs]
    · rfl
    · rw [loaded, List.length_map]
      rfl
    · exact fun slot => by rw [binding?, List.getElem?_map]
  refine ⟨lengths, fun j id wanted => ?_⟩
  have within : j < outputs.length := lengths ▸ (List.getElem?_eq_some_iff.mp wanted).1
  have returned := List.getElem?_eq_getElem within
  refine ⟨outputs[j], returned, ?_⟩
  -- The same for outputs, from the slot back to the place in the graph.
  obtain ⟨slot, spec, indexes, held⟩ := Engine.output_eq_ok maps (results j _ returned)
  obtain ⟨b, listed, rfl⟩ := Option.map_eq_some_iff.mp ((binding? slot).symm.trans indexes.binding)
  obtain ⟨t, value, held'⟩ := bound slot b listed
  have isOutput : ¬b.spec.isInput = true := by simp [indexes.isInput]
  rw [if_neg isOutput] at held'
  cases held.symm.trans held'
  have member := List.mem_of_getElem? listed
  have marked := (isFor.binds member).1
  rw [if_neg isOutput] at marked
  obtain ⟨k, output⟩ := List.mem_iff_getElem?.mp marked
  obtain ⟨named, id', t', wanted', value', meaning⟩ := meanings k b.tensor output
  have index := indexes.index
  rw [isFor.name_eq member named] at index
  obtain rfl := BindingName.eq_of_logicalIndex index
  cases wanted.symm.trans wanted'
  cases value.symm.trans value'
  exact fun c => ⟨fun other => (meaning.unique sourced other).symm, fun same => same ▸ meaning⟩

/-- A graph that transposes a matrix with an unknown number of rows and joins its axes, and returns
the matrix as well. -/
def turnedGraph : Graph where
  values := [⟨"x", .input .f32 [-1, 2]⟩, ⟨"%1", .tensor⟩, ⟨"%2", .constant (.int 0)⟩,
    ⟨"%3", .constant (.int (-1))⟩, ⟨"%4", .tensor⟩]
  nodes := [⟨⟨"aten::t(Tensor self) -> (Tensor)"⟩, [⟨0⟩], [⟨1⟩]⟩,
    ⟨⟨"aten::flatten.using_ints(Tensor self, int start_dim=0, int end_dim=-1) -> (Tensor)"⟩,
      [⟨1⟩, ⟨2⟩, ⟨3⟩], [⟨4⟩]⟩]
  inputs := [⟨0⟩]
  outputs := [⟨4⟩, ⟨0⟩]

/-- The calls that build its network. -/
def turnedEdits : List Network.Edit :=
  [.addInput "input_0" .f32 [-1, 2],
    .addShuffle "%1 = aten::t(%0)" ⟨0⟩ (.transposing [1, 0]),
    .addShuffle "%4 = aten::flatten.using_ints(%1, %2, %3)" ⟨1⟩ (.reshaping [-1]),
    .markOutput ⟨2⟩ "output_0", .addShuffle "[Identity output_1]" ⟨0⟩ .identity,
    .markOutput ⟨3⟩ "output_1"]

/-- The plan of that network. -/
def turnedPlan : EnginePlan where
  formatVersion := 1
  engineName := "engine"
  builtFor := ⟨8, 6⟩
  network := .built turnedEdits
  bindings := [⟨⟨⟨"input_0"⟩, true, .f32, [-1, 2]⟩, ⟨0⟩⟩, ⟨⟨⟨"output_0"⟩, false, .f32, [-1]⟩, ⟨2⟩⟩,
    ⟨⟨⟨"output_1"⟩, false, .f32, [-1, 2]⟩, ⟨3⟩⟩]

theorem ofNetwork_turnedEdits :
    EnginePlan.ofNetwork (.built turnedEdits) .standard ⟨8, 6⟩ = .ok turnedPlan := by
  rfl

theorem compile_turnedGraph :
    compile .builtin ⟨true, ⟨0, 8, 6⟩⟩ referenceBuilder .standard turnedGraph =
      .ok ⟨⟨0, 8, 6⟩, turnedPlan.bytes⟩ := by
  have network : networkFor .builtin ⟨true, ⟨0, 8, 6⟩⟩ referenceBuilder turnedGraph =
      .ok (.built turnedEdits) := by decide +kernel
  exact bind_eq_ok_iff.mpr ⟨_, network, mapError_eq_ok_iff.mpr
    (referenceBuilder_build_eq_ok_iff.mpr ⟨turnedPlan, ofNetwork_turnedEdits, rfl⟩)⟩

theorem turnedEdits_stored : ∀ e ∈ turnedEdits, e.Stored := by
  decide

/-- The engine that is restored from that plan. -/
def turnedEngine : Engine where
  name := Engine.nameOf "matrix"
  device := ⟨0, 8, 6⟩
  loaded := .ofPlan turnedPlan turnedPlan.bytes
  inputs := [(0, 0)]
  outputs := [(1, 0), (2, 1)]

/-- The numbers one to four as a matrix, by rows. -/
def squareMatrix : Tensor :=
  ⟨.f32, [2, 2], [0, 0, 128, 63, 0, 0, 0, 64, 0, 0, 64, 64, 0, 0, 128, 64], rfl⟩

/-- The same numbers by columns. -/
def turnedMatrix : Tensor :=
  ⟨.f32, [4], [0, 0, 128, 63, 0, 0, 64, 64, 0, 0, 0, 64, 0, 0, 128, 64], rfl⟩

theorem execute_turnedEngine :
    turnedEngine.execute [squareMatrix] = .ok [turnedMatrix, squareMatrix] := by
  rfl

theorem restore_turnedPlan :
    Engine.restore (SimulatedDriver.ofCapabilities [⟨8, 6⟩]) referenceBackend "matrix"
        ⟨DeviceDescriptor.encode ⟨0, 8, 6⟩, turnedPlan.bytes⟩ =
      (⟨[⟨0, 8, 6⟩], 0, 1⟩, .ok turnedEngine) := by
  have words := (EnginePlan.isFor_of_ofNetwork ofNetwork_turnedEdits).inWords
    ((Network.Reached.of_built turnedEdits_stored).inWords (fun _ call => call) (by decide))
  have load : referenceBackend.load turnedPlan.bytes =
      .ok (.ofPlan turnedPlan turnedPlan.bytes) := by
    have read : EnginePlan.load turnedPlan.bytes = .ok turnedPlan :=
      EnginePlan.load_bytes words rfl (by rfl)
    simp [referenceBackend, read, Except.mapError, Except.map]
  have loads : Engine.loadFor referenceBackend ⟨0, 8, 6⟩ turnedPlan.bytes =
      .ok (.ofPlan turnedPlan turnedPlan.bytes, [(0, 0)], [(1, 0), (2, 1)]) := by
    unfold Engine.loadFor
    rw [load]
    rfl
  have selected : Engine.selectRecorded (SimulatedDriver.ofCapabilities [⟨8, 6⟩])
      (DeviceDescriptor.encode ⟨0, 8, 6⟩) = .ok (⟨[⟨0, 8, 6⟩], 0, 1⟩, ⟨0, 8, 6⟩) := by rfl
  have engine : Engine.onRecorded (⟨[⟨0, 8, 6⟩], 0, 1⟩ : SimulatedDriver) referenceBackend
      (Engine.nameOf "matrix") ⟨0, 8, 6⟩ turnedPlan.bytes = .ok turnedEngine :=
    bind_eq_ok_iff.mpr ⟨_, rfl, bind_eq_ok_iff.mpr ⟨(), rfl,
      bind_eq_ok_iff.mpr ⟨_, loads, rfl⟩⟩⟩
  unfold Engine.restore
  rw [if_neg (by decide)]
  dsimp only
  rw [selected]
  dsimp only
  rw [engine]

/-- The engine of that graph returns what the graph means. -/
theorem compiled_engine_computes_graph_turned :
    compile .builtin ⟨true, ⟨0, 8, 6⟩⟩ referenceBuilder .standard turnedGraph =
        .ok ⟨⟨0, 8, 6⟩, turnedPlan.bytes⟩ ∧
      turnedEngine.execute [squareMatrix] = .ok [turnedMatrix, squareMatrix] ∧
      (∀ c, turnedGraph.Evaluates [squareMatrix] ⟨4⟩ c ↔ c = .tensor turnedMatrix) ∧
      ∀ c, turnedGraph.Evaluates [squareMatrix] ⟨0⟩ c ↔ c = .tensor squareMatrix := by
  obtain ⟨payload, read, computes⟩ := compiled_engine_computes_graph (σ := SimulatedDriver)
    compile_turnedGraph rfl (by simp [turnedGraph, Graph.value]) (by
      rintro ⟨_ | _ | _ | _ | _ | k⟩ name t known <;> cases known)
  cases read.symm.trans (EnginePayload.ofFile_toFile (by decide))
  have stored : squareMatrix.Stored := Tensor.stored_iff.mpr
    ⟨List.forall_mem_cons.mpr ⟨by decide, List.forall_mem_singleton.mpr (by decide)⟩, rfl⟩
  obtain ⟨-, outputs⟩ := computes _ _ _ _ restore_turnedPlan _ _
    (List.forall_mem_singleton.mpr ⟨stored, by decide⟩) execute_turnedEngine
  obtain ⟨t, first, turned⟩ := outputs 0 ⟨4⟩ rfl
  obtain ⟨u, second, same⟩ := outputs 1 ⟨0⟩ rfl
  cases first
  cases second
  exact ⟨compile_turnedGraph, execute_turnedEngine, turned, same⟩

end TensorEngine
