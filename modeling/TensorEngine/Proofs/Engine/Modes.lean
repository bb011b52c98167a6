import TensorEngine.Proofs.Engine.Loading
import TensorEngine.Proofs.Execution.Twins

/-!
# Engines with and without dynamic shapes

A graph that asks for no shapes is lowered with and without dynamic shapes to networks that are twins.
An engine computes what its network does, and routes by the bindings of its plan. The engines of both
networks therefore answer alike.

## Main definitions

* `Lowering.Lowered.type?`: the type that is recorded for a value

## Main results

* `Engine.answers_twins`: engines of twins answer alike
* `dynamic_shapes_agree`: lowerings and engines with and without dynamic shapes
-/

namespace TensorEngine

open Lowering

/-! ### Lowerings -/

namespace Lowering

variable {table : RuleTable} {settings : Settings} {graph : Graph} {lowered : Lowered}

/-- The type that is recorded for the tensor which a value is bound to. -/
def Lowered.type? (lowered : Lowered) (id : ValueId) : Option TensorType :=
  (lowered.bindings.lookup id).bind fun x => lowered.network.types[x.index]?

theorem coherent_of_lower (h : lower table settings graph = .ok lowered) :
    lowered.network.Coherent :=
  (reached_of_lower h).coherent

/-- In every mode the same types are recorded for values, and the same kinds of layers listed. -/
theorem records_of_twins {lowered' : Lowered} (twins : lowered.network.Twins lowered'.network)
    (bindings : lowered'.bindings = lowered.bindings) :
    (∀ id, lowered'.type? id = lowered.type? id) ∧
      lowered'.network.layers.map (·.kind.name) = lowered.network.layers.map (·.kind.name) := by
  refine ⟨fun id => by rw [Lowered.type?, Lowered.type?, bindings, twins.types], ?_⟩
  rw [← List.forall₂_eq_eq_eq, List.forall₂_map_left_iff, List.forall₂_map_right_iff]
  exact twins.layers.flip.imp fun _ _ both => both.kind.name_eq

end Lowering

/-! ### Engines -/

namespace Engine

variable {σ : Type} [DeviceDriver σ] {network network' : Network} {config config' : BuildConfig}
  {device device' : DeviceDescriptor} {artifact artifact' : EngineArtifact} {engine engine' : Engine}

/-- An engine that is restored from what the builder made of a network runs the plan of it. -/
theorem exists_plan_of_restore {driver next : σ} {name : String}
    (built : referenceBuilder.build network config device = .ok artifact)
    (restored : restore driver referenceBackend name artifact.toPayload = (next, .ok engine)) :
    ∃ plan, EnginePlan.ofNetwork network config device.capability = .ok plan ∧ plan.InWords ∧
      engine.loaded = .ofPlan plan plan.bytes ∧
      bindingMaps engine.loaded = .ok (engine.inputs, engine.outputs) := by
  obtain ⟨plan, planned, rfl⟩ := referenceBuilder_build_eq_ok_iff.mp built
  obtain ⟨load, maps⟩ := restore_eq_ok restored
  obtain ⟨words, loaded⟩ := referenceBackend_load_eq_ok load
  exact ⟨plan, planned, words, loaded, maps⟩

/-- The tensors in the slots are among the inputs. -/
theorem mem_of_mem_inputSlots {inputs : List Tensor} {t : Tensor}
    (member : some t ∈ engine.inputSlots inputs) : t ∈ inputs := by
  obtain ⟨slot, -, held⟩ := List.mem_map.mp member
  obtain ⟨k, -, given⟩ := Option.bind_eq_some_iff.mp held
  exact List.mem_of_getElem? given

/-- An execution of an engine that runs a plan executes the plan, and reads the outputs off the slots
that this leaves. -/
theorem execute_ofPlan_eq_ok {plan : EnginePlan} {bytes : Bytes} {inputs outputs : List Tensor}
    (loaded : engine.loaded = .ofPlan plan bytes) (h : engine.execute inputs = .ok outputs) :
    ∃ filled, plan.execute (engine.inputSlots inputs) = (filled, .ok ()) ∧
      outputs.map .ok = (List.range engine.outputs.length).map (engine.output filled) := by
  obtain ⟨filled, executes, count, results⟩ := execute_eq_ok h
  refine ⟨filled, ?_, List.ext_getElem (by simp [count]) fun k below _ => ?_⟩
  · rw [loaded] at executes
    obtain ⟨same, result⟩ := Prod.mk.inj executes
    exact Prod.ext same (mapError_eq_ok_iff.mp result)
  · rw [List.length_map] at below
    simpa using (results k _ (List.getElem?_eq_getElem below)).symm

/-- Engines that run plans of twins return the same, if both return something. -/
theorem answers_twins {plan plan' : EnginePlan} {bytes bytes' : Bytes} {capability capability' : Capability}
    (twins : network.Twins network') (coherent : network.Coherent) (words : network.InWords)
    (planned : EnginePlan.ofNetwork network config capability = .ok plan)
    (planned' : EnginePlan.ofNetwork network' config' capability' = .ok plan')
    (loaded : engine.loaded = .ofPlan plan bytes) (loaded' : engine'.loaded = .ofPlan plan' bytes')
    (maps : bindingMaps engine.loaded = .ok (engine.inputs, engine.outputs))
    (maps' : bindingMaps engine'.loaded = .ok (engine'.inputs, engine'.outputs))
    {inputs outputs outputs' : List Tensor} (elements : ∀ t ∈ inputs, t.Compact)
    (answered : engine.execute inputs = .ok outputs)
    (answered' : engine'.execute inputs = .ok outputs') : outputs' = outputs := by
  have bindings := EnginePlan.bindings_twins twins planned planned'
  have count : engine'.loaded.slotCount = engine.loaded.slotCount := by
    rw [loaded, loaded']
    exact congrArg List.length bindings
  have bound : engine'.loaded.binding? = engine.loaded.binding? := by
    funext slot
    rw [loaded, loaded']
    exact congrArg (fun list => Option.map PlanBinding.spec list[slot]?) bindings
  rw [bindingMaps_congr count bound] at maps'
  obtain ⟨sameInputs, sameOutputs⟩ := Prod.mk.inj (Except.ok.inj (maps'.symm.trans maps))
  obtain ⟨filled, done, results⟩ := execute_ofPlan_eq_ok loaded answered
  obtain ⟨filled', done', results'⟩ := execute_ofPlan_eq_ok loaded' answered'
  have slots : engine'.inputSlots inputs = engine.inputSlots inputs := by
    rw [inputSlots, inputSlots, count, sameInputs]
  rw [slots] at done'
  obtain rfl := EnginePlan.execute_twins twins coherent words planned planned'
    (fun t member => elements t (mem_of_mem_inputSlots member)) done done'
  have output : engine'.output filled' = engine.output filled' := by
    funext k
    rw [Engine.output, Engine.output, sameOutputs]
  rw [output, sameOutputs, ← results] at results'
  exact List.map_injective_iff.mpr (fun _ _ => Except.ok.inj) results'

end Engine

variable {σ : Type} [DeviceDriver σ]

/-- A graph that asks for no shapes, declares no extents of zero, and has no constants without elements
is lowered with dynamic shapes if and only if it is lowered without. Both networks record the same types
for the values of the graph, and list the same kinds of layers. The engines that are built from them
return the same for inputs that have elements, if both return something. -/
theorem dynamic_shapes_agree {graph : Graph} (words : graph.InWords)
    (shapes : ∀ node ∈ graph.nodes, node.signature ∉ reshapingSignatures)
    (inputs : ∀ id name dtype dims, graph.value id = .ok ⟨name, .input dtype dims⟩ →
      ∀ d ∈ dims, 1 ≤ d ∨ d = -1)
    (constants : ∀ id name t, graph.value id = .ok ⟨name, .constant (.tensor t)⟩ → 0 ∉ t.shape)
    (device device' : DeviceDescriptor) :
    ((∃ lowered, lower .builtin ⟨true, device⟩ graph = .ok lowered) ↔
      ∃ lowered, lower .builtin ⟨false, device'⟩ graph = .ok lowered) ∧
    ∀ lowered lowered', lower .builtin ⟨true, device⟩ graph = .ok lowered →
      lower .builtin ⟨false, device'⟩ graph = .ok lowered' →
      (∀ id, lowered'.type? id = lowered.type? id) ∧
      lowered'.network.layers.map (·.kind.name) = lowered.network.layers.map (·.kind.name) ∧
      ∀ config config' artifact artifact',
        referenceBuilder.build lowered.network config device = .ok artifact →
        referenceBuilder.build lowered'.network config' device' = .ok artifact' →
        ∀ (driver driver' next next' : σ) name name' engine engine',
          Engine.restore driver referenceBackend name artifact.toPayload = (next, .ok engine) →
          Engine.restore driver' referenceBackend name' artifact'.toPayload = (next', .ok engine') →
          ∀ tensors outputs outputs', (∀ t ∈ tensors, t.Addressable ∧ 0 ∉ t.shape) →
            engine.execute tensors = .ok outputs → engine'.execute tensors = .ok outputs' →
            outputs' = outputs := by
  have unshaped : Unshaped graph := by
    refine ⟨shapes, fun id _ name dtype dims known zero => ?_, fun id name t known => ?_⟩
    · have extent := inputs id name dtype dims known 0 zero
      omega
    · exact .of_addressable (words.constants id name t known) (constants id name t known)
  refine ⟨⟨fun ⟨_, h⟩ => ?_, fun ⟨_, h⟩ => ?_⟩, ?_⟩
  · obtain ⟨lowered', lowers, -⟩ := lower_twins unshaped ⟨false, device'⟩ h
    exact ⟨lowered', lowers⟩
  · obtain ⟨lowered', lowers, -⟩ := lower_twins unshaped ⟨true, device⟩ h
    exact ⟨lowered', lowers⟩
  intro lowered lowered' lowers lowers'
  obtain ⟨_, again, twins, bindings⟩ := lower_twins unshaped ⟨false, device'⟩ lowers
  cases lowers'.symm.trans again
  obtain ⟨types, kinds⟩ := records_of_twins twins bindings
  refine ⟨types, kinds, ?_⟩
  intro config config' artifact artifact' built built' driver driver' next next' name name' engine
    engine' restored restored' tensors outputs outputs' given answered answered'
  obtain ⟨plan, planned, planWords, loaded, maps⟩ := Engine.exists_plan_of_restore built restored
  obtain ⟨plan', planned', -, loaded', maps'⟩ := Engine.exists_plan_of_restore built' restored'
  have networkWords : lowered.network.InWords :=
    (EnginePlan.isFor_of_ofNetwork planned).planned ▸ planWords.network
  exact Engine.answers_twins twins (coherent_of_lower lowers) networkWords planned planned' loaded
    loaded' maps maps' (fun t member => .of_addressable (given t member).1 (given t member).2)
    answered answered'

/-- A graph that joins the axes of a matrix. -/
def joinedGraph : Graph where
  values := [⟨"x", .input .f32 [2, 2]⟩, ⟨"%1", .constant (.int 0)⟩, ⟨"%2", .constant (.int (-1))⟩,
    ⟨"%3", .tensor⟩]
  nodes := [⟨⟨"aten::flatten.using_ints(Tensor self, int start_dim=0, int end_dim=-1) -> (Tensor)"⟩,
    [⟨0⟩, ⟨1⟩, ⟨2⟩], [⟨3⟩]⟩]
  inputs := [⟨0⟩]
  outputs := [⟨3⟩]

/-- The calls that build its network, with this target of the joined axes. -/
def joinedEdits (target : Dims) : List Network.Edit :=
  [.addInput "input_0" .f32 [2, 2],
    .addShuffle "%3 = aten::flatten.using_ints(%0, %1, %2)" ⟨0⟩ (.reshaping target),
    .markOutput ⟨1⟩ "output_0"]

/-- The plan of that network. -/
def joinedPlan (target : Dims) : EnginePlan where
  formatVersion := 1
  engineName := "engine"
  builtFor := ⟨8, 6⟩
  network := .built (joinedEdits target)
  bindings := [⟨⟨⟨"input_0"⟩, true, .f32, [2, 2]⟩, ⟨0⟩⟩, ⟨⟨⟨"output_0"⟩, false, .f32, [4]⟩, ⟨1⟩⟩]

/-- The engine that is restored from that plan. -/
def joinedEngine (target : Dims) : Engine where
  name := Engine.nameOf "joined"
  device := ⟨0, 8, 6⟩
  loaded := .ofPlan (joinedPlan target) (joinedPlan target).bytes
  inputs := [(0, 0)]
  outputs := [(1, 0)]

theorem lower_joinedGraph_dynamic : (lower .builtin ⟨true, ⟨0, 8, 6⟩⟩ joinedGraph).map (·.network) =
    .ok (.built (joinedEdits [-1])) := by
  decide +kernel

theorem lower_joinedGraph_static : (lower .builtin ⟨false, ⟨0, 8, 6⟩⟩ joinedGraph).map (·.network) =
    .ok (.built (joinedEdits [4])) := by
  decide +kernel

theorem ofNetwork_joinedEdits {target : Dims} (asked : target = [-1] ∨ target = [4]) :
    EnginePlan.ofNetwork (.built (joinedEdits target)) .standard ⟨8, 6⟩ =
      .ok (joinedPlan target) := by
  rcases asked with rfl | rfl <;> rfl

theorem load_joinedPlan {target : Dims} (asked : target = [-1] ∨ target = [4]) :
    EnginePlan.load (joinedPlan target).bytes = .ok (joinedPlan target) := by
  have isFor := EnginePlan.isFor_of_ofNetwork (ofNetwork_joinedEdits asked)
  have stored : ∀ e ∈ joinedEdits target, e.Stored := by
    rcases asked with rfl | rfl <;> decide
  have reached := Network.Reached.of_built stored
  have words := isFor.inWords (reached.inWords (fun _ call => call) (by
    rcases asked with rfl | rfl <;> decide))
  exact EnginePlan.load_bytes words rfl (isFor.validate reached.coherent)

theorem restore_joinedPlan {target : Dims} (asked : target = [-1] ∨ target = [4]) :
    Engine.restore (SimulatedDriver.ofCapabilities [⟨8, 6⟩]) referenceBackend "joined"
        (EngineArtifact.toPayload ⟨⟨0, 8, 6⟩, (joinedPlan target).bytes⟩) =
      (⟨[⟨0, 8, 6⟩], 0, 1⟩, .ok (joinedEngine target)) := by
  have selected : DeviceDriver.select (SimulatedDriver.ofCapabilities [⟨8, 6⟩])
      (DeviceDescriptor.id ⟨0, 8, 6⟩) = .ok ⟨[⟨0, 8, 6⟩], 0, 1⟩ := rfl
  have capable : Capability.canRun (DeviceDescriptor.capability ⟨0, 8, 6⟩)
      (DeviceDescriptor.capability ⟨0, 8, 6⟩) := by decide
  have load : referenceBackend.load (joinedPlan target).bytes =
      .ok (.ofPlan (joinedPlan target) (joinedPlan target).bytes) :=
    referenceBackend_load_eq_ok_iff.mpr ⟨_, load_joinedPlan asked, rfl⟩
  have maps : Engine.bindingMaps (.ofPlan (joinedPlan target) (joinedPlan target).bytes) =
      .ok ([(0, 0)], [(1, 0)]) := by rfl
  exact Engine.restore_of_load selected rfl capable rfl load rfl rfl maps "joined"

theorem execute_joinedEngine {target : Dims} (asked : target = [-1] ∨ target = [4]) :
    (joinedEngine target).execute [squareMatrix] =
      .ok [⟨.f32, [4], squareMatrix.data, rfl⟩] := by
  rcases asked with rfl | rfl <;> rfl

/-- The networks of that graph are different, and their engines return the same. -/
theorem dynamic_shapes_agree_joined : ∃ lowered lowered',
    lower .builtin ⟨true, ⟨0, 8, 6⟩⟩ joinedGraph = .ok lowered ∧
      lower .builtin ⟨false, ⟨0, 8, 6⟩⟩ joinedGraph = .ok lowered' ∧
      lowered'.network ≠ lowered.network ∧ (∀ id, lowered'.type? id = lowered.type? id) ∧
      ∃ outputs, (joinedEngine [-1]).execute [squareMatrix] = .ok outputs ∧
        (joinedEngine [4]).execute [squareMatrix] = .ok outputs := by
  have inputs : ∀ id name dtype dims, joinedGraph.value id = .ok ⟨name, .input dtype dims⟩ →
      dtype = .f32 ∧ dims = [2, 2] := by
    rintro ⟨_ | _ | _ | _ | k⟩ name dtype dims known <;> cases known
    exact ⟨rfl, rfl⟩
  have noTensors : ∀ id name t, joinedGraph.value id ≠ .ok ⟨name, .constant (.tensor t)⟩ := by
    rintro ⟨_ | _ | _ | _ | k⟩ name t known <;> cases known
  have words : joinedGraph.InWords := by
    refine ⟨fun id name dtype dims known => ?_, fun id name t known => (noTensors id name t known).elim⟩
    obtain ⟨-, rfl⟩ := inputs id name dtype dims known
    decide
  obtain ⟨lowered, lowers, network⟩ := map_eq_ok_iff.mp lower_joinedGraph_dynamic
  obtain ⟨lowered', lowers', network'⟩ := map_eq_ok_iff.mp lower_joinedGraph_static
  obtain ⟨-, agree⟩ := dynamic_shapes_agree (σ := SimulatedDriver) words (by decide)
    (fun id name dtype dims known => by
      obtain ⟨-, rfl⟩ := inputs id name dtype dims known
      decide)
    (fun id name t known => (noTensors id name t known).elim) ⟨0, 8, 6⟩ ⟨0, 8, 6⟩
  obtain ⟨types, -, answers⟩ := agree lowered lowered' lowers lowers'
  have built : referenceBuilder.build lowered.network .standard ⟨0, 8, 6⟩ =
      .ok ⟨⟨0, 8, 6⟩, (joinedPlan [-1]).bytes⟩ :=
    referenceBuilder_build_eq_ok_iff.mpr ⟨_, network ▸ ofNetwork_joinedEdits (.inl rfl), rfl⟩
  have built' : referenceBuilder.build lowered'.network .standard ⟨0, 8, 6⟩ =
      .ok ⟨⟨0, 8, 6⟩, (joinedPlan [4]).bytes⟩ :=
    referenceBuilder_build_eq_ok_iff.mpr ⟨_, network' ▸ ofNetwork_joinedEdits (.inr rfl), rfl⟩
  have executed : (joinedEngine [-1]).execute [squareMatrix] = _ := execute_joinedEngine (.inl rfl)
  have executed' : (joinedEngine [4]).execute [squareMatrix] = _ := execute_joinedEngine (.inr rfl)
  have same := answers .standard .standard _ _ built built' _ _ _ _ _ _ _ _
    (restore_joinedPlan (.inl rfl)) (restore_joinedPlan (.inr rfl)) [squareMatrix] _ _
    (List.forall_mem_singleton.mpr ⟨by decide, by decide⟩) executed executed'
  refine ⟨lowered, lowered', lowers, lowers', ?_, types, _, executed, same ▸ executed'⟩
  rw [network, network']
  decide +kernel

end TensorEngine
