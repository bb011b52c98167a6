import TensorEngine.Backend.Basic
import TensorEngine.Proofs.Network.Words
import TensorEngine.Proofs.Plan.Built
import TensorEngine.Proofs.Plan.Codec

/-!
# Loading what was built

The engine bytes of a plan are read as that plan, and the plan of a network passes the check of
valid plans, so that an engine that was built is loaded again when its constants are stored.

## Main results

* `EnginePlan.load_eq_ok_iff`, `EnginePlan.validate_eq_ok_iff`: what loading checks
* `checkReads_ok`: layers that read only what is available pass the check
* `EnginePlan.IsFor.validate`: the plan of a network is valid
* `built_engine_is_loaded`: reading and loading give back what was written and built
-/

namespace TensorEngine

/-- A layer passes if it has the right arity, reads only what is available and writes a tensor; the
layers behind it may read what it writes. -/
theorem checkReads_cons_eq_ok_iff {count : Nat} {available : List TensorId} {layer : Layer}
    {layers : List Layer} : checkReads count available (layer :: layers) = .ok () ↔
      layer.inputs.length = layer.kind.arity ∧ (∀ id ∈ layer.inputs, id ∈ available) ∧
        layer.output.index < count ∧
        checkReads count (layer.output :: available) layers = .ok () := by
  conv_lhs => unfold checkReads
  by_cases arity : layer.inputs.length = layer.kind.arity
  · rw [if_neg (not_not.mpr arity)]
    rcases unready : layer.inputs.find? (fun id => id ∉ available) with _ | id
    · have ready : ∀ id ∈ layer.inputs, id ∈ available := by
        simpa using List.find?_eq_none.mp unready
      by_cases target : count ≤ layer.output.index
      · rw [if_pos target]
        exact ⟨nofun, fun ⟨_, _, within, _⟩ => absurd target (Nat.not_le.mpr within)⟩
      · rw [if_neg target]
        exact ⟨fun rest => ⟨arity, ready, Nat.lt_of_not_le target, rest⟩, fun h => h.2.2.2⟩
    · have missing := List.find?_some unready
      have read := List.mem_of_find?_eq_some unready
      constructor
      · nofun
      · exact fun ⟨_, ready, _⟩ => absurd (ready id read) (by simpa using missing)
  · rw [if_pos arity]
    exact ⟨nofun, fun ⟨same, _⟩ => absurd same arity⟩

/-- Layers of the right arity, over tensors that are available or written by layers before them, pass
the check. -/
theorem checkReads_ok {count : Nat} {available : List TensorId} {layers : List Layer}
    (arity : ∀ layer ∈ layers, layer.inputs.length = layer.kind.arity)
    (target : ∀ layer ∈ layers, layer.output.index < count)
    (reads : ∀ before layer after, layers = before ++ layer :: after → ∀ id ∈ layer.inputs,
      id ∈ available ∨ ∃ earlier ∈ before, earlier.output = id) :
    checkReads count available layers = .ok () := by
  induction layers generalizing available with
  | nil => rfl
  | cons layer layers ih =>
    rw [List.forall_mem_cons] at arity target
    refine checkReads_cons_eq_ok_iff.mpr ⟨arity.1, fun id read => ?_, target.1, ?_⟩
    · simpa using reads [] layer layers rfl id read
    · refine ih arity.2 target.2 fun before next after split id read => ?_
      rcases reads (layer :: before) next after (congrArg _ split) id read with
        given | ⟨earlier, member, written⟩
      · exact .inl (List.mem_cons_of_mem _ given)
      · rcases List.mem_cons.mp member with rfl | member
        · exact .inl (written ▸ List.mem_cons_self)
        · exact .inr ⟨earlier, member, written⟩

namespace EnginePlan

/-- A plan is valid if its bindings stand for tensors that are there and its layers pass. -/
theorem validate_eq_ok_iff {plan : EnginePlan} : plan.validate = .ok () ↔
    (∀ b ∈ plan.bindings, b.tensor.index < plan.network.tensors.length) ∧
      checkReads plan.network.tensors.length plan.inputTensors plan.network.layers = .ok () := by
  unfold validate
  rcases missing : plan.bindings.find? (fun b => plan.network.tensors.length ≤ b.tensor.index) with
    _ | b
  · have within : ∀ b ∈ plan.bindings, b.tensor.index < plan.network.tensors.length := by
      simpa using List.find?_eq_none.mp missing
    simpa [missing] using fun _ => within
  · have beyond := List.find?_some missing
    have member := List.mem_of_find?_eq_some missing
    simp only [missing]
    exact ⟨nofun, fun ⟨within, _⟩ => absurd (within b member) (by simpa using beyond)⟩

/-- Bytes are loaded if they write a valid plan of the right version. -/
theorem load_eq_ok_iff {engine : Bytes} {plan : EnginePlan} : load engine = .ok plan ↔
    parse? engine = some plan ∧ plan.formatVersion = planFormatVersion ∧
      plan.validate = .ok () := by
  unfold load
  rcases parse? engine with _ | parsed
  · exact ⟨nofun, nofun⟩
  · by_cases version : parsed.formatVersion = planFormatVersion
    · simp only [version, ne_eq, not_true_eq_false, if_false, bind_eq_ok_iff, Option.some.injEq]
      constructor
      · rintro ⟨_, valid, same⟩
        cases same
        exact ⟨rfl, version, valid⟩
      · rintro ⟨rfl, -, valid⟩
        exact ⟨(), valid, rfl⟩
    · simp only [ne_eq, version, not_false_eq_true, if_true, Option.some.injEq]
      exact ⟨nofun, fun ⟨same, right, _⟩ => absurd (same ▸ right) version⟩

theorem load_bytes {plan : EnginePlan} (words : plan.InWords)
    (version : plan.formatVersion = planFormatVersion) (valid : plan.validate = .ok ()) :
    load plan.bytes = .ok plan :=
  load_eq_ok_iff.mpr ⟨parse?_bytes_eq_some_iff.mpr ⟨words, rfl⟩, version, valid⟩

end EnginePlan

/-- The reference backend loads what is the text of a valid plan. -/
theorem referenceBackend_load_eq_ok_iff {engine : Bytes} {loaded : LoadedEngine} :
    referenceBackend.load engine = .ok loaded ↔
      ∃ plan, EnginePlan.load engine = .ok plan ∧ loaded = .ofPlan plan engine := by
  simp only [referenceBackend, map_eq_ok_iff, mapError_eq_ok_iff]
  exact exists_congr fun plan => and_congr_right fun _ => eq_comm

namespace EnginePlan.IsFor

variable {network : Network} {config : BuildConfig} {plan : EnginePlan}

/-- Every binding stands for a tensor that is there. -/
theorem binding_lt (h : plan.IsFor network config) {b : PlanBinding} (member : b ∈ plan.bindings) :
    b.tensor.index < network.tensors.length :=
  (List.getElem?_eq_some_iff.mp (Network.tensor_eq_ok_iff.mp (h.binds member).2)).1

/-- The plan of a coherent network is valid. -/
theorem validate (h : plan.IsFor network config) (coherent : network.Coherent) :
    plan.validate = .ok () := by
  refine validate_eq_ok_iff.mpr ⟨fun b member => h.planned ▸ h.binding_lt member, ?_⟩
  rw [h.planned]
  refine checkReads_ok (fun layer => coherent.arity) (fun layer => coherent.output_lt) ?_
  intro before layer after split id read
  refine (coherent.available split read).imp_left fun input => ?_
  obtain ⟨b, member, isInput, rfl⟩ := h.exists_input input
  exact List.mem_map_of_mem (List.mem_filter.mpr ⟨member, isInput⟩)

/-- The numbers of the plan of a network are words when those of the network are. -/
theorem inWords (h : plan.IsFor network config) (words : network.InWords) :
    plan.InWords := by
  refine ⟨h.formatVersion ▸ (by decide), h.planned ▸ words, fun b member => ⟨?_, ?_⟩⟩
  · exact words.tensors _ (List.mem_of_getElem? (Network.tensor_eq_ok_iff.mp (h.binds member).2))
  · have listed := (h.binds member).1
    split at listed
    · exact words.inputs _ listed
    · exact words.outputs _ listed

end EnginePlan.IsFor

theorem referenceBuilder_build_eq_ok_iff {network : Network} {config : BuildConfig}
    {device : DeviceDescriptor} {artifact : EngineArtifact} :
    referenceBuilder.build network config device = .ok artifact ↔
      ∃ plan, EnginePlan.ofNetwork network config device.capability = .ok plan ∧
        artifact = ⟨device, plan.bytes⟩ := by
  simp only [referenceBuilder, bind_eq_ok_iff]
  exact exists_congr fun plan => and_congr_right fun _ =>
    ⟨fun h => (Except.ok.inj h).symm, fun h => h ▸ rfl⟩

/-- The text of every plan whose numbers fit in words, and whose constants are stored, reads back
as the plan. What is built from a network with such numbers and fewer tensors than there are words
is loaded again: with the same network and bindings, and it is persisted as the same bytes. -/
theorem built_engine_is_loaded :
    (∀ plan : EnginePlan, plan.InWords → EnginePlan.parse? plan.bytes = some plan) ∧
    ∀ (edits : List Network.Edit) (config : BuildConfig) (device : DeviceDescriptor)
      (artifact : EngineArtifact), (∀ e ∈ edits, e.Stored) →
      (Network.built edits).tensors.length ≤ Unsigned.bound →
      referenceBuilder.build (.built edits) config device = .ok artifact →
      ∃ plan loaded, EnginePlan.ofNetwork (.built edits) config device.capability = .ok plan ∧
        EnginePlan.load artifact.engine = .ok plan ∧ plan.network = .built edits ∧
        referenceBackend.load artifact.engine = .ok loaded ∧
        loaded.slotCount = plan.bindings.length ∧
        (∀ slot, loaded.binding? slot = (plan.bindings[slot]?).map (·.spec)) ∧
        loaded.serialize = .ok artifact.engine := by
  refine ⟨fun plan words => EnginePlan.parse?_bytes_eq_some_iff.mpr ⟨words, rfl⟩, ?_⟩
  intro edits config device artifact stored count built
  obtain ⟨plan, planned, rfl⟩ := referenceBuilder_build_eq_ok_iff.mp built
  have isFor := EnginePlan.isFor_of_ofNetwork planned
  have reached := Network.Reached.of_built stored
  have words := isFor.inWords (reached.inWords (fun _ call => call) count)
  have load := EnginePlan.load_bytes words isFor.formatVersion (isFor.validate reached.coherent)
  refine ⟨plan, .ofPlan plan plan.bytes, planned, load, isFor.planned, ?_, rfl, fun _ => rfl, rfl⟩
  simp [referenceBackend, load, Except.mapError, Except.map]

/-- Calls for a network whose names need every kind of escape, with a constant. -/
def quotedEdits : List Network.Edit :=
  [.addInput "in \"\\\n☃_0" .f32 [-0x8000000000000000],
    .addConstant "one\x01" ⟨.f32, [1], [0, 0, 128, 63], rfl⟩,
    .addElementWise "sum" ⟨1⟩ ⟨1⟩ .sum, .markOutput ⟨2⟩ "out\t_0"]

theorem quotedEdits_stored : ∀ e ∈ quotedEdits, e.Stored := by
  decide

/-- The plan of that network. -/
def quotedPlan : EnginePlan where
  formatVersion := 1
  engineName := "engine"
  builtFor := ⟨8, 6⟩
  network := .built quotedEdits
  bindings := [⟨⟨⟨"in \"\\\n☃_0"⟩, true, .f32, [-0x8000000000000000]⟩, ⟨0⟩⟩,
    ⟨⟨⟨"out\t_0"⟩, false, .f32, [1]⟩, ⟨2⟩⟩]

/-- That plan is built, read and loaded. -/
theorem built_engine_is_loaded_quoted :
    quotedPlan.InWords ∧ EnginePlan.parse? quotedPlan.bytes = some quotedPlan ∧
      (∀ e ∈ quotedEdits, e.Stored) ∧
      (Network.built quotedEdits).tensors.length ≤ Unsigned.bound ∧
      referenceBuilder.build (.built quotedEdits) .standard ⟨0, 8, 6⟩ =
        .ok ⟨⟨0, 8, 6⟩, quotedPlan.bytes⟩ ∧
      ∃ loaded, EnginePlan.load quotedPlan.bytes = .ok quotedPlan ∧
        referenceBackend.load quotedPlan.bytes = .ok loaded ∧
        loaded.serialize = .ok quotedPlan.bytes := by
  have planned : EnginePlan.ofNetwork (.built quotedEdits) .standard ⟨8, 6⟩ = .ok quotedPlan := by
    rfl
  have count : (Network.built quotedEdits).tensors.length ≤ Unsigned.bound := by decide
  have words := (EnginePlan.isFor_of_ofNetwork planned).inWords
    ((Network.Reached.of_built quotedEdits_stored).inWords (fun _ call => call) count)
  have built : referenceBuilder.build (.built quotedEdits) .standard ⟨0, 8, 6⟩ =
      .ok ⟨⟨0, 8, 6⟩, quotedPlan.bytes⟩ :=
    referenceBuilder_build_eq_ok_iff.mpr ⟨quotedPlan, planned, rfl⟩
  obtain ⟨plan, loaded, planned', load, -, backend, -, -, serialized⟩ :=
    built_engine_is_loaded.2 _ _ _ _ quotedEdits_stored count built
  obtain rfl : quotedPlan = plan := Except.ok.inj (planned.symm.trans planned')
  exact ⟨words, built_engine_is_loaded.1 _ words, quotedEdits_stored, count, built, loaded, load,
    backend, serialized⟩

end TensorEngine
