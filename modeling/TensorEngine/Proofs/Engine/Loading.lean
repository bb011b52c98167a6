import TensorEngine.Proofs.Engine.Meaning
import TensorEngine.Proofs.Engine.Numbering
import TensorEngine.Proofs.Lowering.Sizes
import TensorEngine.Proofs.Network.Names
import TensorEngine.Proofs.Plan.Size

/-!
# Compiled engines load

Restoring an engine can fail at every stage: its record may be malformed, the device may be missing or
too old, the engine bytes may be no valid plan, and its bindings may not be numbered as the slot maps
need it. None of this happens to an engine that was compiled, on a device that can run it. Its plan has
numbers that are words, so that it is read and valid, and its bindings are those of the inputs and
outputs of the graph, sorted by names that number them.

## Main definitions

* `LoadedEngine.IsSlotOf`: the slot of a name
* `Engine.Routable`: bindings that are numbered as slot maps need it

## Main results

* `DeviceDescriptor.decode_encode`: records are read as what was written
* `Engine.exists_bindingMaps`: slot maps of routable bindings
* `Engine.restore_of_load`: the stages of restoring an engine
* `compiled_engine_loads`: compiled engines are restored, with slot maps for the graph
-/

namespace TensorEngine

/-! ### Devices -/

theorem Bytes.toInt32_ofInt32 (i : Int32) : toInt32 (ofInt32 i) = i := by
  rw [toInt32, ofInt32, toNat_ofNat, Nat.pow_eq, Nat.mod_eq_of_lt i.toUInt32.toNat_lt,
    UInt32.ofNat_toNat, Int32.toInt32_toUInt32]

/-- A record is read as the device that was written. -/
theorem DeviceDescriptor.decode_encode (device : DeviceDescriptor) :
    decode device.encode = .ok device := by
  have length : device.encode.length = deviceRecordLength := device.length_encode
  have width : ∀ i : Int32, (Bytes.ofInt32 i).length = 4 := fun _ => Bytes.length_ofNat ..
  have parts : device.encode =
      Bytes.ofInt32 device.id ++ (Bytes.ofInt32 device.major ++ Bytes.ofInt32 device.minor) :=
    List.append_assoc ..
  have rest : device.encode.drop 8 = Bytes.ofInt32 device.minor :=
    List.drop_left' (by simp [width])
  rw [decode, if_pos length, rest, parts, List.take_left' (width _),
    List.drop_left' (width _), List.take_left' (width _), Bytes.toInt32_ofInt32,
    Bytes.toInt32_ofInt32, Bytes.toInt32_ofInt32]

/-- A simulated driver has a device at the position that its id is. -/
theorem SimulatedDriver.find_eq_ok_iff {driver : SimulatedDriver} {call : String} {id : Int32}
    {device : DeviceDescriptor} : driver.find call id = .ok device ↔
      (if 0 ≤ id then driver.devices[id.toInt.toNat]? else none) = some device := by
  unfold find
  split <;> simp_all

/-- A device that is there can be made the active one. -/
theorem SimulatedDriver.select_of_properties {driver : SimulatedDriver} {id : Int32}
    {device : DeviceDescriptor} (known : DeviceDriver.properties driver id = .ok device) :
    DeviceDriver.select driver id =
        .ok { driver with activeId := id, switches := driver.switches + 1 } ∧
      DeviceDriver.active { driver with activeId := id, switches := driver.switches + 1 } =
        .ok device := by
  have found := find_eq_ok_iff.mp known
  refine ⟨?_, find_eq_ok_iff.mpr found⟩
  exact bind_eq_ok_iff.mpr ⟨device, find_eq_ok_iff.mpr found, rfl⟩

/-! ### Slot maps -/

/-- The slot is the one whose binding has this name. -/
def LoadedEngine.IsSlotOf (loaded : LoadedEngine) (name : BindingName) (slot : Nat) : Prop :=
  ∀ other, (∃ spec, loaded.binding? other = some spec ∧ spec.name = name) ↔ other = slot

namespace Engine

variable {loaded : LoadedEngine} {slots : List IndexedSlot} {specs : List BindingSpec}
  {slot k : Nat} {spec : BindingSpec} {isInput : Bool}

/-- Every binding has a logical index below the number of its kind, and no other one of its kind has
the same. -/
structure Routable (specs : List BindingSpec) : Prop where
  indexed : ∀ spec ∈ specs, ∃ k < specs.countP (·.isInput == spec.isInput),
    spec.name.logicalIndex = .ok k
  apart : specs.Pairwise fun a b => a.isInput = b.isInput →
    a.name.logicalIndex ≠ b.name.logicalIndex

/-- The slots of one kind pass the check. -/
theorem Routable.checkIndices (routable : Routable (slots.map (·.spec)))
    (indexed : ∀ s ∈ slots, s.spec.name.logicalIndex = .ok s.index) (isInput : Bool) :
    checkIndices (slots.filter (·.spec.isInput == isInput)).length []
      (slots.filter (·.spec.isInput == isInput)) = .ok () := by
  -- The indices are below the number because bindings and slots of a kind are as many, and
  -- different because the bindings are apart.
  refine checkIndices_eq_ok_iff.mpr ⟨fun s kept => ⟨?_, List.not_mem_nil⟩, ?_⟩
  · obtain ⟨member, kind⟩ := List.mem_filter.mp kept
    obtain ⟨k, below, index⟩ := routable.indexed s.spec (List.mem_map_of_mem member)
    cases (indexed s member).symm.trans index
    rw [List.countP_map, beq_iff_eq.mp kind, List.countP_eq_length_filter] at below
    exact below
  · have apart := List.pairwise_map.mp routable.apart
    refine List.pairwise_map.mpr ((apart.filter _).imp_of_mem fun keptA keptB different same => ?_)
    obtain ⟨memberA, kindA⟩ := List.mem_filter.mp keptA
    obtain ⟨memberB, kindB⟩ := List.mem_filter.mp keptB
    apply different ((beq_iff_eq.mp kindA).trans (beq_iff_eq.mp kindB).symm)
    rw [indexed _ memberA, indexed _ memberB, same]

/-- Routable bindings have slot maps. -/
theorem exists_bindingMaps (routable : Routable specs) (count : loaded.slotCount = specs.length)
    (bindings : ∀ slot, loaded.binding? slot = specs[slot]?) :
    ∃ inputs outputs, bindingMaps loaded = .ok (inputs, outputs) := by
  have named : ∀ slot < loaded.slotCount, ∃ spec k,
      loaded.binding? slot = some spec ∧ spec.name.logicalIndex = .ok k := by
    intro slot within
    rw [count] at within
    obtain ⟨k, -, index⟩ := routable.indexed specs[slot] (List.getElem_mem within)
    exact ⟨specs[slot], k, (bindings slot).trans (List.getElem?_eq_getElem within), index⟩
  obtain ⟨slots, indexed⟩ := exists_indexedSlots named
  -- From here on the slots carry the bindings, so that what is known of bindings is known of slots.
  obtain rfl := map_spec_eq indexed count bindings
  have indices : ∀ s ∈ slots, s.spec.name.logicalIndex = .ok s.index := fun s member => by
    obtain ⟨slot, -, found⟩ := forall₂_mem_right indexed member
    exact (indexedSlot_eq_ok found).2.2
  exact ⟨_, _, bindingMaps_eq_ok_iff.mpr ⟨slots, indexed, routable.checkIndices indices, rfl, rfl⟩⟩

/-- The map of a kind sends a slot to the logical index of its binding, and finds the slot by it if
no other slot of the kind has the index. -/
theorem routes_slotMap (indexed : List.Forall₂ (fun slot s => indexedSlot loaded slot = .ok s)
      (List.range loaded.slotCount) slots)
    (within : slot < loaded.slotCount) (indexes : Indexes loaded isInput slot k spec)
    (only : ∀ other spec', Indexes loaded isInput other k spec' → other = slot) :
    (slotMap (slots.filter (·.spec.isInput == isInput))).logical? slot = some k ∧
      (slotMap (slots.filter (·.spec.isInput == isInput))).slot? k = some slot := by
  have member := (mem_slotMap indexed).mpr ⟨within, spec, indexes⟩
  generalize map_eq : slotMap (slots.filter (·.spec.isInput == isInput)) = map at member
  constructor
  · cases found : map.logical? slot with
    | none =>
      have := List.lookup_eq_none_iff.mp found _ member
      simp at this
    | some k' =>
      have listed := mem_of_lookup found
      rw [← map_eq, mem_slotMap indexed] at listed
      obtain ⟨-, spec', indexes'⟩ := listed
      cases indexes.binding.symm.trans indexes'.binding
      cases indexes.index.symm.trans indexes'.index
      rfl
  · cases found : map.find? (·.2 == k) with
    | none =>
      have := List.find?_eq_none.mp found _ member
      simp at this
    | some entry =>
      obtain ⟨slot', k'⟩ := entry
      obtain rfl : k' = k := by simpa using List.find?_some found
      have listed := List.mem_of_find?_eq_some found
      rw [← map_eq, mem_slotMap indexed] at listed
      obtain ⟨-, spec', indexes'⟩ := listed
      rw [SlotMap.slot?, found, only _ _ indexes']
      rfl

/-- An engine is restored when its device can be made the active one and can run it, and when its bytes
load for the recorded capability. -/
theorem restore_of_load {σ : Type} [DeviceDriver σ] {driver driver' : σ} {backend : Backend}
    {recorded active : DeviceDescriptor} {bytes : Bytes} {inputs outputs : SlotMap}
    (selected : DeviceDriver.select driver recorded.id = .ok driver')
    (activated : DeviceDriver.active driver' = .ok active)
    (capable : active.capability.canRun recorded.capability) (started : backend.start = .ok ())
    (load : backend.load bytes = .ok loaded) (builtFor : loaded.builtFor = some recorded.capability)
    (prepared : loaded.prepare = .ok ()) (maps : bindingMaps loaded = .ok (inputs, outputs))
    (name : String) :
    restore driver backend name ⟨recorded.encode, bytes⟩ =
      (driver', .ok ⟨nameOf name, recorded, loaded, inputs, outputs⟩) := by
  have required : requireCapability active recorded.capability = .ok () := if_pos capable
  have loads : loadFor backend active bytes = .ok (loaded, inputs, outputs) := by
    refine bind_eq_ok_iff.mpr ⟨(), by rw [started]; rfl, ?_⟩
    refine bind_eq_ok_iff.mpr ⟨loaded, mapError_eq_ok_iff.mpr load, ?_⟩
    simp only [builtFor]
    refine bind_eq_ok_iff.mpr ⟨(), required, ?_⟩
    refine bind_eq_ok_iff.mpr ⟨(), by rw [prepared]; rfl, ?_⟩
    exact bind_eq_ok_iff.mpr ⟨_, maps, rfl⟩
  have engine : onRecorded driver' backend (nameOf name) recorded bytes =
      .ok ⟨nameOf name, recorded, loaded, inputs, outputs⟩ := by
    refine bind_eq_ok_iff.mpr ⟨active, mapError_eq_ok_iff.mpr activated, ?_⟩
    refine bind_eq_ok_iff.mpr ⟨(), required, ?_⟩
    exact bind_eq_ok_iff.mpr ⟨_, loads, rfl⟩
  have recordedFirst : selectRecorded driver recorded.encode = .ok (driver', recorded) := by
    refine bind_eq_ok_iff.mpr ⟨recorded, by rw [recorded.decode_encode]; rfl, ?_⟩
    exact bind_eq_ok_iff.mpr ⟨driver', by rw [selected]; rfl, rfl⟩
  have present : recorded.encode.isEmpty = false := by
    rw [List.isEmpty_eq_false_iff, ← List.length_pos_iff, recorded.length_encode]
    decide
  simp only [restore, present, recordedFirst, engine]
  rfl

end Engine

/-! ### Bindings of plans -/

theorem Network.Numbered.isNamed {network : Network} (h : network.Numbered) {isInput : Bool}
    {k : Nat} {x : TensorId}
    (listed : (if isInput then network.inputs else network.outputs)[k]? = some x) :
    network.IsNamed x (if isInput then .input k else .output k) := by
  cases isInput with
  | true => exact h.inputs k x listed
  | false => exact h.outputs k x listed

namespace EnginePlan.IsFor

variable {network : Network} {config : BuildConfig} {plan : EnginePlan}

/-- Bindings have different names. -/
theorem names_nodup (h : plan.IsFor network config) (wellFormed : network.WellFormed) :
    (plan.bindings.map (·.spec.name)).Nodup := by
  have apart : (plan.bindings.map (·.tensor)).Pairwise fun a b => ∀ s t,
      network.tensor a = .ok s → network.tensor b = .ok t → s.name ≠ t.name := by
    refine (h.tensors_perm.pairwise_iff ?_).mpr wellFormed.names
    exact fun different s t knownA knownB same => different t s knownB knownA same.symm
  refine List.pairwise_map.mpr ((List.pairwise_map.mp apart).imp_of_mem ?_)
  intro a b memberA memberB different same
  exact different _ _ (h.binds memberA).2 (h.binds memberB).2 (congrArg BindingName.text same)

/-- A binding is named by the place of its tensor among the inputs or the outputs. -/
theorem name_of_place (h : plan.IsFor network config) (numbered : network.Numbered)
    {b : PlanBinding} (member : b ∈ plan.bindings) {k : Nat}
    (place : (if b.spec.isInput then network.inputs else network.outputs)[k]? = some b.tensor) :
    b.spec.name = (if b.spec.isInput then .input k else .output k) ∧
      b.spec.name.logicalIndex = .ok k := by
  have name := h.name_eq member (numbered.isNamed place)
  obtain ⟨k', index⟩ := (h.bound member).2.index
  refine ⟨name, ?_⟩
  rw [index]
  rw [name] at index
  split at index <;> rw [BindingName.eq_of_logicalIndex index]

theorem exists_place (h : plan.IsFor network config) (numbered : network.Numbered)
    {b : PlanBinding} (member : b ∈ plan.bindings) :
    ∃ k < (if b.spec.isInput then network.inputs else network.outputs).length,
      b.spec.name = (if b.spec.isInput then .input k else .output k) ∧
      b.spec.name.logicalIndex = .ok k := by
  obtain ⟨k, place⟩ := List.mem_iff_getElem?.mp (h.bound member).1
  exact ⟨k, (List.getElem?_eq_some_iff.mp place).1, h.name_of_place numbered member place⟩

/-- The bindings of a plan can be routed. -/
theorem routable (h : plan.IsFor network config) (numbered : network.Numbered)
    (wellFormed : network.WellFormed) : Engine.Routable (plan.bindings.map (·.spec)) where
  indexed := by
    intro spec listed
    obtain ⟨b, member, rfl⟩ := List.mem_map.mp listed
    obtain ⟨k, below, -, index⟩ := h.exists_place numbered member
    rw [← h.countP_eq] at below
    exact ⟨k, by rw [List.countP_map]; exact below, index⟩
  apart := by
    have distinct := List.pairwise_map.mp (h.names_nodup wellFormed)
    refine List.pairwise_map.mpr (distinct.imp_of_mem ?_)
    intro a b memberA memberB different kind same
    obtain ⟨k, -, nameA, indexA⟩ := h.exists_place numbered memberA
    obtain ⟨l, -, nameB, indexB⟩ := h.exists_place numbered memberB
    rw [indexA, indexB] at same
    cases same
    rw [← kind, ← nameA] at nameB
    exact different nameB.symm

theorem isSlotOf (h : plan.IsFor network config) (wellFormed : network.WellFormed) {bytes : Bytes}
    {slot : Nat} {b : PlanBinding} (entry : plan.bindings[slot]? = some b) :
    (LoadedEngine.ofPlan plan bytes).IsSlotOf b.spec.name slot := by
  intro other
  constructor
  · rintro ⟨spec, bound, same⟩
    obtain ⟨b', entry', rfl⟩ := Option.map_eq_some_iff.mp bound
    have names : (plan.bindings.map (·.spec.name))[other]? =
        (plan.bindings.map (·.spec.name))[slot]? := by
      simp only [List.getElem?_map, entry, entry', Option.map_some, same]
    refine (List.getElem?_inj ?_ (h.names_nodup wellFormed)).mp names
    simpa using (List.getElem?_eq_some_iff.mp entry').1
  · rintro rfl
    exact ⟨b.spec, Option.map_eq_some_iff.mpr ⟨b, entry, rfl⟩, rfl⟩

/-- The map of a kind sends the slot of the name that a place has to the place, and finds it. -/
theorem exists_slot (h : plan.IsFor network config) (numbered : network.Numbered)
    (wellFormed : network.WellFormed) {bytes : Bytes} {slots : List Engine.IndexedSlot}
    (indexed : List.Forall₂ (fun slot s => Engine.indexedSlot (.ofPlan plan bytes) slot = .ok s)
      (List.range plan.bindings.length) slots) (isInput : Bool) {k : Nat}
    (below : k < (if isInput then network.inputs else network.outputs).length) :
    ∃ slot, (LoadedEngine.ofPlan plan bytes).IsSlotOf
        (if isInput then .input k else .output k) slot ∧
      (Engine.slotMap (slots.filter (·.spec.isInput == isInput))).logical? slot = some k ∧
      (Engine.slotMap (slots.filter (·.spec.isInput == isInput))).slot? k = some slot := by
  have place := List.getElem?_eq_getElem below
  obtain ⟨b, member, rfl, tensor⟩ := h.exists_binding (List.mem_of_getElem? place)
  rw [← tensor] at place
  obtain ⟨name, index⟩ := h.name_of_place numbered member place
  obtain ⟨slot, entry⟩ := List.mem_iff_getElem?.mp member
  have within := (List.getElem?_eq_some_iff.mp entry).1
  have isSlot : (LoadedEngine.ofPlan plan bytes).IsSlotOf b.spec.name slot :=
    h.isSlotOf wellFormed entry
  have binding : (LoadedEngine.ofPlan plan bytes).binding? slot = some b.spec :=
    Option.map_eq_some_iff.mpr ⟨b, entry, rfl⟩
  -- A slot of this kind whose binding has the index has the name as well.
  have only : ∀ other spec, Engine.Indexes (.ofPlan plan bytes) b.spec.isInput other k spec →
      other = slot := by
    intro other spec indexes
    obtain ⟨b', entry', rfl⟩ := Option.map_eq_some_iff.mp indexes.binding
    obtain ⟨l, -, name', index'⟩ := h.exists_place numbered (List.mem_of_getElem? entry')
    cases index'.symm.trans indexes.index
    rw [indexes.isInput, ← name] at name'
    exact (isSlot other).mp ⟨b'.spec, indexes.binding, name'⟩
  exact ⟨slot, name ▸ isSlot, Engine.routes_slotMap indexed within ⟨binding, rfl, index⟩ only⟩

end EnginePlan.IsFor

/-! ### Compiled engines -/

open Lowering in
/-- An engine that was compiled, and whose bytes are counted by a word, is read from its file and
restored on every device that can run it. It reports as many inputs and outputs as the graph has, and
its maps send the slot of the name of an input or output to its place in the graph, and back. -/
theorem compiled_engine_loads {settings : Settings} {config : BuildConfig} {graph : Graph}
    {artifact : EngineArtifact}
    (compiled : compile .builtin settings referenceBuilder config graph = .ok artifact)
    (words : graph.InWords)
    (constants : ∀ id name t, graph.value id = .ok ⟨name, .constant (.tensor t)⟩ → 0 ∉ t.shape)
    (fits : artifact.engine.length < Unsigned.bound) :
    ∃ payload, EnginePayload.ofFile artifact.toPayload.toFile = .ok payload ∧
      ∀ (driver : SimulatedDriver) device,
        DeviceDriver.properties driver artifact.device.id = .ok device →
        device.capability.canRun artifact.device.capability →
        ∀ name, ∃ engine,
          Engine.restore driver referenceBackend name payload =
              ({ driver with activeId := artifact.device.id, switches := driver.switches + 1 },
                .ok engine) ∧
            engine.counts = (graph.inputs.length, graph.outputs.length) ∧
            (∀ i < graph.inputs.length, ∃ slot, engine.loaded.IsSlotOf (.input i) slot ∧
              engine.inputs.logical? slot = some i ∧ engine.inputs.slot? i = some slot) ∧
            ∀ j < graph.outputs.length, ∃ slot, engine.loaded.IsSlotOf (.output j) slot ∧
              engine.outputs.logical? slot = some j ∧ engine.outputs.slot? j = some slot := by
  obtain ⟨state, plan, ran, planned, rfl⟩ := compile_eq_ok compiled
  obtain ⟨reached, countInputs, countOutputs, numbered⟩ := lowering_reached words constants ran
  have isFor := EnginePlan.isFor_of_ofNetwork planned
  have wellFormed := reached.wellFormed
  -- The plan is read as what was written, because its numbers are words.
  have ranks : ∀ layer ∈ state.network.layers, ∀ type,
      state.network.types[layer.output.index]? = some type → type.dims.rank ≤ Unsigned.bound := by
    intro layer member type recorded
    obtain ⟨output, known, rank, -⟩ := isFor.layers layer member
    cases (Network.types_getElem?_of_tensor known).symm.trans recorded
    exact Nat.le_trans rank (by decide)
  have count : state.network.tensors.length ≤ Unsigned.bound :=
    isFor.planned ▸ Nat.le_trans plan.length_tensors_le (Nat.le_of_lt fits)
  have planWords := isFor.inWords (reached.inWords_of_rank ranks count)
  have load : referenceBackend.load plan.bytes = .ok (.ofPlan plan plan.bytes) :=
    referenceBackend_load_eq_ok_iff.mpr ⟨plan, EnginePlan.load_bytes planWords
      isFor.formatVersion (isFor.validate reached.coherent), rfl⟩
  have builtFor : (LoadedEngine.ofPlan plan plan.bytes).builtFor =
      some settings.device.capability := congrArg some (EnginePlan.builtFor_of_ofNetwork planned)
  -- Its bindings have slot maps, because they are numbered by the graph.
  have slots : (LoadedEngine.ofPlan plan plan.bytes).slotCount =
      (plan.bindings.map (·.spec)).length := (List.length_map _).symm
  have bindings : ∀ slot, (LoadedEngine.ofPlan plan plan.bytes).binding? slot =
      (plan.bindings.map (·.spec))[slot]? := fun _ => (List.getElem?_map ..).symm
  obtain ⟨inputs, outputs, maps⟩ :=
    Engine.exists_bindingMaps (isFor.routable numbered wellFormed) slots bindings
  obtain ⟨indexedSlots, indexed, -, rfl, rfl⟩ := Engine.bindingMaps_eq_ok_iff.mp maps
  have lengths : ∀ isInput : Bool,
      (Engine.slotMap (indexedSlots.filter (·.spec.isInput == isInput))).length =
        (if isInput then state.network.inputs else state.network.outputs).length := by
    intro isInput
    rw [Engine.length_slotMap indexed slots bindings, List.countP_map, ← isFor.countP_eq]
    rfl
  refine ⟨_, EnginePayload.ofFile_toFile (by
    rw [EngineArtifact.toPayload, DeviceDescriptor.length_encode]; decide), ?_⟩
  intro driver device known capable name
  obtain ⟨selected, activated⟩ := SimulatedDriver.select_of_properties known
  refine ⟨_, Engine.restore_of_load selected activated capable rfl load builtFor rfl maps name,
    ?_, ?_, ?_⟩
  · exact Prod.ext ((lengths true).trans countInputs) ((lengths false).trans countOutputs)
  · intro i below
    exact isFor.exists_slot numbered wellFormed indexed true (countInputs ▸ below)
  · intro j below
    exact isFor.exists_slot numbered wellFormed indexed false (countOutputs ▸ below)

/-- The engine of the graph that transposes a matrix is restored on a device that can do more. -/
theorem compiled_engine_loads_turned :
    compile .builtin ⟨true, ⟨0, 8, 6⟩⟩ referenceBuilder .standard turnedGraph =
        .ok ⟨⟨0, 8, 6⟩, turnedPlan.bytes⟩ ∧
      turnedGraph.InWords ∧
      (∀ id name t, turnedGraph.value id = .ok ⟨name, .constant (.tensor t)⟩ → 0 ∉ t.shape) ∧
      turnedPlan.bytes.length < Unsigned.bound ∧
      ∃ engine, Engine.restore (SimulatedDriver.ofCapabilities [⟨8, 9⟩]) referenceBackend "matrix"
          ⟨DeviceDescriptor.encode ⟨0, 8, 6⟩, turnedPlan.bytes⟩ =
            (⟨[⟨0, 8, 9⟩], 0, 1⟩, .ok engine) ∧
        engine.counts = (1, 2) ∧
        (∃ slot, engine.loaded.IsSlotOf (.input 0) slot ∧ engine.inputs.logical? slot = some 0) ∧
        ∃ slot, engine.loaded.IsSlotOf (.output 1) slot ∧ engine.outputs.logical? slot = some 1 := by
  have words : turnedGraph.InWords := by
    constructor
    · rintro ⟨_ | _ | _ | _ | _ | k⟩ name dtype dims known <;> cases known
      decide
    · rintro ⟨_ | _ | _ | _ | _ | k⟩ name t known <;> cases known
  have constants : ∀ id name t,
      turnedGraph.value id = .ok ⟨name, .constant (.tensor t)⟩ → 0 ∉ t.shape := by
    rintro ⟨_ | _ | _ | _ | _ | k⟩ name t known <;> cases known
  have fits : turnedPlan.bytes.length < Unsigned.bound := by decide +kernel
  obtain ⟨payload, read, loads⟩ :=
    compiled_engine_loads compile_turnedGraph words constants fits
  cases read.symm.trans (EnginePayload.ofFile_toFile (by decide))
  obtain ⟨engine, restored, counts, inputs, outputs⟩ :=
    loads (.ofCapabilities [⟨8, 9⟩]) ⟨0, 8, 9⟩ rfl (by decide) "matrix"
  obtain ⟨slot, isSlot, sent, -⟩ := inputs 0 (by decide)
  obtain ⟨slot', isSlot', sent', -⟩ := outputs 1 (by decide)
  exact ⟨compile_turnedGraph, words, constants, fits, engine, restored, counts,
    ⟨slot, isSlot, sent⟩, slot', isSlot', sent'⟩

end TensorEngine
