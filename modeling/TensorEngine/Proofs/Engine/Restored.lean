import TensorEngine.Engine.Basic
import TensorEngine.Proofs.Entries

/-!
# Restored engines

An engine file holds both parts of an engine. An engine that is restored from them is what the
backend has loaded, and its slot maps route every logical index to the slot whose binding is named by
it.

## Main definitions

* `Engine.Indexes`: slots of logical indices

## Main results

* `EnginePayload.ofFile_toFile`: files are read as what was written
* `Engine.restore_eq_ok`: what an engine is restored from
* `Engine.inputSlots_eq_some`, `Engine.output_eq_ok`: inputs and outputs in their slots
* `Engine.execute_eq_ok`: what an execution that succeeds returns
-/

namespace TensorEngine

/-- A file with a record that its length fits in four bytes is read as what was written. -/
theorem EnginePayload.ofFile_toFile {payload : EnginePayload}
    (short : payload.deviceRecord.length < 0x100000000) : ofFile payload.toFile = .ok payload := by
  have prefixed : payload.toFile = Bytes.ofNat 4 payload.deviceRecord.length ++
      (payload.deviceRecord ++ payload.engine) := List.append_assoc ..
  have four : (Bytes.ofNat 4 payload.deviceRecord.length).length = 4 := Bytes.length_ofNat ..
  have length : Bytes.toNat (Bytes.ofNat 4 payload.deviceRecord.length) =
      payload.deviceRecord.length := by
    rw [Bytes.toNat_ofNat]
    exact Nat.mod_eq_of_lt short
  unfold ofFile
  rw [prefixed, List.take_left' four, List.drop_left' four, length, if_neg (by simp)]
  dsimp only
  rw [if_neg (by simp), List.take_left, List.drop_left]

theorem DeviceDescriptor.length_encode (device : DeviceDescriptor) : device.encode.length = 12 := by
  simp [encode, Bytes.ofInt32]

namespace Engine

variable {σ : Type} [DeviceDriver σ] {backend : Backend} {engine : Engine}

theorem loadFor_eq_ok {active : DeviceDescriptor} {bytes : Bytes} {loaded : LoadedEngine}
    {inputs outputs : SlotMap} (h : loadFor backend active bytes = .ok (loaded, inputs, outputs)) :
    backend.load bytes = .ok loaded ∧ bindingMaps loaded = .ok (inputs, outputs) := by
  obtain ⟨_, _, h⟩ := bind_eq_ok_iff.mp h
  obtain ⟨loaded', load, h⟩ := bind_eq_ok_iff.mp h
  dsimp only at h
  -- Whether or not the engine says what it was built for, it is prepared next.
  have prepared : (do
      loaded'.prepare.mapError EngineError.backend
      let maps ← bindingMaps loaded'
      return (loaded', maps)) = Except.ok (loaded, inputs, outputs) := by
    split at h
    next =>
      obtain ⟨_, _, h⟩ := bind_eq_ok_iff.mp h
      exact h
    next => exact h
  obtain ⟨_, _, prepared⟩ := bind_eq_ok_iff.mp prepared
  obtain ⟨maps, bound, result⟩ := bind_eq_ok_iff.mp prepared
  cases result
  exact ⟨mapError_eq_ok_iff.mp load, bound⟩

/-- A restored engine is what the backend has loaded from the engine bytes, with its slot maps. -/
theorem restore_eq_ok {driver driver' : σ} {name : String} {payload : EnginePayload}
    (h : restore driver backend name payload = (driver', .ok engine)) :
    backend.load payload.engine = .ok engine.loaded ∧
      bindingMaps engine.loaded = .ok (engine.inputs, engine.outputs) := by
  unfold restore at h
  dsimp only at h
  split at h
  next =>
    obtain ⟨active, _, h⟩ := bind_eq_ok_iff.mp (Prod.mk.inj h).2
    obtain ⟨_, load, result⟩ := bind_eq_ok_iff.mp h
    cases result
    exact loadFor_eq_ok load
  next =>
    split at h
    next => cases h
    next =>
      obtain ⟨active, _, h⟩ := bind_eq_ok_iff.mp (Prod.mk.inj h).2
      obtain ⟨_, _, h⟩ := bind_eq_ok_iff.mp h
      obtain ⟨_, load, result⟩ := bind_eq_ok_iff.mp h
      cases result
      exact loadFor_eq_ok load

/-! ### Routing -/

variable {loaded : LoadedEngine} {inputs outputs map : SlotMap} {slot k : Nat} {spec : BindingSpec}

/-- The binding of a slot, and the logical index in its name. -/
structure Indexes (loaded : LoadedEngine) (isInput : Bool) (slot k : Nat) (spec : BindingSpec) :
    Prop where
  binding : loaded.binding? slot = some spec
  isInput : spec.isInput = isInput
  index : spec.name.logicalIndex = .ok k

theorem indexedSlot_eq_ok {s : IndexedSlot} (h : indexedSlot loaded slot = .ok s) :
    s.slot = slot ∧ loaded.binding? slot = some s.spec ∧
      s.spec.name.logicalIndex = .ok s.index := by
  unfold indexedSlot at h
  split at h
  next => cases h
  next spec bound =>
    split at h
    next index named =>
      cases h
      exact ⟨rfl, bound, named⟩
    next => cases h

/-- Slot maps depend on the bindings only. -/
theorem bindingMaps_congr {loaded loaded' : LoadedEngine} (count : loaded'.slotCount = loaded.slotCount)
    (bindings : loaded'.binding? = loaded.binding?) : bindingMaps loaded' = bindingMaps loaded := by
  have indexed : indexedSlot loaded' = indexedSlot loaded := by
    funext slot
    rw [indexedSlot, indexedSlot, bindings]
  rw [bindingMaps, bindingMaps, count, indexed]

/-- There are slot maps if every slot has a logical index and those of each kind pass the check. -/
theorem bindingMaps_eq_ok_iff : bindingMaps loaded = .ok (inputs, outputs) ↔
    ∃ slots : List IndexedSlot,
      List.Forall₂ (fun slot s => indexedSlot loaded slot = .ok s)
        (List.range loaded.slotCount) slots ∧
      (∀ isInput, checkIndices (slots.filter (·.spec.isInput == isInput)).length []
        (slots.filter (·.spec.isInput == isInput)) = .ok ()) ∧
      inputs = slotMap (slots.filter (·.spec.isInput == true)) ∧
      outputs = slotMap (slots.filter (·.spec.isInput == false)) := by
  simp only [bindingMaps, bind_eq_ok_iff, mapM_eq_ok_iff, Bool.forall_bool, beq_true, beq_false]
  constructor
  · rintro ⟨slots, indexed, _, first, _, second, result⟩
    cases result
    exact ⟨slots, indexed, ⟨second, first⟩, rfl, rfl⟩
  · rintro ⟨slots, indexed, ⟨second, first⟩, rfl, rfl⟩
    exact ⟨slots, indexed, (), first, (), second, rfl⟩

theorem mem_slotMap {slots : List IndexedSlot} {isInput : Bool}
    (indexed : List.Forall₂ (fun slot s => indexedSlot loaded slot = .ok s)
      (List.range loaded.slotCount) slots) :
    (slot, k) ∈ slotMap (slots.filter (·.spec.isInput == isInput)) ↔
      slot < loaded.slotCount ∧ ∃ spec, Indexes loaded isInput slot k spec := by
  constructor
  · intro member
    obtain ⟨s, kept, same⟩ := List.mem_map.mp member
    cases same
    obtain ⟨listed, kind⟩ := List.mem_filter.mp kept
    obtain ⟨slot, within, found⟩ := forall₂_mem_right indexed listed
    obtain ⟨rfl, bound, index⟩ := indexedSlot_eq_ok found
    exact ⟨List.mem_range.mp within, s.spec, bound, by simpa using kind, index⟩
  · rintro ⟨within, spec, bound, kind, index⟩
    obtain ⟨s, listed, found⟩ := forall₂_mem_left indexed (List.mem_range.mpr within)
    obtain ⟨same, bound', index'⟩ := indexedSlot_eq_ok found
    cases bound.symm.trans bound'
    cases index.symm.trans index'
    exact List.mem_map.mpr ⟨s, List.mem_filter.mpr ⟨listed, by simpa using kind⟩, by rw [same]⟩

/-- A slot that is given an input is given the one that its binding is named by. -/
theorem inputSlots_eq_some (maps : bindingMaps engine.loaded = .ok (engine.inputs, engine.outputs))
    {tensors : List Tensor} {t : Tensor} (binding : engine.loaded.binding? slot = some spec)
    (given : (engine.inputSlots tensors)[slot]? = some (some t)) :
    ∃ k, spec.name.logicalIndex = .ok k ∧ tensors[k]? = some t := by
  obtain ⟨slots, indexed, -, inputs, -⟩ := bindingMaps_eq_ok_iff.mp maps
  rw [inputSlots, List.getElem?_map, Option.map_eq_some_iff] at given
  obtain ⟨slot', listed, given⟩ := given
  obtain ⟨_, rfl⟩ := List.getElem?_eq_some_iff.mp listed
  rw [List.getElem_range] at given
  obtain ⟨k, found, given⟩ := Option.bind_eq_some_iff.mp given
  have member := mem_of_lookup found
  rw [inputs, mem_slotMap indexed] at member
  obtain ⟨_, spec', indexes⟩ := member
  cases binding.symm.trans indexes.binding
  exact ⟨k, indexes.index, given⟩

/-- An output is found in a slot whose binding is named by it. -/
theorem output_eq_ok (maps : bindingMaps engine.loaded = .ok (engine.inputs, engine.outputs))
    {slots : Slots} {t : Tensor} (found : engine.output slots k = .ok t) :
    ∃ slot spec, Indexes engine.loaded false slot k spec ∧ slots[slot]? = some (some t) := by
  obtain ⟨indexedSlots, indexed, -, -, outputs⟩ := bindingMaps_eq_ok_iff.mp maps
  unfold output at found
  split at found
  next u held =>
    cases found
    obtain ⟨slot, routed, held⟩ := Option.bind_eq_some_iff.mp held
    obtain ⟨⟨slot', k'⟩, first, rfl⟩ := Option.map_eq_some_iff.mp routed
    -- The map is searched by its values, so the entry that is found has the index that was asked
    -- for.
    have same : k' = k := by simpa using List.find?_some first
    have member := List.mem_of_find?_eq_some first
    rw [outputs, mem_slotMap indexed] at member
    obtain ⟨_, spec, indexes⟩ := member
    exact ⟨slot', spec, same ▸ indexes, Option.join_eq_some_iff.mp held⟩
  next => cases found

/-- The slots carry the bindings in their order. -/
theorem map_spec_eq {slots : List IndexedSlot}
    (indexed : List.Forall₂ (fun slot s => indexedSlot loaded slot = .ok s)
      (List.range loaded.slotCount) slots)
    {specs : List BindingSpec} (count : loaded.slotCount = specs.length)
    (bindings : ∀ slot, loaded.binding? slot = specs[slot]?) : slots.map (·.spec) = specs := by
  refine List.ext_getElem? fun slot => ?_
  rw [List.getElem?_map, ← bindings]
  by_cases within : slot < loaded.slotCount
  · obtain ⟨s, listed, found⟩ := forall₂_getElem? indexed (List.getElem?_range within)
    rw [listed, (indexedSlot_eq_ok found).2.1]
    rfl
  · have lengths := List.Forall₂.length_eq indexed
    rw [List.length_range] at lengths
    rw [bindings, List.getElem?_eq_none (by omega), List.getElem?_eq_none (by omega)]
    rfl

/-- The map of a kind has as many slots as there are bindings of the kind. -/
theorem length_slotMap {slots : List IndexedSlot} {isInput : Bool}
    (indexed : List.Forall₂ (fun slot s => indexedSlot loaded slot = .ok s)
      (List.range loaded.slotCount) slots)
    {specs : List BindingSpec} (count : loaded.slotCount = specs.length)
    (bindings : ∀ slot, loaded.binding? slot = specs[slot]?) :
    (slotMap (slots.filter (·.spec.isInput == isInput))).length =
      specs.countP (·.isInput == isInput) := by
  rw [← map_spec_eq indexed count bindings, List.countP_map, slotMap, List.length_map,
    List.countP_eq_length_filter]
  rfl

theorem length_outputs (maps : bindingMaps loaded = .ok (inputs, outputs))
    (specs : List BindingSpec) (count : loaded.slotCount = specs.length)
    (bindings : ∀ slot, loaded.binding? slot = specs[slot]?) :
    outputs.length = specs.countP (·.isInput == false) := by
  obtain ⟨slots, indexed, -, -, rfl⟩ := bindingMaps_eq_ok_iff.mp maps
  exact length_slotMap indexed count bindings

/-- An execution succeeds if the number of inputs is right, the loaded engine executes and every output
is in its slot. -/
theorem execute_eq_ok_iff {tensors results : List Tensor} :
    engine.execute tensors = .ok results ↔ tensors.length = engine.inputs.length ∧
      ∃ slots, engine.loaded.execute (engine.inputSlots tensors) = (slots, .ok ()) ∧
        (List.range engine.outputs.length).mapM (engine.output slots) = .ok results := by
  unfold execute
  by_cases count : tensors.length ≠ engine.inputs.length
  · rw [if_pos count]
    exact iff_of_false nofun fun h => count h.1
  · rw [if_neg count]
    rcases engine.loaded.execute (engine.inputSlots tensors) with ⟨slots, result⟩
    cases result with
    | error e =>
      refine iff_of_false nofun ?_
      rintro ⟨-, _, ⟨⟩, -⟩
    | ok =>
      constructor
      · exact fun h => ⟨not_not.mp count, slots, rfl, h⟩
      · rintro ⟨-, _, ⟨⟩, h⟩
        exact h

/-- An execution that succeeds returns what the loaded engine leaves in the slots of outputs. -/
theorem execute_eq_ok {tensors results : List Tensor} (h : engine.execute tensors = .ok results) :
    ∃ slots, engine.loaded.execute (engine.inputSlots tensors) = (slots, .ok ()) ∧
      results.length = engine.outputs.length ∧
      ∀ k t, results[k]? = some t → engine.output slots k = .ok t := by
  obtain ⟨-, slots, ran, collected⟩ := execute_eq_ok_iff.mp h
  have entries := mapM_eq_ok_iff.mp collected
  refine ⟨slots, ran, ?_, fun k t entry => ?_⟩
  · rw [← List.Forall₂.length_eq entries, List.length_range]
  · obtain ⟨j, listed, found⟩ := forall₂_getElem? entries.flip entry
    obtain ⟨_, same⟩ := List.getElem?_eq_some_iff.mp listed
    rw [List.getElem_range] at same
    exact same ▸ found

end Engine

end TensorEngine
