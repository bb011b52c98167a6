import Mathlib.Data.List.Nodup
import TensorEngine.Proofs.Engine.Numbering

/-!
# Inputs and outputs in logical order

An engine takes its inputs in logical order, moves each to its slot, and after the execution moves what
is in the slots of outputs to a row in logical order. Its slot maps are tables, whose entries may come in
any order. The moves of one map neither start from one place twice nor end in one twice, so that every
order of them leaves the same, and no place is outside of its row.

## Main definitions

* `moveAll`, `Moved`: contents that are moved one after the other, and what is left of that
* `SlotMap.Routes`: maps between slots and all of the logical indices
* `Engine.executeIn`: executions that go through the slot maps in another order
* `Engine.Receives`, `Engine.Collects`, `Engine.FirstEmpty`: slots that are given to a backend, and what
  is collected from those that it leaves

## Main results

* `moveAll_eq_ok`, `moveAll_replicate`: moves between different places
* `Engine.executeIn_eq`: the order of the slot maps does not matter
* `engine_routes_logical_order`: inputs and outputs are routed by their logical indices
-/

namespace TensorEngine

/-! ### Moves -/

/-- Moves contents of one row to another, each from a place to a goal. What is moved is taken out of its
place. A place or goal outside of its row is a fault. -/
def moveAll : List (Nat × Nat) → Slots → Slots → Except Fault Slots
  | [], _, target => .ok target
  | (place, goal) :: moves, source, target => do
    let content ← entry source place
    let _ ← entry target goal
    moveAll moves (source.set place none) (target.set goal content)

/-- Every goal holds what was in its place, and the rest of the row is as it was. -/
structure Moved (moves : List (Nat × Nat)) (source target moved : Slots) : Prop where
  goal : ∀ move ∈ moves, moved[move.2]? = source[move.1]?
  rest : ∀ goal ∉ moves.map Prod.snd, moved[goal]? = target[goal]?

/-- Moves between different places all succeed. -/
theorem moveAll_eq_ok {moves : List (Nat × Nat)} {source target moved : Slots}
    (within : ∀ move ∈ moves, move.1 < source.length ∧ move.2 < target.length)
    (places : (moves.map Prod.fst).Nodup) (goals : (moves.map Prod.snd).Nodup)
    (h : Moved moves source target moved) : moveAll moves source target = .ok moved := by
  induction moves generalizing source target with
  | nil =>
    have same : moved = target := List.ext_getElem? fun goal => h.rest goal List.not_mem_nil
    rw [same, moveAll]
  | cons move moves ih =>
    obtain ⟨place, goal⟩ := move
    rw [List.map_cons, List.nodup_cons] at places goals
    obtain ⟨⟨fromWithin, toWithin⟩, within⟩ := List.forall_mem_cons.mp within
    obtain ⟨content, found⟩ : ∃ content, source[place]? = some content :=
      ⟨_, List.getElem?_eq_getElem fromWithin⟩
    obtain ⟨former, held⟩ : ∃ former, target[goal]? = some former :=
      ⟨_, List.getElem?_eq_getElem toWithin⟩
    rw [moveAll, entry_eq_ok_iff.mpr found, entry_eq_ok_iff.mpr held]
    apply ih
    · simpa using within
    · exact places.2
    · exact goals.2
    · constructor
      · intro later member
        -- No later move starts from the place that is emptied now.
        have other : place ≠ later.1 := fun same =>
          places.1 (List.mem_map.mpr ⟨later, member, same.symm⟩)
        rw [List.getElem?_set_ne other]
        exact h.goal later (List.mem_cons_of_mem _ member)
      · intro goal' absent
        by_cases same : goal' = goal
        · subst same
          rw [List.getElem?_set_self toWithin, ← found]
          exact h.goal _ List.mem_cons_self
        · rw [List.getElem?_set_ne (Ne.symm same)]
          apply h.rest
          rw [List.map_cons, List.mem_cons, not_or]
          exact ⟨same, absent⟩

/-- Moves into an empty row leave what is listed for it, if that is what is in the places, and nothing
where no move goes. -/
theorem moveAll_replicate {moves : List (Nat × Nat)} {source : Slots} {count : Nat}
    {row : Nat → Option Tensor} (places : (moves.map Prod.fst).Nodup)
    (goals : (moves.map Prod.snd).Nodup)
    (within : ∀ move ∈ moves, move.2 < count ∧ source[move.1]? = some (row move.2))
    (rest : ∀ goal < count, goal ∉ moves.map Prod.snd → row goal = none) :
    moveAll moves source (List.replicate count none) = .ok ((List.range count).map row) := by
  apply moveAll_eq_ok
  · intro move member
    obtain ⟨below, content⟩ := within move member
    exact ⟨(List.getElem?_eq_some_iff.mp content).1, by rwa [List.length_replicate]⟩
  · exact places
  · exact goals
  · constructor
    · intro move member
      obtain ⟨below, content⟩ := within move member
      rw [List.getElem?_map, List.getElem?_range below, content, Option.map_some]
    · intro goal absent
      by_cases below : goal < count
      · rw [List.getElem?_map, List.getElem?_range below, Option.map_some, rest goal below absent,
          List.getElem?_replicate_of_lt below]
      · rw [List.getElem?_eq_none, List.getElem?_eq_none]
        · simpa using below
        · simpa using below

/-! ### Slot maps -/

namespace SlotMap

open Engine (Indexes)

variable {map : SlotMap} {loaded : LoadedEngine} {isInput : Bool} {slot k : Nat}

/-- The map has each slot of its kind, with the logical index in the name of its binding, and the indices
are `0, 1, …` in some order. -/
structure Routes (map : SlotMap) (loaded : LoadedEngine) (isInput : Bool) : Prop where
  mem_iff : ∀ {slot k}, (slot, k) ∈ map ↔
    slot < loaded.slotCount ∧ ∃ spec, Indexes loaded isInput slot k spec
  count : map.length = loaded.kindCount isInput
  distinct : (map.map Prod.fst).Nodup
  numbered : (map.map Prod.snd).Perm (List.range map.length)

namespace Routes

theorem logical?_eq_some_iff (routes : map.Routes loaded isInput) :
    map.logical? slot = some k ↔ (slot, k) ∈ map :=
  lookup_eq_some_iff_mem routes.distinct

theorem logical_lt (routes : map.Routes loaded isInput) (member : (slot, k) ∈ map) : k < map.length :=
  List.mem_range.mp (routes.numbered.mem_iff.mp (List.mem_map_of_mem member))

theorem exists_slot (routes : map.Routes loaded isInput) (below : k < map.length) :
    ∃ slot, (slot, k) ∈ map := by
  have member := routes.numbered.mem_iff.mpr (List.mem_range.mpr below)
  obtain ⟨⟨slot, _⟩, listed, rfl⟩ := List.mem_map.mp member
  exact ⟨slot, listed⟩

theorem nodup_logical (routes : map.Routes loaded isInput) : (map.map Prod.snd).Nodup :=
  routes.numbered.nodup_iff.mpr List.nodup_range

theorem slot?_eq_some_iff (routes : map.Routes loaded isInput) :
    map.slot? k = some slot ↔ (slot, k) ∈ map := by
  rw [slot?, Option.map_eq_some_iff]
  constructor
  · rintro ⟨⟨slot', k'⟩, found, rfl⟩
    have same : k' = k := by simpa using List.find?_some found
    exact same ▸ List.mem_of_find?_eq_some found
  · intro member
    cases found : map.find? (·.2 == k) with
    | none => exact absurd (List.find?_eq_none.mp found _ member) (by simp)
    | some entry =>
      have same : entry.2 = k := by simpa using List.find?_some found
      have listed := List.mem_of_find?_eq_some found
      have entry_eq : entry = (slot, k) :=
        List.inj_on_of_nodup_map routes.nodup_logical listed member same
      exact ⟨entry, rfl, by rw [entry_eq]⟩

end Routes

end SlotMap

namespace Engine

variable {engine : Engine} {tensors : List Tensor} {slots : Slots} {arrange : SlotMap → SlotMap}

/-- Both slot maps of an engine route. -/
theorem routes_of_bindingMaps {loaded : LoadedEngine} {inputs outputs : SlotMap}
    (maps : bindingMaps loaded = .ok (inputs, outputs)) :
    inputs.Routes loaded true ∧ outputs.Routes loaded false := by
  obtain ⟨slots, indexed, checked, rfl, rfl⟩ := bindingMaps_eq_ok_iff.mp maps
  have routes : ∀ isInput,
      (slotMap (slots.filter (·.spec.isInput == isInput))).Routes loaded isInput := by
    intro isInput
    constructor
    · exact mem_slotMap indexed
    · rw [kindCount_eq indexed, slotMap, List.length_map]
    · rw [slotMap, List.map_map]
      exact (kept_sublist indexed isInput).nodup List.nodup_range
    · rw [slotMap, List.map_map, List.length_map]
      exact checkIndices_eq_ok_iff_perm.mp (checked isInput)
  exact ⟨routes true, routes false⟩

theorem length_inputSlots : (engine.inputSlots tensors).length = engine.loaded.slotCount := by
  rw [inputSlots, List.length_map, List.length_range]

theorem getElem?_inputSlots {slot : Nat} (within : slot < engine.loaded.slotCount) :
    (engine.inputSlots tensors)[slot]? =
      some ((engine.inputs.logical? slot).bind fun logical => tensors[logical]?) := by
  rw [inputSlots, List.getElem?_map, List.getElem?_range within, Option.map_some]

/-- A backend is given the inputs in the slots that their map has for them, and nothing in the others. -/
theorem moveAll_inputs (routes : engine.inputs.Routes engine.loaded true)
    (count : tensors.length = engine.inputs.length)
    (arranged : (arrange engine.inputs).Perm engine.inputs) :
    moveAll ((arrange engine.inputs).map Prod.swap) (tensors.map some)
      (List.replicate engine.loaded.slotCount none) = .ok (engine.inputSlots tensors) := by
  apply moveAll_replicate
  · rw [List.map_map]
    exact (arranged.map _).nodup_iff.mpr routes.nodup_logical
  · rw [List.map_map]
    exact (arranged.map _).nodup_iff.mpr routes.distinct
  · intro move member
    obtain ⟨⟨slot, k⟩, listed, rfl⟩ := List.mem_map.mp member
    have member := arranged.mem_iff.mp listed
    have below : k < tensors.length := count ▸ routes.logical_lt member
    refine ⟨(routes.mem_iff.mp member).1, ?_⟩
    rw [Prod.fst_swap, Prod.snd_swap, routes.logical?_eq_some_iff.mpr member, Option.bind_some,
      List.getElem?_map, List.getElem?_eq_getElem below, Option.map_some]
  · intro slot _ absent
    rw [Option.bind_eq_none_iff]
    intro k found
    have listed := arranged.mem_iff.mpr (routes.logical?_eq_some_iff.mp found)
    exact absurd (List.mem_map_of_mem (List.mem_map_of_mem listed)) absent

/-- What the slots of outputs hold, in logical order. -/
def collected (engine : Engine) (slots : Slots) : Slots :=
  (List.range engine.outputs.length).map fun k =>
    (engine.outputs.slot? k).bind fun slot => slots[slot]?.join

/-- What is in the slots of outputs ends in its logical order. -/
theorem moveAll_outputs (routes : engine.outputs.Routes engine.loaded false)
    (length : slots.length = engine.loaded.slotCount)
    (arranged : (arrange engine.outputs).Perm engine.outputs) :
    moveAll (arrange engine.outputs) slots (List.replicate engine.outputs.length none) =
      .ok (engine.collected slots) := by
  apply moveAll_replicate
  · exact (arranged.map _).nodup_iff.mpr routes.distinct
  · exact (arranged.map _).nodup_iff.mpr routes.nodup_logical
  · rintro ⟨slot, k⟩ listed
    have member := arranged.mem_iff.mp listed
    have within : slot < slots.length := length ▸ (routes.mem_iff.mp member).1
    refine ⟨routes.logical_lt member, ?_⟩
    rw [routes.slot?_eq_some_iff.mpr member, Option.bind_some, List.getElem?_eq_getElem within,
      Option.join_some]
  · intro k below absent
    -- Every logical index is the goal of a move.
    obtain ⟨slot, member⟩ := routes.exists_slot below
    exact absurd (List.mem_map_of_mem (arranged.mem_iff.mpr member)) absent

/-! ### Executions -/

/-- The execution of an engine that goes through its slot maps in the order in which they are
arranged. -/
def executeIn (arrange : SlotMap → SlotMap) (engine : Engine) (inputs : List Tensor) :
    Except Fault (Except EngineError (List Tensor)) := do
  if inputs.length ≠ engine.inputs.length then
    return .error (.inputCount engine.inputs.length inputs.length)
  let given ← moveAll ((arrange engine.inputs).map Prod.swap) (inputs.map some)
    (List.replicate engine.loaded.slotCount none)
  match engine.loaded.execute given with
  | (_, .error e) => return .error (.backend e)
  | (slots, .ok ()) =>
    let outputs ← moveAll (arrange engine.outputs) slots
      (List.replicate engine.outputs.length none)
    return outputs.zipIdx.mapM fun (content, index) =>
      content.elim (.error (.missingOutput index)) .ok

theorem output_eq (k : Nat) : engine.output slots k =
    ((engine.outputs.slot? k).bind fun slot => slots[slot]?.join).elim (.error (.missingOutput k))
      .ok := by
  unfold output
  cases (engine.outputs.slot? k).bind fun slot => slots[slot]?.join <;> rfl

theorem mapM_collected : ((engine.collected slots).zipIdx.mapM fun (content, index) =>
      content.elim (.error (.missingOutput index)) .ok : Except EngineError (List Tensor)) =
    (List.range engine.outputs.length).mapM (engine.output slots) := by
  have row : (engine.collected slots).zipIdx = (List.range engine.outputs.length).map fun k =>
      ((engine.outputs.slot? k).bind fun slot => slots[slot]?.join, k) := by
    apply List.ext_getElem
    · simp [collected]
    · intro k _ _
      simp [collected]
  rw [row, List.mapM_map, funext output_eq]
  rfl

/-- The order of the slot maps does not matter, and no place is out of range. -/
theorem executeIn_eq (maps : bindingMaps engine.loaded = .ok (engine.inputs, engine.outputs))
    (keeps : ∀ slots, (engine.loaded.execute slots).1.length = slots.length)
    (arranges : ∀ map, (arrange map).Perm map) :
    engine.executeIn arrange tensors = .ok (engine.execute tensors) := by
  obtain ⟨inputs, outputs⟩ := routes_of_bindingMaps maps
  unfold executeIn execute
  by_cases count : tensors.length = engine.inputs.length
  · rw [if_neg (not_not.mpr count), if_neg (not_not.mpr count),
      moveAll_inputs inputs count (arranges _), ok_bind]
    have length := keeps (engine.inputSlots tensors)
    rcases ran : engine.loaded.execute (engine.inputSlots tensors) with ⟨slots, result⟩
    cases result with
    | error e => rfl
    | ok =>
      rw [ran, length_inputSlots] at length
      dsimp only
      rw [moveAll_outputs outputs length (arranges _), ok_bind, mapM_collected]
      rfl
  · rw [if_pos count, if_pos count]
    rfl

/-! ### What is given and what is collected -/

variable {loaded : LoadedEngine}

/-- The slots of inputs hold these, each the one of its logical index, and the slots of outputs hold
nothing. -/
structure Receives (loaded : LoadedEngine) (tensors : List Tensor) (slots : Slots) : Prop where
  length : slots.length = loaded.slotCount
  input : ∀ {slot k spec}, slot < loaded.slotCount → Indexes loaded true slot k spec →
    ∃ t, tensors[k]? = some t ∧ slots[slot]? = some (some t)
  output : ∀ {slot k spec}, slot < loaded.slotCount → Indexes loaded false slot k spec →
    slots[slot]? = some none

/-- The results are what is in the slots of outputs, each at its logical index. -/
structure Collects (loaded : LoadedEngine) (slots : Slots) (results : List Tensor) : Prop where
  length : results.length = loaded.kindCount false
  output : ∀ {slot k spec}, slot < loaded.slotCount → Indexes loaded false slot k spec →
    ∃ t, slots[slot]? = some (some t) ∧ results[k]? = some t

/-- The slot of an output is empty, and those of the outputs before it are not. -/
structure FirstEmpty (loaded : LoadedEngine) (slots : Slots) (k : Nat) : Prop where
  empty : ∃ slot spec, slot < loaded.slotCount ∧ Indexes loaded false slot k spec ∧
    slots[slot]? = some none
  before : ∀ {slot j spec}, slot < loaded.slotCount → Indexes loaded false slot j spec → j < k →
    ∃ t, slots[slot]? = some (some t)

/-- The answer of an engine when the backend has ended with this result and has left these slots. -/
inductive Answers (loaded : LoadedEngine) (slots : Slots) :
    Except BackendError Unit → Except EngineError (List Tensor) → Prop
  | failed (e : BackendError) : Answers loaded slots (.error e) (.error (.backend e))
  | collected {results : List Tensor} (collects : Collects loaded slots results) :
    Answers loaded slots (.ok ()) (.ok results)
  | missing {k : Nat} (first : FirstEmpty loaded slots k) :
    Answers loaded slots (.ok ()) (.error (.missingOutput k))

theorem receives_inputSlots (routes : engine.inputs.Routes engine.loaded true)
    (count : tensors.length = engine.inputs.length) :
    Receives engine.loaded tensors (engine.inputSlots tensors) := by
  constructor
  · exact length_inputSlots
  · intro slot k spec within indexes
    have member := routes.mem_iff.mpr ⟨within, spec, indexes⟩
    have below : k < tensors.length := count ▸ routes.logical_lt member
    refine ⟨tensors[k], List.getElem?_eq_getElem below, ?_⟩
    rw [getElem?_inputSlots within, routes.logical?_eq_some_iff.mpr member, Option.bind_some,
      List.getElem?_eq_getElem below]
  · intro slot k spec within indexes
    rw [getElem?_inputSlots within, Option.some_inj, Option.bind_eq_none_iff]
    intro k' found
    -- A slot of the map of inputs has the binding of an input.
    obtain ⟨-, spec', indexes'⟩ := routes.mem_iff.mp (routes.logical?_eq_some_iff.mp found)
    cases indexes.binding.symm.trans indexes'.binding
    cases indexes.isInput.symm.trans indexes'.isInput

section Collected

variable {slot k : Nat} (routes : engine.outputs.Routes engine.loaded false)
  (member : (slot, k) ∈ engine.outputs)

include routes member

theorem output_eq_ok_iff {t : Tensor} :
    engine.output slots k = .ok t ↔ slots[slot]? = some (some t) := by
  rw [output_eq, routes.slot?_eq_some_iff.mpr member, Option.bind_some, ← Option.join_eq_some_iff]
  cases slots[slot]?.join <;> simp

theorem output_eq_error_iff {e : EngineError} :
    engine.output slots k = .error e ↔ slots[slot]?.join = none ∧ e = .missingOutput k := by
  rw [output_eq, routes.slot?_eq_some_iff.mpr member, Option.bind_some]
  cases slots[slot]?.join <;> simp [eq_comm]

end Collected

/-- What is collected from the slots of outputs is all of them, or the first one that is missing. -/
theorem answers_collected (routes : engine.outputs.Routes engine.loaded false)
    (length : slots.length = engine.loaded.slotCount) :
    Answers engine.loaded slots (.ok ())
      ((List.range engine.outputs.length).mapM (engine.output slots)) := by
  have member : ∀ {slot k spec}, slot < engine.loaded.slotCount →
      Indexes engine.loaded false slot k spec → (slot, k) ∈ engine.outputs :=
    fun within indexes => routes.mem_iff.mpr ⟨within, _, indexes⟩
  cases ended : (List.range engine.outputs.length).mapM (engine.output slots) with
  | ok results =>
    have entries := mapM_eq_ok_iff.mp ended
    apply Answers.collected
    constructor
    · rw [← List.Forall₂.length_eq entries, List.length_range, routes.count]
    · intro slot k spec within indexes
      have listed := member within indexes
      obtain ⟨t, entry, found⟩ :=
        forall₂_getElem? entries (List.getElem?_range (routes.logical_lt listed))
      exact ⟨t, (output_eq_ok_iff routes listed).mp found, entry⟩
  | error e =>
    obtain ⟨before, k, after, split, failed, succeeds⟩ := exists_split_of_mapM_eq_error ended
    -- The outputs before the one that is missing are those with smaller logical indices.
    have place : (List.range engine.outputs.length)[before.length]? = some k := by simp [split]
    obtain ⟨below, rfl⟩ := List.getElem?_eq_some_iff.mp place
    rw [List.length_range] at below
    rw [List.getElem_range] at failed
    obtain ⟨slot, listed⟩ := routes.exists_slot below
    obtain ⟨within, spec, indexes⟩ := routes.mem_iff.mp listed
    obtain ⟨empty, rfl⟩ := (output_eq_error_iff routes listed).mp failed
    apply Answers.missing
    constructor
    · refine ⟨slot, spec, within, indexes, ?_⟩
      rw [List.getElem?_eq_getElem (length ▸ within)] at empty ⊢
      exact congrArg some empty
    · intro slot j spec within indexes earlier
      have inFront : j ∈ before := by
        have entry := List.getElem?_range (routes.logical_lt (member within indexes))
        rw [split, List.getElem?_append_left earlier] at entry
        exact List.mem_of_getElem? entry
      obtain ⟨t, found⟩ := succeeds j inFront
      exact ⟨t, (output_eq_ok_iff routes (member within indexes)).mp found⟩

/-- The answer of an engine that was asked with the right number of inputs. -/
theorem answers_execute (routes : engine.outputs.Routes engine.loaded false)
    (keeps : ∀ slots, (engine.loaded.execute slots).1.length = slots.length)
    (count : tensors.length = engine.inputs.length) {result : Except BackendError Unit}
    (ran : engine.loaded.execute (engine.inputSlots tensors) = (slots, result)) :
    Answers engine.loaded slots result (engine.execute tensors) := by
  have length := keeps (engine.inputSlots tensors)
  rw [ran, length_inputSlots] at length
  unfold execute
  rw [if_neg (not_not.mpr count), ran]
  cases result with
  | error e => exact .failed e
  | ok => exact answers_collected routes length

end Engine

open Engine

/-- Slot maps exist for bindings that are numbered, in whatever order these are checked. The engine then
asks the backend only if the number of inputs is right. It gives each input in the slot of its logical
index, and answers with an error of the backend, with all outputs by their logical indices, or with the
first one that is missing. The order of the slot maps does not matter, and no place is out of range. -/
theorem engine_routes_logical_order :
    (∀ loaded : LoadedEngine, ((∃ maps, bindingMaps loaded = .ok maps) ↔ loaded.Numbered) ∧
      ∀ {maps arrange}, (∀ slots, (arrange slots).Perm slots) →
        (bindingMapsIn arrange loaded = .ok maps ↔ bindingMaps loaded = .ok maps)) ∧
    ∀ {engine : Engine}, bindingMaps engine.loaded = .ok (engine.inputs, engine.outputs) →
      (∀ slots, (engine.loaded.execute slots).1.length = slots.length) → ∀ tensors : List Tensor,
      (∀ {arrange}, (∀ map, (arrange map).Perm map) →
        engine.executeIn arrange tensors = .ok (engine.execute tensors)) ∧
      (tensors.length ≠ engine.loaded.kindCount true → ∀ run,
        { engine with loaded := { engine.loaded with execute := run } }.execute tensors =
          .error (.inputCount (engine.loaded.kindCount true) tensors.length)) ∧
      (tensors.length = engine.loaded.kindCount true →
        Receives engine.loaded tensors (engine.inputSlots tensors) ∧
          ∀ {slots result}, engine.loaded.execute (engine.inputSlots tensors) = (slots, result) →
            Answers engine.loaded slots result (engine.execute tensors)) := by
  constructor
  · intro loaded
    exact ⟨exists_bindingMaps_iff, fun arranges => bindingMapsIn_eq_ok_iff arranges⟩
  · intro engine maps keeps tensors
    obtain ⟨inputs, outputs⟩ := routes_of_bindingMaps maps
    rw [← inputs.count]
    refine ⟨executeIn_eq maps keeps, ?_, ?_⟩
    · intro count run
      rw [execute, if_pos count]
      rfl
    · intro count
      exact ⟨receives_inputSlots inputs count, answers_execute outputs keeps count⟩

/-- Two inputs that are handed back, in slots that are in no order. -/
def crossedLoopback : Loopback where
  bindings :=
    [⟨.output 1, false, .i32, [1]⟩, ⟨.input 1, true, .i32, [1]⟩, ⟨.output 0, false, .i32, [1]⟩,
      ⟨.input 0, true, .i32, [1]⟩]
  slotCount := 4
  builtFor := none
  startFailure := none
  loadFailure := none
  contextFailure := none
  executeFailure := none
  serializeFailure := none

/-- The engine that the loopback is restored as. -/
def crossedEngine : Engine :=
  ⟨"crossed", ⟨0, 8, 0⟩, crossedLoopback.loaded [], [(1, 1), (3, 0)], [(0, 1), (2, 0)]⟩

theorem Loopback.length_execute (loopback : Loopback) (bytes : Bytes) (slots : Slots) :
    ((loopback.loaded bytes).execute slots).1.length = slots.length := by
  unfold loaded
  dsimp only
  split
  · rw [copy, List.length_map, List.length_zipIdx]
  · rfl

/-- The inputs come back in their order, when the slot maps are gone through backwards as well. -/
theorem engine_routes_logical_order_crossed :
    let first : Tensor := ⟨.i32, [1], [1, 0, 0, 0], rfl⟩
    let second : Tensor := ⟨.i32, [1], [2, 0, 0, 0], rfl⟩
    crossedEngine.loaded.Numbered ∧
      bindingMapsIn List.reverse crossedEngine.loaded =
        .ok (crossedEngine.inputs, crossedEngine.outputs) ∧
      crossedEngine.executeIn List.reverse [first, second] = .ok (.ok [first, second]) ∧
      Receives crossedEngine.loaded [first, second] [none, some second, none, some first] ∧
      Answers crossedEngine.loaded [some second, some second, some first, some first] (.ok ())
        (.ok [first, second]) ∧
      crossedEngine.execute [first] = .error (.inputCount 2 1) := by
  intro first second
  have maps : bindingMaps crossedEngine.loaded =
      .ok (crossedEngine.inputs, crossedEngine.outputs) := by rfl
  have keeps := Loopback.length_execute crossedLoopback []
  have executes : crossedEngine.execute [first, second] = .ok [first, second] := by rfl
  obtain ⟨numbered, anyOrder⟩ := engine_routes_logical_order.1 crossedEngine.loaded
  obtain ⟨arranged, -, answered⟩ :=
    engine_routes_logical_order.2 maps keeps [first, second]
  obtain ⟨-, refused, -⟩ := engine_routes_logical_order.2 maps keeps [first]
  rw [executes] at arranged answered
  exact ⟨numbered.mp ⟨_, maps⟩, (anyOrder List.reverse_perm).mpr maps,
    arranged List.reverse_perm, (answered rfl).1, (answered rfl).2 rfl, refused (by decide) _⟩

end TensorEngine
