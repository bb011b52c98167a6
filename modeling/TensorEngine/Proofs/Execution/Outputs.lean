import TensorEngine.Proofs.Execution.Values
import TensorEngine.Proofs.Plan.Accepted

/-!
# Outputs that are computed

Loading follows what is available through the layers, but does not compare the bindings of outputs with
what is available in the end. What a run knows after its last layer is what was given and what the layers
have written. An output that is neither is found out only when the run comes to its slot.

## Main definitions

* `EnginePlan.Provides`: tensors that are given or written
* `EnginePlan.Supplied`: slots with all inputs of a plan

## Main results

* `get?_isSome_of_takeInputs_iff`, `get?_isSome_of_runLayers_iff`: what is known after the two loops
* `fillOutputs_eq_ok_iff`, `fillOutputs_eq_error`: whether all outputs are filled, and where it stops
* `accepted_engine_fills_outputs_iff`: which accepted engines fill the slots of all outputs
-/

namespace TensorEngine

/-! ### What is known -/

theorem Values.get?_isSome_of_store_iff {values next : Values} {id other : TensorId} {t : Tensor}
    (h : values.store id t = .ok next) :
    (next.get? other).isSome ↔ other = id ∨ (values.get? other).isSome := by
  rw [Values.get?_of_store h]
  split
  next same => simp [same]
  next different => simp [different]

/-- The inputs that are taken become known, and nothing else does. -/
theorem get?_isSome_of_takeInputs_iff {bindings : List PlanBinding} {slots emptied : Slots}
    {values next : Values} (count : slots.length = bindings.length)
    (h : takeInputs bindings slots values = (emptied, next, .ok ())) (id : TensorId) :
    (next.get? id).isSome ↔ id ∈ inputTensors bindings ∨ (values.get? id).isSome := by
  induction bindings generalizing slots emptied values with
  | nil =>
    obtain rfl := List.eq_nil_of_length_eq_zero count
    cases h
    simp [inputTensors]
  | cons binding bindings ih =>
    obtain _ | ⟨slot, slots⟩ := slots
    · cases count
    obtain ⟨middle, rest, taken, later, -⟩ := takeInputs_cons_eq_ok_iff.mp h
    rw [ih (Nat.succ.inj count) later]
    by_cases isInput : binding.spec.isInput
    · rw [if_pos isInput] at taken
      obtain ⟨t, -, -, stored⟩ := taken
      rw [Values.get?_isSome_of_store_iff stored, inputTensors_cons isInput, List.mem_cons,
        or_left_comm, or_assoc]
    · rw [if_neg isInput] at taken
      have others : inputTensors (binding :: bindings) = inputTensors bindings := by
        simp [inputTensors, isInput]
      rw [taken, others]

/-- What the layers write becomes known, and nothing else does. -/
theorem get?_isSome_of_runLayers_iff {layers : List Layer} {values next : Values}
    (h : runLayers layers values = (next, .ok ())) (id : TensorId) :
    (next.get? id).isSome ↔ (∃ layer ∈ layers, layer.output = id) ∨ (values.get? id).isSome := by
  induction layers generalizing values with
  | nil =>
    cases h
    simp
  | cons layer layers ih =>
    obtain ⟨t, middle, -, stored, later⟩ := runLayers_cons_eq_ok_iff.mp h
    rw [ih later, Values.get?_isSome_of_store_iff stored, List.exists_mem_cons_iff, or_left_comm,
      or_assoc, @eq_comm _ id]

/-- Filling the outputs stops at the first one whose value is not known. -/
theorem fillOutputs_eq_error {values : Values} {before after : List PlanBinding} {b : PlanBinding}
    {slots : Slots} (length : slots.length = (before ++ b :: after).length)
    (known : ∀ a ∈ before, a.spec.isInput = false → (values.get? a.tensor).isSome)
    (isOutput : b.spec.isInput = false) (unknown : values.get? b.tensor = none) :
    (fillOutputs values (before ++ b :: after) slots).2 = .error (.neverComputed b.spec.name) := by
  induction before generalizing slots with
  | nil =>
    obtain _ | ⟨slot, slots⟩ := slots
    · cases length
    rw [List.nil_append, fillOutputs, if_neg (by simp [isOutput]), unknown]
  | cons binding before ih =>
    obtain _ | ⟨slot, slots⟩ := slots
    · cases length
    rw [List.forall_mem_cons] at known
    have later := ih (Nat.succ.inj length) known.2
    rw [List.cons_append, fillOutputs]
    by_cases isInput : binding.spec.isInput
    · rw [if_pos isInput]
      exact later
    · obtain ⟨t, value⟩ := Option.isSome_iff_exists.mp (known.1 (Bool.eq_false_iff.mpr isInput))
      rw [if_neg isInput, value]
      exact later

/-- The outputs are all filled if the values of their tensors are known. -/
theorem fillOutputs_eq_ok_iff {values : Values} {bindings : List PlanBinding} {slots : Slots}
    (length : slots.length = bindings.length) : (fillOutputs values bindings slots).2 = .ok () ↔
      ∀ b ∈ bindings, b.spec.isInput = false → (values.get? b.tensor).isSome := by
  constructor
  · intro ok b member isOutput
    obtain ⟨k, bound⟩ := List.mem_iff_getElem?.mp member
    have slot := getElem?_of_fillOutputs length (Prod.ext rfl ok) bound
    rw [if_neg (by simp [isOutput])] at slot
    obtain ⟨t, value, -⟩ := slot
    exact Option.isSome_iff_exists.mpr ⟨t, value⟩
  · exact fillOutputs_ok

/-! ### Accepted engines -/

namespace EnginePlan

/-- The tensor is one of an input, or a layer writes it. -/
def Provides (plan : EnginePlan) (id : TensorId) : Prop :=
  id ∈ plan.inputTensors ∨ ∃ layer ∈ plan.network.layers, layer.output = id

/-- There is a slot for every binding, and the slots of inputs hold tensors that fit. -/
structure Supplied (plan : EnginePlan) (slots : Slots) : Prop where
  length : slots.length = plan.bindings.length
  fits : ∀ (k : Nat) (b : PlanBinding), plan.bindings[k]? = some b → b.spec.isInput →
    ∃ t, slots[k]? = some (some t) ∧ b.spec.fits t

/-- The values of the inputs that are in the slots. -/
def given (plan : EnginePlan) (slots : Slots) : Values :=
  (takeInputs plan.bindings slots plan.noValues).2.1

variable {plan : EnginePlan} {slots : Slots}

/-- When all inputs are there and all layers run, a run ends with filling the outputs from values that
are known for exactly the tensors that are provided. -/
theorem execute_eq_fillOutputs (supplied : plan.Supplied slots)
    (within : ∀ b ∈ plan.bindings, b.tensor.index < plan.network.tensors.length)
    (ran : (runLayers plan.network.layers (plan.given slots)).2 = .ok ()) :
    ∃ emptied values, emptied.length = plan.bindings.length ∧
      plan.execute slots = fillOutputs values plan.bindings emptied ∧
      ∀ id, (values.get? id).isSome ↔ plan.Provides id := by
  have places : ∀ b ∈ plan.bindings, b.tensor.index < plan.noValues.length := by
    simpa [noValues] using within
  have accepted := takeInputs_ok supplied.length places supplied.fits
  unfold given at ran
  rcases taken : takeInputs plan.bindings slots plan.noValues with ⟨emptied, given, result⟩
  rw [taken] at accepted ran
  obtain rfl : result = .ok () := accepted
  rcases computed : runLayers plan.network.layers given with ⟨values, result⟩
  rw [computed] at ran
  obtain rfl : result = .ok () := ran
  refine ⟨emptied, values, length_eq_of_takeInputs supplied.length taken, ?_, ?_⟩
  · unfold execute
    rw [if_neg (not_not.mpr supplied.length), taken]
    dsimp only
    rw [computed]
  · intro id
    have nothing : plan.noValues.get? id = none := Values.get?_replicate _
    rw [get?_isSome_of_runLayers_iff computed, get?_isSome_of_takeInputs_iff supplied.length taken,
      nothing]
    simp [Provides, or_comm, inputTensors, TensorEngine.inputTensors]

end EnginePlan

/-- Whatever was loaded, when its inputs are there and its layers run, fills the slots of all outputs if
every output is provided. If one is not, the run stops at the first such output and reports that it was
never computed. -/
theorem accepted_engine_fills_outputs_iff {engine : Bytes} {loaded : LoadedEngine}
    (accepted : referenceBackend.load engine = .ok loaded) :
    ∃ plan : EnginePlan, EnginePlan.load engine = .ok plan ∧ loaded = .ofPlan plan engine ∧
      ∀ slots, plan.Supplied slots → (runLayers plan.network.layers (plan.given slots)).2 = .ok () →
        let run := loaded.execute slots
        (run.2 = .ok () ↔
            ∀ b ∈ plan.bindings, b.spec.isInput = false → plan.Provides b.tensor) ∧
          (run.2 = .ok () → ∀ (k : Nat) (b : PlanBinding), plan.bindings[k]? = some b →
            b.spec.isInput = false → ∃ t, run.1[k]? = some (some t)) ∧
          ∀ before b after, plan.bindings = before ++ b :: after → b.spec.isInput = false →
            ¬ plan.Provides b.tensor →
            (∀ a ∈ before, a.spec.isInput = false → plan.Provides a.tensor) →
            run.2 = .error (.execution (.neverComputed b.spec.name)) := by
  obtain ⟨plan, load, rfl⟩ := referenceBackend_load_eq_ok_iff.mp accepted
  refine ⟨plan, load, rfl, ?_⟩
  intro slots supplied ran run
  obtain ⟨-, -, valid⟩ := EnginePlan.load_eq_ok_iff.mp load
  obtain ⟨emptied, values, length, executes, known⟩ :=
    EnginePlan.execute_eq_fillOutputs supplied (EnginePlan.validate_eq_ok_iff.mp valid).1 ran
  have ended : run = ((fillOutputs values plan.bindings emptied).1,
      (fillOutputs values plan.bindings emptied).2.mapError .execution) := by
    simp only [run, LoadedEngine.ofPlan, executes]
  rw [ended]
  refine ⟨?_, ?_, ?_⟩
  · rw [mapError_eq_ok_iff, fillOutputs_eq_ok_iff length]
    simp only [known]
  · intro ok k b bound isOutput
    have slot := getElem?_of_fillOutputs length (Prod.ext rfl (mapError_eq_ok_iff.mp ok)) bound
    rw [if_neg (by simp [isOutput])] at slot
    obtain ⟨t, -, filled⟩ := slot
    exact ⟨t, filled⟩
  · intro before b after split isOutput missing provided
    have unknown : values.get? b.tensor = none := by
      rw [← Option.not_isSome_iff_eq_none, known]
      exact missing
    have stops := fillOutputs_eq_error (split ▸ length)
      (fun a member isOutput => (known a.tensor).mpr (provided a member isOutput)) isOutput unknown
    rw [split, stops]
    rfl

/-- A plan that returns its input, and a tensor that is left to these layers. -/
def openPlan (layers : List Layer) : EnginePlan where
  formatVersion := 1
  engineName := "open"
  builtFor := ⟨8, 6⟩
  network :=
    { tensors := [⟨"x_0", .u8, [1]⟩, ⟨"y_1", .u8, [1]⟩]
      layers := layers
      inputs := [⟨0⟩]
      outputs := [⟨0⟩, ⟨1⟩] }
  bindings := [⟨⟨⟨"x_0"⟩, true, .u8, [1]⟩, ⟨0⟩⟩, ⟨⟨⟨"y_0"⟩, false, .u8, [1]⟩, ⟨0⟩⟩,
    ⟨⟨⟨"y_1"⟩, false, .u8, [1]⟩, ⟨1⟩⟩]

/-- The slots of the plan, with an input. -/
def openSlots : Slots :=
  [some ⟨.u8, [1], [5], rfl⟩, none, none]

/-- A layer that holds a constant. -/
def sevenLayer : Layer :=
  ⟨"seven", .constant ⟨.u8, [1], [7], rfl⟩, [], ⟨1⟩⟩

theorem supplied_openSlots (layers : List Layer) : (openPlan layers).Supplied openSlots := by
  constructor
  · rfl
  · rintro (_ | _ | _ | k) b bound isInput <;> cases bound
    · exact ⟨_, rfl, rfl⟩
    · cases isInput
    · cases isInput

/-- The plan fills the slots of both outputs when a layer computes the second one. -/
theorem accepted_engine_fills_outputs_iff_open :
    ∃ loaded, referenceBackend.load (openPlan [sevenLayer]).bytes = .ok loaded ∧
      (openPlan [sevenLayer]).Supplied openSlots ∧ (loaded.execute openSlots).2 = .ok () := by
  have words : (openPlan [sevenLayer]).InWords := by decide
  have load := EnginePlan.load_bytes words rfl (by decide)
  have accepted := referenceBackend_load_eq_ok_iff.mpr ⟨_, load, rfl⟩
  have supplied := supplied_openSlots [sevenLayer]
  obtain ⟨plan, load', -, fills⟩ := accepted_engine_fills_outputs_iff accepted
  cases load.symm.trans load'
  refine ⟨_, accepted, supplied, (fills openSlots supplied rfl).1.mpr ?_⟩
  intro b member isOutput
  simp only [openPlan, List.mem_cons, List.not_mem_nil, or_false] at member
  rcases member with rfl | rfl | rfl
  · cases isOutput
  · exact .inl (by decide)
  · exact .inr ⟨sevenLayer, List.mem_singleton_self _, rfl⟩

/-- Without the layer the plan is loaded as well, all inputs are there and all layers run, and the second
output is not computed. -/
theorem accepted_engine_leaves_output_open :
    ∃ loaded, referenceBackend.load (openPlan []).bytes = .ok loaded ∧
      (openPlan []).Supplied openSlots ∧
      (runLayers (openPlan []).network.layers ((openPlan []).given openSlots)).2 = .ok () ∧
      (loaded.execute openSlots).2 = .error (.execution (.neverComputed ⟨"y_1"⟩)) := by
  have words : (openPlan []).InWords := by decide
  have load := EnginePlan.load_bytes words rfl (by decide)
  exact ⟨_, referenceBackend_load_eq_ok_iff.mpr ⟨_, load, rfl⟩, supplied_openSlots [], rfl, rfl⟩

end TensorEngine
