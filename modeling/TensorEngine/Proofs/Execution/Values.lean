import TensorEngine.Execution.Plan
import TensorEngine.Proofs.Entries

/-!
# Runs of a plan

A run takes the inputs out of their slots, computes layer after layer, and fills the slots of the
outputs. This file says what a single stage does to the values known so far, and gives for the two
loops the principle of induction that everything about a whole run is proved by.

## Main results

* `Values.get?_of_store`: the values after one more is known
* `takeInputs_induction`, `runLayers_induction`: what every step keeps, the loops keep
* `takeInputs_ok`, `fillOutputs_ok`: inputs that fit are taken, and known outputs are filled
* `EnginePlan.execute_eq_ok_iff`: the stages of a run that succeeds
-/

namespace TensorEngine

namespace Values

variable {values next : Values} {id other : TensorId} {t : Tensor}

theorem store_eq_ok_iff : values.store id t = .ok next ↔
    id.index < values.length ∧ next = values.set id.index (some t) := by
  unfold store
  split
  next within => simp [within, eq_comm]
  next outside => simp [outside]

theorem length_of_store (h : values.store id t = .ok next) : next.length = values.length := by
  rw [(store_eq_ok_iff.mp h).2, List.length_set]

/-- Storing a value makes it known and leaves the others. -/
theorem get?_of_store (h : values.store id t = .ok next) :
    next.get? other = if other = id then some t else values.get? other := by
  obtain ⟨within, rfl⟩ := store_eq_ok_iff.mp h
  unfold get?
  split
  next same =>
    subst same
    rw [List.getElem?_set_self within, Option.join_some]
  next different =>
    rw [List.getElem?_set_ne fun equal => different (by cases other; cases id; simp_all)]

theorem get?_replicate (count : Nat) : get? (List.replicate count none) id = none := by
  unfold get?
  rw [List.getElem?_replicate]
  split <;> rfl

end Values

theorem PlanBinding.takeInput_eq_ok_iff {binding : PlanBinding} {slot : Option Tensor}
    {values next : Values} : binding.takeInput slot values = .ok next ↔
      ∃ t, slot = some t ∧ binding.spec.fits t ∧ values.store binding.tensor t = .ok next := by
  unfold takeInput
  split
  next => simp
  next t =>
    split
    next fits => simp [fits]
    next other => simp [other]

theorem Layer.run_eq_ok_iff {layer : Layer} {values next : Values} :
    layer.run values = .ok next ↔
      ∃ t, layer.compute values = .ok t ∧ values.store layer.output t = .ok next := by
  simp only [run, bind_eq_ok_iff, mapError_eq_ok_iff]

/-- What every input that is taken keeps, taking all inputs keeps. -/
theorem takeInputs_induction {P : Values → Prop} {bindings : List PlanBinding} {slots : Slots}
    {values : Values} (start : P values)
    (step : ∀ binding ∈ bindings, binding.spec.isInput → ∀ t values next, binding.spec.fits t →
      values.store binding.tensor t = .ok next → P values → P next) :
    P (takeInputs bindings slots values).2.1 := by
  induction bindings generalizing slots values with
  | nil => exact start
  | cons binding bindings ih =>
    have later := fun b member => step b (List.mem_cons_of_mem _ member)
    cases slots with
    | nil => exact start
    | cons slot slots =>
      unfold takeInputs
      split
      next isInput =>
        split
        next => exact start
        next next taken =>
          obtain ⟨t, rfl, fits, stored⟩ := PlanBinding.takeInput_eq_ok_iff.mp taken
          exact ih (step binding List.mem_cons_self isInput t values next fits stored start) later
      next => exact ih start later

/-- What every layer keeps, running layers keeps, up to the first one that fails. -/
theorem runLayers_induction {P : Values → Prop} {layers : List Layer} {values : Values}
    (start : P values) (step : ∀ layer ∈ layers, ∀ t values next, layer.compute values = .ok t →
      values.store layer.output t = .ok next → P values → P next) :
    P (runLayers layers values).1 := by
  induction layers generalizing values with
  | nil => exact start
  | cons layer layers ih =>
    unfold runLayers
    split
    next next ran =>
      obtain ⟨t, computed, stored⟩ := Layer.run_eq_ok_iff.mp ran
      refine ih (step layer List.mem_cons_self t values next computed stored start) ?_
      exact fun l member => step l (List.mem_cons_of_mem _ member)
    next => exact start

/-! ### Inputs -/

/-- The tensors that the bindings take inputs for. -/
def inputTensors (bindings : List PlanBinding) : List TensorId :=
  (bindings.filter (·.spec.isInput)).map (·.tensor)

theorem inputTensors_cons {binding : PlanBinding} {bindings : List PlanBinding}
    (isInput : binding.spec.isInput) :
    inputTensors (binding :: bindings) = binding.tensor :: inputTensors bindings := by
  simp [inputTensors, isInput]

theorem takeInputs_cons_eq_ok_iff {binding : PlanBinding} {bindings : List PlanBinding}
    {slot : Option Tensor} {slots emptied : Slots} {values next : Values} :
    takeInputs (binding :: bindings) (slot :: slots) values = (emptied, next, .ok ()) ↔
      ∃ middle rest, (if binding.spec.isInput then
          ∃ t, slot = some t ∧ binding.spec.fits t ∧ values.store binding.tensor t = .ok middle
        else middle = values) ∧ takeInputs bindings slots middle = (rest, next, .ok ()) ∧
      emptied = (if binding.spec.isInput then none else slot) :: rest := by
  conv_lhs => unfold takeInputs
  split
  next isInput =>
    simp only [← PlanBinding.takeInput_eq_ok_iff]
    split
    next e refused => simp [refused]
    next middle taken =>
      rcases later : takeInputs bindings slots middle with ⟨rest, final, result⟩
      simp only [taken, Except.ok.injEq]
      constructor
      · rintro ⟨⟩
        exact ⟨middle, rest, rfl, later, rfl⟩
      · rintro ⟨_, rest', rfl, later', rfl⟩
        cases later.symm.trans later'
        rfl
  next isOutput =>
    rcases later : takeInputs bindings slots values with ⟨rest, final, result⟩
    constructor
    · rintro ⟨⟩
      exact ⟨values, rest, rfl, later, rfl⟩
    · rintro ⟨_, rest', rfl, later', rfl⟩
      cases later.symm.trans later'
      rfl

theorem length_values_of_takeInputs {bindings : List PlanBinding} {slots emptied : Slots}
    {values next : Values} {result : Except ExecutionFault Unit}
    (h : takeInputs bindings slots values = (emptied, next, result)) : next.length = values.length := by
  have kept : (takeInputs bindings slots values).2.1.length = values.length :=
    takeInputs_induction (P := fun next => next.length = values.length) rfl
      fun _ _ _ _ _ _ _ stored same => (Values.length_of_store stored).trans same
  rwa [h] at kept

/-- Taking the inputs empties their slots and leaves the others. -/
theorem getElem?_of_takeInputs {bindings : List PlanBinding} {slots emptied : Slots}
    {values next : Values} (count : slots.length = bindings.length)
    (h : takeInputs bindings slots values = (emptied, next, .ok ())) {k : Nat} {b : PlanBinding}
    (bound : bindings[k]? = some b) :
    emptied[k]? = if b.spec.isInput then some none else slots[k]? := by
  induction bindings generalizing slots emptied values k with
  | nil => simp at bound
  | cons binding bindings ih =>
    obtain _ | ⟨slot, slots⟩ := slots
    · simp at count
    · obtain ⟨middle, rest, -, later, rfl⟩ := takeInputs_cons_eq_ok_iff.mp h
      cases k with
      | zero =>
        cases bound
        rw [List.getElem?_cons_zero, List.getElem?_cons_zero]
        split <;> rfl
      | succ k => exact ih (Nat.succ.inj count) later bound

/-- Taking inputs changes only the values of their tensors. -/
theorem get?_of_takeInputs_of_not_mem {bindings : List PlanBinding} {slots : Slots}
    {values : Values} {id : TensorId} (other : id ∉ inputTensors bindings) :
    (takeInputs bindings slots values).2.1.get? id = values.get? id := by
  refine takeInputs_induction (P := fun next => next.get? id = values.get? id) rfl ?_
  intro b member isInput t before next fits stored same
  have different : id ≠ b.tensor := by
    rintro rfl
    exact other (List.mem_map_of_mem (List.mem_filter.mpr ⟨member, isInput⟩))
  rw [Values.get?_of_store stored, if_neg different, same]

/-- Every input that was taken fits its binding and is the value of its tensor. -/
theorem get?_of_takeInputs {bindings : List PlanBinding} {slots emptied : Slots}
    {values next : Values} (count : slots.length = bindings.length)
    (distinct : (inputTensors bindings).Nodup)
    (h : takeInputs bindings slots values = (emptied, next, .ok ())) {k : Nat} {b : PlanBinding}
    (bound : bindings[k]? = some b) (isInput : b.spec.isInput) :
    ∃ t, slots[k]? = some (some t) ∧ b.spec.fits t ∧ next.get? b.tensor = some t := by
  induction bindings generalizing slots emptied values k with
  | nil => simp at bound
  | cons binding bindings ih =>
    obtain _ | ⟨slot, slots⟩ := slots
    · simp at count
    · obtain ⟨middle, rest, taken, later, rfl⟩ := takeInputs_cons_eq_ok_iff.mp h
      cases k with
      | zero =>
        cases bound
        rw [if_pos isInput] at taken
        obtain ⟨t, rfl, fits, stored⟩ := taken
        have apart : b.tensor ∉ inputTensors bindings :=
          (List.nodup_cons.mp (inputTensors_cons isInput ▸ distinct)).1
        refine ⟨t, rfl, fits, ?_⟩
        have kept : (takeInputs bindings slots middle).2.1.get? b.tensor = middle.get? b.tensor :=
          get?_of_takeInputs_of_not_mem apart
        rw [later] at kept
        rw [kept, Values.get?_of_store stored, if_pos rfl]
      | succ k =>
        have tail : (inputTensors bindings).Nodup := by
          refine distinct.sublist ?_
          exact ((List.sublist_cons_self binding bindings).filter _).map _
        exact ih (Nat.succ.inj count) tail later bound

/-- Inputs that fit are all taken. -/
theorem takeInputs_ok {bindings : List PlanBinding} {slots : Slots} {values : Values}
    (count : slots.length = bindings.length)
    (within : ∀ b ∈ bindings, b.tensor.index < values.length)
    (given : ∀ (k : Nat) (b : PlanBinding), bindings[k]? = some b → b.spec.isInput →
      ∃ t, slots[k]? = some (some t) ∧ b.spec.fits t) :
    (takeInputs bindings slots values).2.2 = .ok () := by
  induction bindings generalizing slots values with
  | nil => rfl
  | cons binding bindings ih =>
    obtain _ | ⟨slot, slots⟩ := slots
    · simp at count
    · rw [List.forall_mem_cons] at within
      have later := fun k b entry => given (k + 1) b entry
      unfold takeInputs
      split
      next isInput =>
        obtain ⟨t, entry, fits⟩ := given 0 binding rfl isInput
        cases entry
        have taken : binding.takeInput (some t) values =
            .ok (values.set binding.tensor.index (some t)) :=
          PlanBinding.takeInput_eq_ok_iff.mpr
            ⟨t, rfl, fits, Values.store_eq_ok_iff.mpr ⟨within.1, rfl⟩⟩
        rw [taken]
        exact ih (Nat.succ.inj count) (by simpa using within.2) later
      next => exact ih (Nat.succ.inj count) within.2 later

/-! ### Outputs -/

/-- Filling the slots of outputs puts the values of their tensors there and leaves the others. -/
theorem getElem?_of_fillOutputs {values : Values} {bindings : List PlanBinding}
    {slots filled : Slots} (count : slots.length = bindings.length)
    (h : fillOutputs values bindings slots = (filled, .ok ())) {k : Nat} {b : PlanBinding}
    (bound : bindings[k]? = some b) :
    if b.spec.isInput then filled[k]? = slots[k]?
    else ∃ t, values.get? b.tensor = some t ∧ filled[k]? = some (some t) := by
  induction bindings generalizing slots filled k with
  | nil => simp at bound
  | cons binding bindings ih =>
    obtain _ | ⟨slot, slots⟩ := slots
    · simp at count
    · rcases later : fillOutputs values bindings slots with ⟨rest, result⟩
      unfold fillOutputs at h
      split at h
      next isInput =>
        rw [later] at h
        cases h
        cases k with
        | zero =>
          cases bound
          rw [if_pos isInput]
          rfl
        | succ k => exact ih (Nat.succ.inj count) later bound
      next isOutput =>
        split at h
        next => cases h
        next t known =>
          rw [later] at h
          cases h
          cases k with
          | zero =>
            cases bound
            rw [if_neg isOutput]
            exact ⟨t, known, rfl⟩
          | succ k => exact ih (Nat.succ.inj count) later bound

/-- Outputs whose values are known are all filled. -/
theorem fillOutputs_ok {values : Values} {bindings : List PlanBinding} {slots : Slots}
    (known : ∀ b ∈ bindings, b.spec.isInput = false → (values.get? b.tensor).isSome) :
    (fillOutputs values bindings slots).2 = .ok () := by
  induction bindings generalizing slots with
  | nil => rfl
  | cons binding bindings ih =>
    rw [List.forall_mem_cons] at known
    obtain _ | ⟨slot, slots⟩ := slots
    · rfl
    · unfold fillOutputs
      split
      next => exact ih known.2
      next isOutput =>
        obtain ⟨t, value⟩ := Option.isSome_iff_exists.mp (known.1 (by simpa using isOutput))
        rw [value]
        exact ih known.2

/-! ### Layers -/

theorem runLayers_cons_eq_ok_iff {layer : Layer} {layers : List Layer} {values next : Values} :
    runLayers (layer :: layers) values = (next, .ok ()) ↔
      ∃ t middle, layer.compute values = .ok t ∧ values.store layer.output t = .ok middle ∧
        runLayers layers middle = (next, .ok ()) := by
  conv_lhs => unfold runLayers
  split
  next middle ran =>
    obtain ⟨t, computed, stored⟩ := Layer.run_eq_ok_iff.mp ran
    constructor
    · exact fun later => ⟨t, middle, computed, stored, later⟩
    · rintro ⟨t', middle', computed', stored', later⟩
      cases computed.symm.trans computed'
      cases stored.symm.trans stored'
      exact later
  next e refused =>
    refine iff_of_false nofun ?_
    rintro ⟨t, middle, computed, stored, -⟩
    cases refused.symm.trans (Layer.run_eq_ok_iff.mpr ⟨t, computed, stored⟩)

/-- An execution that succeeds takes the inputs, runs the layers and fills the outputs. -/
theorem EnginePlan.execute_eq_ok_iff {plan : EnginePlan} {slots filled : Slots} :
    plan.execute slots = (filled, .ok ()) ↔ slots.length = plan.bindings.length ∧
      ∃ emptied given values, takeInputs plan.bindings slots plan.noValues = (emptied, given, .ok ()) ∧
        runLayers plan.network.layers given = (values, .ok ()) ∧
        fillOutputs values plan.bindings emptied = (filled, .ok ()) := by
  unfold execute
  split
  next count => exact iff_of_false nofun fun h => count h.1
  next count =>
    rw [not_not] at count
    rcases taken : takeInputs plan.bindings slots plan.noValues with ⟨emptied, given, result⟩
    cases result with
    | error e => simp
    | ok =>
      rcases ran : runLayers plan.network.layers given with ⟨values, result⟩
      cases result with
      | error e => simp [ran]
      | ok => simp [ran, count]

theorem length_of_takeInputs {bindings : List PlanBinding} {slots : Slots} {values : Values} :
    (takeInputs bindings slots values).1.length = slots.length := by
  induction bindings generalizing slots values with
  | nil => rfl
  | cons binding bindings ih =>
    obtain _ | ⟨slot, slots⟩ := slots
    · rfl
    · unfold takeInputs
      split
      next =>
        split
        next => rfl
        next => exact congrArg Nat.succ ih
      next => exact congrArg Nat.succ ih

theorem length_eq_of_takeInputs {bindings : List PlanBinding} {slots emptied : Slots}
    {values next : Values} {result : Except ExecutionFault Unit}
    (count : slots.length = bindings.length)
    (h : takeInputs bindings slots values = (emptied, next, result)) :
    emptied.length = bindings.length := by
  have kept : (takeInputs bindings slots values).1.length = slots.length := length_of_takeInputs
  rwa [h, count] at kept

end TensorEngine
