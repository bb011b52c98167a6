import TensorEngine.Proofs.Execution.Agreement
import TensorEngine.Proofs.Execution.Refusals
import TensorEngine.Proofs.Plan.Accepted

/-!
# Accepted engines run orderly

Loading checks that layers read what was given or written before them, and nothing about types or
extents: bindings may repeat a tensor, layers may overwrite what was known, and recorded dimensions
may be wrong. The tensors that the check has found available are the ones that are known when the
layers get there, so that every operand is found. All else is left to the kernels, which compute or
refuse.

## Main definitions

* `Values.Holds`: the values of a run agree with what the check of a plan has found available

## Main results

* `Layer.run_orderly`: a layer that passes the check computes or refuses, and keeps the agreement
* `EnginePlan.execute_orderly`: a run of a valid plan succeeds or has an orderly error
* `accepted_engine_runs_orderly`: so does a run of whatever was loaded
-/

namespace TensorEngine

/-- There is a place for each of `count` tensors, the available ones are known, and what is known can
be addressed. -/
structure Values.Holds (values : Values) (count : Nat) (available : List TensorId) : Prop where
  length : values.length = count
  known : ∀ id ∈ available, (values.get? id).isSome
  addressable : ∀ id t, values.get? id = some t → t.Addressable

namespace Values.Holds

variable {values : Values} {count : Nat} {available others : List TensorId} {id : TensorId}
  {t : Tensor}

theorem noValues (plan : EnginePlan) : plan.noValues.Holds plan.network.tensors.length [] where
  length := List.length_replicate
  known := nofun
  addressable id t found := by
    rw [EnginePlan.noValues, Values.get?_replicate] at found
    cases found

theorem subset (h : values.Holds count available) (fewer : others ⊆ available) :
    values.Holds count others :=
  ⟨h.length, fun id member => h.known id (fewer member), h.addressable⟩

/-- A value has a place, and what it is the value of is available from then on. -/
theorem store (h : values.Holds count available) (within : id.index < count)
    (addressable : t.Addressable) :
    ∃ next, values.store id t = .ok next ∧ next.Holds count (id :: available) := by
  have place : id.index < values.length := h.length.symm ▸ within
  obtain ⟨next, stored⟩ : ∃ next : Values, values.store id t = .ok next :=
    ⟨_, Values.store_eq_ok_iff.mpr ⟨place, rfl⟩⟩
  refine ⟨next, stored, (Values.length_of_store stored).trans h.length, ?_, ?_⟩
  · intro other member
    -- What was known before stays known, since a store adds a value or overwrites one.
    rw [Values.get?_of_store stored]
    split
    next => rfl
    next different =>
      exact h.known other ((List.mem_cons.mp member).resolve_left different)
  · intro other u found
    rw [Values.get?_of_store stored] at found
    split at found
    next =>
      cases found
      exact addressable
    next => exact h.addressable other u found

end Values.Holds

namespace Layer

variable {layer : Layer} {values : Values} {count : Nat} {available : List TensorId}

/-- An operand that the layer has is found when it is available. -/
theorem exists_operand (holds : values.Holds count available)
    (ready : ∀ id ∈ layer.inputs, id ∈ available) {position : Nat}
    (within : position < layer.inputs.length) :
    ∃ t, layer.operand values position = .ok t ∧ t.Addressable := by
  have read := List.getElem?_eq_getElem within
  have known := holds.known _ (ready _ (List.mem_of_getElem? read))
  obtain ⟨t, found⟩ := Option.isSome_iff_exists.mp known
  exact ⟨t, operand_eq_ok_iff.mpr ⟨_, read, found⟩, holds.addressable _ t found⟩

/-- A layer of the right arity over available operands computes or refuses. -/
theorem compute_orderly (holds : values.Holds count available)
    (ready : ∀ id ∈ layer.inputs, id ∈ available)
    (arity : layer.inputs.length = layer.kind.arity) (words : layer.kind.InWords) :
    Tensor.ComputesOrRefuses (layer.compute values) := by
  have operand (position : Nat) (within : position < layer.inputs.length) :=
    exists_operand holds ready within
  rw [arity] at operand
  unfold compute
  -- The check has compared the number of operands with the kind's, so every position that is read
  -- has one.
  generalize layer.kind = kind at operand words
  cases kind with
  | constant weights => exact Tensor.Stored.addressable words
  | shuffle spec =>
    obtain ⟨t, first, addressable⟩ := operand 0 Nat.one_pos
    simp only [first, ok_bind]
    exact Tensor.shuffle_orderly spec addressable
  | matrixMultiply op0 op1 =>
    obtain ⟨a, first, addressable⟩ := operand 0 Nat.two_pos
    obtain ⟨b, second, -⟩ := operand 1 Nat.one_lt_two
    simp only [first, second, ok_bind]
    exact Tensor.matrixMultiply_orderly addressable b op0 op1
  | elementWise op =>
    obtain ⟨a, first, -⟩ := operand 0 Nat.two_pos
    obtain ⟨b, second, -⟩ := operand 1 Nat.one_lt_two
    simp only [first, second, ok_bind]
    exact Tensor.elementWise_orderly a b op

/-- A layer that passes the check makes its result available, or refuses. -/
theorem run_orderly (holds : values.Holds count available)
    (ready : ∀ id ∈ layer.inputs, id ∈ available)
    (arity : layer.inputs.length = layer.kind.arity) (words : layer.kind.InWords)
    (target : layer.output.index < count) :
    Ends (fun e => e.isOrderly) (fun next => next.Holds count (layer.output :: available))
      (layer.run values) := by
  have computed := compute_orderly holds ready arity words
  refine Ends.bind (computed.mapError fun _ refusal => refusal) fun t _ addressable => ?_
  obtain ⟨next, stored, kept⟩ := holds.store target addressable
  rw [stored]
  exact kept

end Layer

/-- Layers that pass the check one after the other run to their end, or one of them refuses. -/
theorem runLayers_orderly {layers : List Layer} {values : Values} {count : Nat}
    {available : List TensorId} (holds : values.Holds count available)
    (checked : checkReads count available layers = .ok ())
    (words : ∀ layer ∈ layers, layer.kind.InWords) :
    Ends (fun e => e.isOrderly) (fun _ => True) (runLayers layers values).2 := by
  -- Each layer makes its output available for the check of the rest and known for the run of the
  -- rest.
  induction layers generalizing values available with
  | nil => trivial
  | cons layer layers ih =>
    obtain ⟨arity, ready, target, rest⟩ := checkReads_cons_eq_ok_iff.mp checked
    rw [List.forall_mem_cons] at words
    have step := Layer.run_orderly holds ready arity words.1 target
    unfold runLayers
    split
    next next ran =>
      rw [ran] at step
      exact ih step rest words.2
    next e failed =>
      rw [failed] at step
      exact step

/-- An input is taken and makes its tensor available, or what is in its slot is refused. -/
theorem PlanBinding.takeInput_orderly {binding : PlanBinding} {slot : Option Tensor}
    {values : Values} {count : Nat} {available : List TensorId}
    (holds : values.Holds count available) (within : binding.tensor.index < count)
    (addressable : ∀ t ∈ slot, t.Addressable) :
    Ends (fun e => e.isOrderly) (fun next => next.Holds count (binding.tensor :: available))
      (binding.takeInput slot values) := by
  unfold takeInput
  cases slot with
  | none => exact rfl
  | some t =>
    dsimp only
    split
    · obtain ⟨next, stored, kept⟩ := holds.store within (addressable t rfl)
      rw [stored]
      exact kept
    · exact rfl

/-- Taking the inputs makes all of their tensors available, however often a tensor is bound, or what
is in some slot is refused. -/
theorem takeInputs_orderly {bindings : List PlanBinding} {slots : Slots} {values : Values}
    {count : Nat} {available : List TensorId} (holds : values.Holds count available)
    (length : slots.length = bindings.length)
    (within : ∀ b ∈ bindings, b.tensor.index < count)
    (addressable : ∀ t, some t ∈ slots → t.Addressable) :
    Ends (fun e => e.isOrderly)
      (fun _ => (takeInputs bindings slots values).2.1.Holds count
        (inputTensors bindings ++ available))
      (takeInputs bindings slots values).2.2 := by
  induction bindings generalizing slots values available with
  | nil => exact holds
  | cons binding bindings ih =>
    obtain _ | ⟨slot, slots⟩ := slots
    · cases length
    rw [List.forall_mem_cons] at within
    have rest : ∀ t, some t ∈ slots → t.Addressable :=
      fun t member => addressable t (List.mem_cons_of_mem _ member)
    have first : ∀ t ∈ slot, t.Addressable :=
      fun t content => addressable t (List.mem_cons.mpr (.inl content.symm))
    unfold takeInputs
    split
    next isInput =>
      have step := binding.takeInput_orderly holds within.1 first
      split
      next e refused =>
        rw [refused] at step
        exact step
      next next taken =>
        rw [taken] at step
        refine (ih step (Nat.succ.inj length) within.2 rest).mono fun _ kept => kept.subset ?_
        -- The run stores this input before the others, and the check lists it in front of them.
        rw [inputTensors_cons isInput]
        exact List.perm_middle.symm.subset
    next output =>
      have others : inputTensors (binding :: bindings) = inputTensors bindings := by
        simp [inputTensors, output]
      rw [others]
      exact ih holds (Nat.succ.inj length) within.2 rest

theorem fillOutputs_orderly (values : Values) (bindings : List PlanBinding) (slots : Slots) :
    Ends (fun e => e.isOrderly) (fun _ => True) (fillOutputs values bindings slots).2 := by
  induction bindings generalizing slots with
  | nil => trivial
  | cons binding bindings ih =>
    cases slots with
    | nil => trivial
    | cons slot slots =>
      unfold fillOutputs
      split
      · exact ih slots
      · split
        · exact rfl
        · exact ih slots

/-- A run of a valid plan over tensors that can be addressed succeeds or has an orderly error. -/
theorem EnginePlan.execute_orderly {plan : EnginePlan} {slots : Slots}
    (valid : plan.validate = .ok ()) (words : plan.InWords)
    (addressable : ∀ t, some t ∈ slots → t.Addressable) :
    Ends (fun e => e.isOrderly) (fun _ => True) (plan.execute slots).2 := by
  obtain ⟨within, checked⟩ := validate_eq_ok_iff.mp valid
  unfold execute
  split
  next => exact rfl
  next length =>
    have taken := takeInputs_orderly (.noValues plan) (not_not.mp length) within addressable
    split
    next refused =>
      rw [refused] at taken
      exact taken
    next emptied values all =>
      rw [all, List.append_nil] at taken
      have ran := runLayers_orderly taken checked fun layer member =>
        (words.network.layers layer member).kind
      split
      next failed =>
        rw [failed] at ran
        exact ran
      next => exact fillOutputs_orderly _ _ _

/-- Whatever was loaded runs orderly. For all engine bytes that the reference backend loads, over all
slots whose tensors can be addressed, an execution succeeds or reports an error of the execution,
which is no fault: no position is out of range and no divisor is zero, no layer misses an operand,
and no value has no place. -/
theorem accepted_engine_runs_orderly {engine : Bytes} {loaded : LoadedEngine} {slots : Slots}
    (accepted : referenceBackend.load engine = .ok loaded)
    (addressable : ∀ t, some t ∈ slots → t.Addressable) :
    (loaded.execute slots).2 = .ok () ∨
      ∃ cause, (loaded.execute slots).2 = .error (.execution cause) ∧ cause.isOrderly := by
  obtain ⟨plan, load, rfl⟩ := referenceBackend_load_eq_ok_iff.mp accepted
  obtain ⟨read, -, valid⟩ := EnginePlan.load_eq_ok_iff.mp load
  have ends := EnginePlan.execute_orderly valid (EnginePlan.inWords_of_parse? read) addressable
  -- The engine only wraps the error of the plan.
  have outcome : ((LoadedEngine.ofPlan plan engine).execute slots).2 =
      (plan.execute slots).2.mapError .execution := rfl
  rw [outcome]
  rcases result : (plan.execute slots).2 with cause | _
  · rw [result] at ends
    exact .inr ⟨cause, rfl, ends⟩
  · exact .inl rfl

/-- A plan that was not built from a network: an input is bound twice, the recorded dimensions are
wrong, one tensor is written by two layers, and a product is of a matrix that may be empty. -/
def tangledPlan : EnginePlan where
  formatVersion := 1
  engineName := "tangled"
  builtFor := ⟨8, 6⟩
  network :=
    { tensors := [⟨"x", .f32, [7]⟩, ⟨"y", .i64, [-3, 0]⟩]
      layers := [⟨"gram", .matrixMultiply .transpose .none, [⟨0⟩, ⟨0⟩], ⟨1⟩⟩,
        ⟨"turned", .shuffle ⟨some [1, 0], some [0, 1, -1], some [2, 2]⟩, [⟨1⟩], ⟨1⟩⟩]
      inputs := []
      outputs := [⟨5⟩] }
  bindings := [⟨⟨⟨"x"⟩, true, .f32, [-1, -1]⟩, ⟨0⟩⟩, ⟨⟨⟨"x"⟩, true, .f32, [0, 3]⟩, ⟨0⟩⟩,
    ⟨⟨⟨"y"⟩, false, .u8, []⟩, ⟨1⟩⟩]

theorem load_tangledPlan : referenceBackend.load tangledPlan.bytes =
    .ok (.ofPlan tangledPlan tangledPlan.bytes) := by
  have words : tangledPlan.InWords := by decide
  exact referenceBackend_load_eq_ok_iff.mpr
    ⟨tangledPlan, EnginePlan.load_bytes words rfl (by decide), rfl⟩

/-- The tangled plan is loaded, and runs over an empty matrix. -/
theorem accepted_engine_runs_orderly_tangled :
    let slots : Slots := [some ⟨.f32, [2, 1], [0, 0, 128, 63, 0, 0, 0, 64], rfl⟩,
      some ⟨.f32, [0, 3], [], rfl⟩, none]
    referenceBackend.load tangledPlan.bytes = .ok (.ofPlan tangledPlan tangledPlan.bytes) ∧
      (∀ t, some t ∈ slots → t.Addressable) ∧
      (((LoadedEngine.ofPlan tangledPlan tangledPlan.bytes).execute slots).2 = .ok () ∨
        ∃ cause, ((LoadedEngine.ofPlan tangledPlan tangledPlan.bytes).execute slots).2 =
          .error (.execution cause) ∧ cause.isOrderly) := by
  intro slots
  have addressable : ∀ t, some t ∈ slots → t.Addressable := by
    intro t member
    simp only [slots, List.mem_cons, Option.some.injEq, List.not_mem_nil, or_false] at member
    obtain rfl | rfl | absent := member
    · exact (by decide : 8 < Unsigned.bound)
    · exact (by decide : 0 < Unsigned.bound)
    · cases absent
  exact ⟨load_tangledPlan, addressable, accepted_engine_runs_orderly load_tangledPlan addressable⟩

end TensorEngine
