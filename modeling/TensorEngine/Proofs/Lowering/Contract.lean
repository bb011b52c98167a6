import TensorEngine.Lowering.Graph
import TensorEngine.Proofs.Graph.Meaning
import TensorEngine.Proofs.Graph.Order
import TensorEngine.Proofs.Lowering.Additions
import TensorEngine.Proofs.Lowering.States

/-!
# What lowering owes to a graph

Rules are programs of anyone: they may bind values of other nodes, mark outputs under any name, add
inputs, and hide that a step was refused. What lowering owes to a graph does not rest on them. Inputs
are added and bound before any rule runs, and what is bound or marked stays so; after its rule, a node
is checked for bindings of all its outputs; outputs are marked after the last rule, under names that
are refused if a rule has taken them.

## Main definitions

* `Network.IsNamed`: the name that a network records for a tensor
* `Allows`: calls that lowering makes outside of rules
* `Lowered.Honours`: what a lowered graph owes to the graph

## Main results

* `lowerInputs_eq_ok`, `lowerNodes_eq_ok`, `lowerOutputs_run`: the three parts of a lowering
* `lowering_honours_graph`: bindings are kept, and a lowered graph honours the graph
-/

namespace TensorEngine

/-- The network records the tensor under the name of a binding. -/
def Network.IsNamed (network : Network) (x : TensorId) (name : BindingName) : Prop :=
  ∃ record, network.tensor x = .ok record ∧ record.name = name.text

theorem Network.IsNamed.grows {network next : Network} {x : TensorId} {name : BindingName}
    (h : network.IsNamed x name) (grows : network.Grows next)
    (marked : x ∈ network.inputs ++ network.outputs) : next.IsNamed x name := by
  obtain ⟨record, known, same⟩ := h
  exact ⟨record, grows.records x marked record known, same⟩

/-- What is exported in the place of a tensor: the tensor itself, or an unchanged copy if the tensor is
an input or output already. -/
def Network.Exports (network : Network) (x y : TensorId) : Prop :=
  y = x ∨ x ∈ network.inputs ++ network.outputs ∧
    ∃ name, ⟨name, .shuffle .identity, [x], y⟩ ∈ network.layers

theorem Network.Exports.grows {network next : Network} {x y : TensorId} (h : network.Exports x y)
    (grows : network.Grows next) : next.Exports x y := by
  refine h.imp_right fun ⟨marked, name, copy⟩ => ⟨?_, name, grows.layers.subset copy⟩
  exact (List.mem_append.mp marked).elim
    (fun input => List.mem_append_left _ (grows.inputs.subset input))
    fun output => List.mem_append_right _ (grows.outputs.subset output)

namespace Lowering

open Program

variable {table : RuleTable} {graph : Graph} {node : Node} {allowed : Network.Edit → Prop}
  {state state' : State}

/-- The calls that lowering makes outside of rules are allowed. -/
structure Allows (graph : Graph) (allowed : Network.Edit → Prop) : Prop where
  input : ∀ {id name dtype dims}, graph.value id = .ok ⟨name, .input dtype dims⟩ →
    ∀ text, allowed (.addInput text dtype dims)
  constant : ∀ {id name t}, graph.value id = .ok ⟨name, .constant (.tensor t)⟩ →
    ∀ text, allowed (.addConstant text t)
  copy : ∀ text x, allowed (.addShuffle text x .identity)
  mark : ∀ x text, allowed (.markOutput x text)

theorem allows_all (graph : Graph) : Allows graph fun _ => True :=
  ⟨fun _ _ => trivial, fun _ _ => trivial, fun _ _ => trivial, fun _ _ => trivial⟩

theorem run_editNetwork_eq_ok {e : Network.Edit} {id : TensorId}
    (h : (editNetwork e).run state = (.ok id, state')) :
    ∃ network, state.network.Step e id network ∧ state' = { state with network := network } := by
  obtain ⟨network, applied, same⟩ := run_perform_eq_ok (run_mapError_eq_ok_iff.mp h)
  exact ⟨network, Network.step_of_call applied, same⟩

/-! ### Inputs -/

/-- Inputs of the graph become inputs of the network in their order, named by it and with their
declared types, and each is bound once. -/
theorem lowerInputs_eq_ok {position : Nat} {ids : List ValueId}
    (kinds : ∀ id ∈ ids, ∃ name dtype dims, graph.value id = .ok ⟨name, .input dtype dims⟩)
    (ran : (lowerInputs graph position ids).run state = (.ok (), state')) :
    (ids.Nodup ∧ ∀ id ∈ ids, state.binding? id = none) ∧
      (∀ allowed, Allows graph allowed → state.network.Reached allowed →
        state'.network.Reached allowed) ∧
      ∃ xs : List TensorId, xs.length = ids.length ∧
        state'.network.inputs = state.network.inputs ++ xs ∧
        state'.network.outputs = state.network.outputs ∧
        state'.bindings = state.bindings ++ ids.zip xs ∧
        ∀ k x, xs[k]? = some x → ∃ id name dtype dims, ids[k]? = some id ∧
          graph.value id = .ok ⟨name, .input dtype dims⟩ ∧
          state'.network.tensor x = .ok ⟨(BindingName.input (position + k)).text, dtype, dims⟩ := by
  induction ids generalizing position state with
  | nil =>
    cases ran
    exact ⟨⟨List.nodup_nil, nofun⟩, fun _ _ reached => reached, [], rfl,
      (List.append_nil _).symm, rfl, (List.append_nil _).symm, nofun⟩
  | cons id ids ih =>
    obtain ⟨⟨name, dtype, dims, known⟩, kinds⟩ := List.forall_mem_cons.mp kinds
    obtain ⟨_, _, ranValue, ran⟩ := run_bind_eq_ok_iff.mp ran
    obtain ⟨valueOf, kept⟩ := run_ofExcept_eq_ok_iff.mp ranValue
    rw [kept] at ran
    cases known.symm.trans (mapError_eq_ok_iff.mp valueOf)
    obtain ⟨x, _, ranEdit, ran⟩ := run_bind_eq_ok_iff.mp ran
    obtain ⟨network, taken, rfl⟩ := run_editNetwork_eq_ok ranEdit
    obtain ⟨_, middle, ranBind, ran⟩ := run_bind_eq_ok_iff.mp ran
    obtain ⟨-, fresh, rfl⟩ := run_associate_eq_ok (run_mapError_eq_ok_iff.mp ranBind)
    have added := taken
    cases taken with
    | layer adds => cases adds
    | input unnamed =>
      have grown := grows_of_run ran
      obtain ⟨⟨distinct, unbound⟩, reached, xs, length, inputs, outputs, bindings, records⟩ :=
        ih kinds ran
      -- What is still unbound after this input was unbound before it, and is another value.
      have binding? : ∀ id', (state.bindings ++ [(id, state.network.nextId)]).lookup id' = none →
          state.binding? id' = none ∧ id' ≠ id := fun id' absent => by
        rw [List.lookup_append, Option.or_eq_none_iff] at absent
        exact ⟨absent.1, by rintro rfl; simp at absent⟩
      have absent : id ∉ ids := fun listed => (binding? id (unbound id listed)).2 rfl
      refine ⟨⟨List.nodup_cons.mpr ⟨absent, distinct⟩, List.forall_mem_cons.mpr
        ⟨fresh, fun id' listed => (binding? id' (unbound id' listed)).1⟩⟩, ?_,
        state.network.nextId :: xs, congrArg Nat.succ length, ?_, outputs, ?_, fun k x entry => ?_⟩
      · intro allowed allows earlier
        exact reached allowed allows (earlier.step (allows.input known _) added)
      · rw [inputs, List.append_assoc]
        rfl
      · rw [bindings, List.append_assoc]
        rfl
      · cases k with
        | zero =>
          cases entry
          refine ⟨id, name, dtype, dims, rfl, known, grown.records _ (by simp) _ ?_⟩
          exact Network.tensor_eq_ok_iff.mpr List.getElem?_concat_length
        | succ k =>
          rw [← Nat.add_assoc, Nat.add_right_comm]
          exact records k x entry

/-! ### Nodes -/

theorem run_gets_bind {ε α β : Type} (f : State → α) (next : α → Program ε β) :
    (Program.gets f >>= next).run state = (next (f state)).run state :=
  rfl

/-- A check for bindings changes nothing, and passes if every output is bound. -/
theorem checkBound_eq_ok {ids : List ValueId}
    (ran : (checkBound node ids).run state = (.ok (), state')) :
    state' = state ∧ ∀ id ∈ ids, ∃ x, state.binding? id = some x := by
  induction ids with
  | nil =>
    cases ran
    exact ⟨rfl, nofun⟩
  | cons id ids ih =>
    unfold checkBound at ran
    rw [run_gets_bind] at ran
    split at ran
    next => cases ran
    next x bound =>
      rw [run_gets_bind] at ran
      obtain ⟨_, _, known, ran⟩ := run_bind_eq_ok_iff.mp ran
      obtain ⟨-, kept⟩ := run_ofExcept_eq_ok_iff.mp known
      rw [kept] at ran
      obtain ⟨same, rest⟩ := ih ran
      exact ⟨same, List.forall_mem_cons.mpr ⟨⟨x, bound⟩, rest⟩⟩

theorem lowerNode_eq_ok (ran : (lowerNode table graph node).run state = (.ok (), state')) :
    ∀ id ∈ node.outputs, ∃ x, state'.binding? id = some x := by
  unfold lowerNode at ran
  split at ran
  next => cases ran
  next =>
    obtain ⟨_, _, -, ran⟩ := run_bind_eq_ok_iff.mp ran
    obtain ⟨_, _, -, checked⟩ := run_bind_eq_ok_iff.mp ran
    obtain ⟨rfl, bound⟩ := checkBound_eq_ok checked
    exact bound

/-- After the nodes at some positions are lowered, all their outputs are bound. -/
theorem lowerNodes_eq_ok {order : List Nat}
    (ran : (lowerNodes table graph order).run state = (.ok (), state')) :
    ∀ position ∈ order, ∀ node, graph.nodes[position]? = some node →
      ∀ id ∈ node.outputs, ∃ x, state'.binding? id = some x := by
  -- Bindings are kept by all that runs later, so each node is looked at when it is lowered.
  induction order generalizing state with
  | nil => exact nofun
  | cons position order ih =>
    obtain ⟨node, _, found, ran⟩ := run_bind_eq_ok_iff.mp ran
    obtain ⟨entry, kept⟩ := run_ofExcept_eq_ok_iff.mp found
    obtain ⟨_, middle, lowered, ran⟩ := run_bind_eq_ok_iff.mp ran
    refine List.forall_mem_cons.mpr ⟨fun other listed id output => ?_, ih ran⟩
    cases listed.symm.trans (entry_eq_ok_iff.mp (mapError_eq_ok_iff.mp entry))
    -- Nodes after this one may bind more, but nothing anew.
    obtain ⟨x, bound⟩ := lowerNode_eq_ok lowered id output
    exact ⟨x, (stateGrows_of_run ran).binding? bound⟩

/-! ### Outputs -/

theorem constant_of_value {id : ValueId} {value : Value} {c : Constant}
    (known : graph.value id = .ok value) (isConstant : value.constant? = some c) :
    graph.value id = .ok ⟨value.name, .constant c⟩ := by
  obtain ⟨name, kind⟩ := value
  cases kind with
  | constant c' =>
    cases isConstant
    exact known
  | input | tensor => cases isConstant

theorem adds_ofGraph {α : Type} (result : Except GraphError α) :
    Adds allowed (ofGraph result) fun a => result = .ok a :=
  .ofExcept fun _ => mapError_eq_ok_iff.mp

theorem adds_outputTensor (allows : Allows graph allowed) (id : ValueId) :
    Adds allowed (outputTensor graph id) fun _ => True := by
  refine (adds_ofGraph _).bind fun value known => ?_
  refine (Adds.gets _).bind fun _ _ => ?_
  split
  next => exact .pure trivial
  next c isConstant =>
    cases c with
    | tensor t =>
      have calls := allows.constant (constant_of_value known isConstant)
      exact ((Adds.frozen calls).bind fun _ _ => Adds.associate _ _).mapError
    | none | bool | int | double | ints => exact (Adds.refuse _).mapError
  next => exact .refuse _

theorem adds_exportable (allows : Allows graph allowed) (name : BindingName) (x : TensorId) :
    Adds allowed (exportable name x) fun _ => True := by
  refine (Adds.gets _).bind fun marked _ => ?_
  split
  next => exact (Adds.edit rfl (allows.copy _ x)).mapError
  next => exact .pure trivial

/-- The tensor of an output is bound to it. -/
theorem outputTensor_eq_ok {id : ValueId} {x : TensorId}
    (ran : (outputTensor graph id).run state = (.ok x, state')) : state'.binding? id = some x := by
  obtain ⟨value, _, ranValue, ran⟩ := run_bind_eq_ok_iff.mp ran
  obtain ⟨-, kept⟩ := run_ofExcept_eq_ok_iff.mp ranValue
  rw [kept, run_gets_bind] at ran
  split at ran
  next bound =>
    cases ran
    exact bound
  next =>
    obtain ⟨_, frozen, -, ran⟩ := run_bind_eq_ok_iff.mp (run_mapError_eq_ok_iff.mp ran)
    obtain ⟨rfl, fresh, rfl⟩ := run_associate_eq_ok ran
    rw [State.binding?] at fresh
    simp [State.binding?, List.lookup_append, fresh]
  next => cases ran

/-- A tensor that can still be marked is exported as it is, another one as its copy. -/
theorem exportable_eq_ok {name : BindingName} {x y : TensorId}
    (ran : (exportable name x).run state = (.ok y, state')) : state'.network.Exports x y := by
  unfold exportable at ran
  rw [run_gets_bind] at ran
  split at ran
  next marked =>
    obtain ⟨network, applied, rfl⟩ := run_perform_eq_ok (run_mapError_eq_ok_iff.mp ran)
    obtain ⟨operands, type, -, -, rfl, rfl⟩ := (Network.call_eq_ok_iff rfl).mp applied
    have marked : x ∈ state.network.inputs ++ state.network.outputs := by
      simpa [Network.isMarked] using marked
    exact .inr ⟨marked, _, List.mem_append_right _ List.mem_cons_self⟩
  next =>
    cases ran
    exact .inl rfl

theorem isNamed_markOutput {network : Network} {x : TensorId} {name : BindingName}
    (known : x.index < network.tensors.length) :
    Network.IsNamed { network.rename x name.text with outputs := network.outputs ++ [x] } x
      name :=
  ⟨_, Network.tensor_rename_self known name.text, rfl⟩

/-- Outputs of the graph become outputs of the network in their order, behind those that rules have
marked, and are named by it. What finding the tensors of outputs and marking them preserve still
holds, and what finding a tensor promises holds of every output. -/
theorem lowerOutputs_run (Keeps : State → Prop) (Good : ValueId → TensorId → Prop)
    {position : Nat} {ids : List ValueId}
    (found : ∀ name id x y state middle next, (outputTensor graph id).run state = (.ok x, middle) →
      (exportable name x).run middle = (.ok y, next) → next.Grows state' → Keeps state →
      Keeps next ∧ next.network.inputs = state.network.inputs ∧
        next.network.outputs = state.network.outputs ∧ Good id y)
    (marked : ∀ state x text network, state.network.Step (.markOutput x text) x network →
      Keeps state → Keeps { state with network := network })
    (ran : (lowerOutputs graph position ids).run state = (.ok (), state')) (keeps : Keeps state) :
    Keeps state' ∧ state'.network.inputs = state.network.inputs ∧
      ∃ xs : List TensorId, xs.length = ids.length ∧
        state'.network.outputs = state.network.outputs ++ xs ∧ ∀ k x, xs[k]? = some x →
          state'.network.IsNamed x (.output (position + k)) ∧
            ∃ id, ids[k]? = some id ∧ Good id x := by
  induction ids generalizing position state with
  | nil =>
    cases ran
    exact ⟨keeps, rfl, [], rfl, (List.append_nil _).symm, nofun⟩
  | cons id ids ih =>
    obtain ⟨x, middle, ranTensor, ran⟩ := run_bind_eq_ok_iff.mp ran
    obtain ⟨y, next, ranExport, ran⟩ := run_bind_eq_ok_iff.mp ran
    obtain ⟨_, _, ranMark, ran⟩ := run_bind_eq_ok_iff.mp ran
    have grown := stateGrows_of_run ran
    obtain ⟨keeps, inputs, outputs, good⟩ := found _ id x y state middle next ranTensor ranExport
      ((stateGrows_of_run ranMark).trans grown) keeps
    obtain ⟨network, taken, rfl⟩ := run_editNetwork_eq_ok ranMark
    cases taken with
    | layer adds => cases adds
    | output known unmarked unnamed =>
      have keptOn := marked _ _ _ _ (.output known unmarked unnamed) keeps
      obtain ⟨keeps', inputs', xs, length, outputs', named⟩ := ih ran keptOn
      refine ⟨keeps', inputs'.trans inputs, y :: xs, congrArg Nat.succ length, ?_,
        fun k z entry => ?_⟩
      · rw [outputs', ← outputs, List.append_assoc]
        rfl
      · cases k with
        | zero =>
          -- The first output is marked before the others, and a marked tensor is not renamed.
          cases entry
          exact ⟨(isNamed_markOutput known).grows grown.network (by simp), id, rfl, good⟩
        | succ k =>
          rw [← Nat.add_assoc, Nat.add_right_comm]
          exact named k z entry

/-- Allowed calls are all that finding and marking outputs make, and what is marked is exported in the
place of the tensor that the output is bound to. -/
theorem lowerOutputs_marks (allows : Allows graph allowed) {position : Nat} {ids : List ValueId}
    (reached : state.network.Reached allowed)
    (ran : (lowerOutputs graph position ids).run state = (.ok (), state')) :
    state'.network.Reached allowed ∧ state'.network.inputs = state.network.inputs ∧
      ∃ xs : List TensorId, xs.length = ids.length ∧
        state'.network.outputs = state.network.outputs ++ xs ∧ ∀ k y, xs[k]? = some y →
          state'.network.IsNamed y (.output (position + k)) ∧
            ∃ id, ids[k]? = some id ∧
              ∃ x, state'.binding? id = some x ∧ state'.network.Exports x y := by
  refine lowerOutputs_run (fun state => state.network.Reached allowed)
    (fun id y => ∃ x, state'.binding? id = some x ∧ state'.network.Exports x y) ?_
    (fun _ x text _ taken earlier => earlier.step (allows.mark x text) taken) ran reached
  intro name id x y state middle next ranTensor ranExport grows reached
  obtain ⟨reached1, inputs1, outputs1, -⟩ := adds_outputTensor allows id state reached
  rw [ranTensor] at reached1 inputs1 outputs1
  obtain ⟨reached2, inputs2, outputs2, -⟩ := adds_exportable allows name x middle reached1
  rw [ranExport] at reached2 inputs2 outputs2
  have bound := ((stateGrows_of_run ranExport).trans grows).binding? (outputTensor_eq_ok ranTensor)
  have exported := (exportable_eq_ok ranExport).grows grows.network
  exact ⟨reached2, inputs2.trans inputs1, outputs2.trans outputs1, x, bound, exported⟩

/-! ### Graphs -/

/-- A lowered graph is what its lowering has built. -/
theorem lower_eq_ok_iff {settings : Settings} {lowered : Lowered} :
    lower table settings graph = .ok lowered ↔
      ∃ last, (lowering table graph).run (.start settings) = (.ok (), last) ∧
        lowered = ⟨last.network, last.bindings⟩ := by
  rw [lower, lowerWithState]
  rcases (lowering table graph).run (.start settings) with ⟨answer, state⟩
  cases answer <;> simp [Except.map, eq_comm]

theorem reached_of_lower {settings : Settings} {lowered : Lowered}
    (h : lower table settings graph = .ok lowered) : lowered.network.Reached fun _ => True := by
  obtain ⟨last, ran, rfl⟩ := lower_eq_ok_iff.mp h
  exact reached_of_run ran .empty

/-- The three parts of a lowering. -/
theorem run_lowering_eq_ok_iff {last : State} :
    (lowering table graph).run state = (.ok (), last) ↔
      ∃ order first second, graph.order = .ok order ∧
        (lowerInputs graph 0 graph.inputs).run state = (.ok (), first) ∧
        (lowerNodes table graph order).run first = (.ok (), second) ∧
        (lowerOutputs graph 0 graph.outputs).run second = (.ok (), last) := by
  constructor
  · intro ran
    obtain ⟨order, start, ranOrder, rest⟩ := run_bind_eq_ok_iff.mp ran
    obtain ⟨ordered, same⟩ := run_ofExcept_eq_ok_iff.mp ranOrder
    obtain ⟨_, first, ranInputs, rest⟩ := run_bind_eq_ok_iff.mp rest
    obtain ⟨_, second, ranNodes, ranOutputs⟩ := run_bind_eq_ok_iff.mp rest
    rw [same] at ranInputs
    exact ⟨order, first, second, mapError_eq_ok_iff.mp ordered, ranInputs, ranNodes, ranOutputs⟩
  · rintro ⟨order, first, second, ordered, ranInputs, ranNodes, ranOutputs⟩
    refine run_bind_eq_ok_iff.mpr ⟨order, state, ?_, ?_⟩
    · exact run_ofExcept_eq_ok_iff.mpr ⟨mapError_eq_ok_iff.mpr ordered, rfl⟩
    · refine run_bind_eq_ok_iff.mpr ⟨(), first, ranInputs, ?_⟩
      exact run_bind_eq_ok_iff.mpr ⟨(), second, ranNodes, ranOutputs⟩

/-- What a lowered graph owes to the graph. -/
structure Lowered.Honours (lowered : Lowered) (graph : Graph) : Prop where
  /-- The first inputs of the network are those of the graph, named by their places, with their
  declared types, and bound. -/
  inputs : ∀ k id, graph.inputs[k]? = some id → ∃ name dtype dims x,
    graph.value id = .ok ⟨name, .input dtype dims⟩ ∧ lowered.network.inputs[k]? = some x ∧
      lowered.network.tensor x = .ok ⟨(BindingName.input k).text, dtype, dims⟩ ∧
      lowered.bindings.lookup id = some x
  /-- Every output of a node is bound. -/
  nodes : ∀ node ∈ graph.nodes, ∀ id ∈ node.outputs, ∃ x, lowered.bindings.lookup id = some x
  /-- The last outputs of the network are named by the places of the graph's outputs, and stand for the
  tensors that these are bound to. -/
  outputs : ∃ earlier ys : List TensorId, lowered.network.outputs = earlier ++ ys ∧
    ys.length = graph.outputs.length ∧ ∀ k y, ys[k]? = some y →
      lowered.network.IsNamed y (.output k) ∧ ∃ id, graph.outputs[k]? = some id ∧
        ∃ x, lowered.bindings.lookup id = some x ∧ lowered.network.Exports x y

theorem lookup_zip {ids : List ValueId} {xs : List TensorId} (distinct : ids.Nodup) {k : Nat}
    {id : ValueId} {x : TensorId} (listed : ids[k]? = some id) (bound : xs[k]? = some x) :
    (ids.zip xs).lookup id = some x := by
  induction ids generalizing xs k with
  | nil => cases listed
  | cons id' ids ih =>
    obtain ⟨absent, distinct⟩ := List.nodup_cons.mp distinct
    cases xs with
    | nil => cases bound
    | cons x' xs =>
      cases k with
      | zero =>
        cases listed
        cases bound
        simp
      | succ k =>
        have other : (id == id') = false := by
          rw [beq_eq_false_iff_ne]
          rintro rfl
          exact absent (List.mem_of_getElem? listed)
        rw [List.zip_cons_cons, List.lookup_cons, other]
        exact ih distinct listed bound

theorem honours_of_lowering {settings : Settings}
    (ran : (lowering table graph).run (.start settings) = (.ok (), state')) :
    Lowered.Honours ⟨state'.network, state'.bindings⟩ graph := by
  obtain ⟨order, first, second, ordered, ranInputs, ranNodes, ranOutputs⟩ :=
    run_lowering_eq_ok_iff.mp ran
  obtain ⟨⟨distinct, -⟩, reached, xs, length, inputs, -, bindings, records⟩ :=
    lowerInputs_eq_ok (Graph.inputs_of_order ordered) ranInputs
  have grownOutputs := stateGrows_of_run ranOutputs
  have grown := (stateGrows_of_run ranNodes).trans grownOutputs
  constructor
  · intro k id listed
    have within : k < xs.length := length ▸ (List.getElem?_eq_some_iff.mp listed).1
    have entry := List.getElem?_eq_getElem within
    obtain ⟨id', name, dtype, dims, listed', known, record⟩ := records k _ entry
    cases listed.symm.trans listed'
    have input : first.network.inputs[k]? = some xs[k] := inputs ▸ entry
    have bound : first.binding? id = some xs[k] := by
      rw [State.binding?, bindings]
      exact lookup_zip distinct listed entry
    rw [Nat.zero_add] at record
    refine ⟨name, dtype, dims, xs[k], known, getElem?_of_isPrefix grown.network.inputs input, ?_,
      grown.binding? bound⟩
    exact grown.network.records _ (List.mem_append_left _ (List.mem_of_getElem? input)) _ record
  · intro node member id output
    obtain ⟨position, listed, entry⟩ := Graph.mem_order ordered member
    obtain ⟨x, bound⟩ := lowerNodes_eq_ok ranNodes position listed node entry id output
    exact ⟨x, grownOutputs.binding? bound⟩
  · have reached' : second.network.Reached fun _ => True :=
      reached_of_run ranNodes (reached _ (allows_all graph) .empty)
    obtain ⟨-, -, ys, length', outputs, named⟩ :=
      lowerOutputs_marks (allows_all graph) reached' ranOutputs
    refine ⟨second.network.outputs, ys, outputs, length', fun k y entry => ?_⟩
    obtain ⟨name, exported⟩ := named k y entry
    rw [Nat.zero_add] at name
    exact ⟨name, exported⟩

end Lowering

open Lowering in
/-- Whatever the rules do: among the states that a lowering goes through, a value that is bound in one
is bound to the same tensor in all later ones, and in each of them to a tensor that exists. If the
lowering succeeds, the graph that it yields is the one in the last of these states and honours the
source. -/
theorem lowering_honours_graph (table : RuleTable) (settings : Settings) (graph : Graph) :
    let states := (lowering table graph).states (.start settings)
    (states.Pairwise fun earlier later => ∀ value x, earlier.binding? value = some x →
        later.binding? value = some x) ∧
      (∀ state ∈ states, ∀ value x, state.binding? value = some x →
        ∃ t, state.network.tensor x = .ok t) ∧
      ∀ lowered, lower table settings graph = .ok lowered →
        (∃ state, states.getLast? = some state ∧ lowered = ⟨state.network, state.bindings⟩) ∧
          lowered.Honours graph := by
  refine ⟨?_, ?_, ?_⟩
  · refine (Program.pairwise_states _ _).imp fun grows => ?_
    exact fun value x => grows.binding?
  · intro state member value x bound
    have grounded : (State.start settings).Grounded := nofun
    exact (Program.grounded_states grounded state member).exists_tensor bound
  · intro lowered result
    rcases ran : (lowering table graph).run (.start settings) with ⟨answer, state⟩
    rw [lower, lowerWithState, ran] at result
    obtain ⟨_, answered, rfl⟩ := map_eq_ok_iff.mp result
    rw [show answer = .ok () from answered] at ran
    refine ⟨⟨state, ?_, rfl⟩, honours_of_lowering ran⟩
    rw [Program.getLast?_states, ran]

end TensorEngine
