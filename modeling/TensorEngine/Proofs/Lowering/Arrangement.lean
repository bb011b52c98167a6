import TensorEngine.Proofs.Graph.Arrangement
import TensorEngine.Proofs.Lowering.Stretches
import TensorEngine.Proofs.Network.Arrangement

/-!
# Lowering nodes in another order

A graph is lowered along an order of execution, and another arrangement of its nodes may have another
one. The stretches of the one lowering are then gone through in the order of the other. What a node reads
was bound before it in both, and so what it adds matches, although the tensors have other ids. The two
networks have the same inputs, outputs that match, and the same layers in some order.

## Main definitions

* `Retraces`: states that are reached through stretches of another lowering

## Main results

* `Retraces.lowerNode`, `exists_retraces`: nodes are lowered again in every order of execution
* `Retraces.lowerOutputs`, `Retraces.rearranged`: outputs are marked again, in a rearranged network
* `lower_rearranges`: a rearranged graph is lowered to a rearranged network
-/

namespace TensorEngine

namespace Lowering

variable {graph graph' : Graph} {start state next final last last' : State}
  {stretches stretches' done : List Stretch} {stretch : Stretch}

/-! ### Nodes -/

/-- A state that is reached from the start through stretches of another lowering, which ends in `final`.
What it binds and its layers match what there is in the end. -/
structure Retraces (start final : State) (done : List Stretch) (state : State) : Prop where
  after : State.After start (done.map Stretch.node) state
  bindings : ∀ id x y, final.binding? id = some x → state.binding? id = some y →
    final.network.Matches state.network x y
  layers : List.Forall₂ (Layer.Matches final.network state.network)
    (start.network.layers ++ done.flatMap Stretch.layers) state.network.layers

namespace Retraces

theorem refl (first : State.After start [] start) (grows : start.Grows final) :
    Retraces start final [] start where
  after := first
  bindings := by
    intro id x y bound bound'
    cases bound.symm.trans (grows.binding? bound')
    exact (Network.Matches.refl first.reached.coherent
      (first.oneToOne.grounded.binding? bound')).grows grows.network (.refl _)
  layers := by
    rw [List.flatMap_nil, List.append_nil, List.forall₂_same]
    intro layer member
    refine ⟨rfl, .grows (.refl first.reached.coherent ?_) grows.network (.refl _)⟩
    exact first.reached.coherent.output_lt member

/-- A node is lowered again after other nodes if the same values were computed of those that it is
about. -/
theorem lowerNode (h : Retraces start final done state) {before : List Node}
    (earlier : State.After start before stretch.first)
    (ran : (lowerNode .builtin graph stretch.node).run stretch.first = (.ok (), stretch.last))
    (rest : stretch.last.Grows final) (coherent : final.network.Coherent)
    (same : ∀ id ∈ stretch.node.inputs ++ stretch.node.outputs,
      id ∈ before.flatMap Node.outputs ↔ id ∈ (done.map Stretch.node).flatMap Node.outputs) :
    ∃ next, (Lowering.lowerNode .builtin graph stretch.node).run state = (.ok (), next) ∧
      Retraces start final (done ++ [stretch]) next := by
  have grows := (Program.stateGrows_of_run ran).trans rest
  -- What the node is about is bound in both states or in none, and matches in the end.
  have bound : ∀ id ∈ stretch.node.inputs ++ stretch.node.outputs,
      ((stretch.first.binding? id).isSome ↔ (state.binding? id).isSome) := fun id known => by
    rw [earlier.bound, h.after.bound, same id known]
  have alike : ∀ id ∈ stretch.node.inputs ++ stretch.node.outputs,
      Option.Rel (stretch.first.network.Matches state.network) (stretch.first.binding? id)
        (state.binding? id) := fun id known =>
    rel_of_isSome_iff (bound id known) fun x y left right =>
      (h.bindings id x y (grows.binding? left) right).restrict grows.network
        earlier.reached.coherent coherent (earlier.oneToOne.grounded.binding? left)
  obtain ⟨next, ran', both⟩ :=
    earlier.lowerNode_parallel h.after (earlier.mode.trans h.after.mode.symm) alike ran
  refine ⟨next, ran', ?_, ?_, ?_⟩
  · rw [List.map_append]
    exact h.after.lowerNode ran'
  · intro id x y left right
    obtain ⟨bound?, bound?', lookup, lookup', related⟩ := both.binding? id
    cases old : state.binding? id with
    | some y' =>
      cases right.symm.trans ((Program.stateGrows_of_run ran').binding? old)
      exact (h.bindings id x y left old).grows (.refl _) both.network.grows'
    | none =>
      rw [old, Option.none_or, right] at lookup'
      subst lookup'
      cases related with
      | @some x' _ new =>
        -- The value is an output of the node, and was not bound before it.
        have output := List.mem_append_right stretch.node.inputs (List.mem_of_head? new.binds)
        have fresh : stretch.first.binding? id = none := by
          have both := bound id output
          rw [old] at both
          simpa using both
        rw [fresh, Option.none_or] at lookup
        cases left.symm.trans (rest.binding? lookup)
        exact new.matched.grows rest.network (.refl _)
  · obtain ⟨added, added', left, right, related⟩ := both.network.layers
    have layers : stretch.layers = added := by rw [Stretch.layers, left, List.drop_left]
    rw [List.flatMap_append, List.flatMap_singleton, layers, right, ← List.append_assoc]
    exact List.rel_append (h.layers.imp fun _ _ matched => matched.grows (.refl _) both.network.grows')
      (related.imp fun _ _ matched => matched.grows rest.network (.refl _))

end Retraces

/-- What was lowered in one order is lowered again in another one. -/
theorem exists_retraces (lowers : Lowers graph start stretches final)
    (first : State.After start [] start) (ordered : Node.Ordered (stretches.map Stretch.node))
    (distinct : ((stretches.map Stretch.node).flatMap Node.outputs).Nodup)
    (perm : stretches'.Perm stretches) (ordered' : Node.Ordered (stretches'.map Stretch.node)) :
    ∃ again final', again.map Stretch.node = stretches'.map Stretch.node ∧
      Lowers graph start again final' ∧ Retraces start final stretches' final' := by
  have coherent := (lowers.after first).reached.coherent
  -- By induction on the stretches that are left.
  have rest : ∀ later done state, stretches' = done ++ later → Retraces start final done state →
      ∃ again final', again.map Stretch.node = later.map Stretch.node ∧
        Lowers graph state again final' ∧ Retraces start final stretches' final' := by
    intro later
    induction later with
    | nil =>
      rintro done state rfl retraced
      exact ⟨[], state, rfl, .nil _, (List.append_nil done).symm ▸ retraced⟩
    | cons stretch later ih =>
      intro done state split retraced
      have member : stretch ∈ stretches := perm.mem_iff.mp (split ▸ by simp)
      obtain ⟨before, after, rfl⟩ := List.append_of_mem member
      obtain ⟨earlier, ran, grows⟩ := lowers.split
      have same : ∀ id ∈ stretch.node.inputs ++ stretch.node.outputs,
          id ∈ (before.map Stretch.node).flatMap Node.outputs ↔
            id ∈ (done.map Stretch.node).flatMap Node.outputs := fun id known =>
        ordered.mem_flatMap_iff ordered' (perm.map _) distinct (List.map_append ..)
          (split ▸ List.map_append ..) known
      obtain ⟨next, ran', retraced'⟩ :=
        retraced.lowerNode (earlier.after first) ran grows.grows coherent same
      obtain ⟨again, final', nodes, lowers', whole⟩ :=
        ih (done ++ [stretch]) next (by rw [split, List.append_assoc]; rfl) retraced'
      exact ⟨_ :: again, final', by rw [List.map_cons, List.map_cons, nodes], .cons ran' lowers', whole⟩
  exact rest stretches' [] start rfl (.refl first lowers.grows)

/-! ### Inputs -/

/-- Inputs are not named as outputs are. -/
theorem plain_lowerInputs {position : Nat} {ids : List ValueId} (plain : state.network.Plain)
    (ran : (lowerInputs graph position ids).run state = (.ok (), last)) : last.network.Plain := by
  induction ids generalizing position state with
  | nil =>
    cases ran
    exact plain
  | cons id ids ih =>
    obtain ⟨⟨name, kind⟩, start, ranValue, rest⟩ := Program.run_bind_eq_ok_iff.mp ran
    obtain ⟨-, rfl⟩ := Program.run_ofExcept_eq_ok_iff.mp ranValue
    cases kind with
    | input dtype dims =>
      obtain ⟨x, _, ranEdit, rest⟩ := Program.run_bind_eq_ok_iff.mp rest
      obtain ⟨network, taken, rfl⟩ := run_editNetwork_eq_ok ranEdit
      obtain ⟨_, _, ranBind, rest⟩ := Program.run_bind_eq_ok_iff.mp rest
      obtain ⟨-, -, rfl⟩ := Program.run_associate_eq_ok (Program.run_mapError_eq_ok_iff.mp ranBind)
      refine ih (plain.step taken ?_) rest
      rintro _ _ _ ⟨⟩ k
      exact BindingName.input_ne_output position k
    | tensor | constant => exact ih plain rest

/-- After the inputs, no node was lowered, and every input of the network is bound. -/
theorem after_lowerInputs {settings : Settings} {order : List Nat} (ordered : graph.order = .ok order)
    (ran : (lowerInputs graph 0 graph.inputs).run (.start settings) = (.ok (), start)) :
    State.After start [] start ∧ ∀ x ∈ start.network.inputs, ∃ id, start.binding? id = some x := by
  obtain ⟨⟨distinct, -⟩, -, xs, length, inputs, outputs, bindings, -⟩ :=
    lowerInputs_eq_ok (Graph.inputs_of_order ordered) ran
  have reached := Program.reached_of_run ran .empty
  have xs_nodup : xs.Nodup := by
    have nodup := (List.nodup_append.mp reached.coherent.distinct).1
    rwa [inputs] at nodup
  refine ⟨⟨.refl _, rfl, reached, plain_lowerInputs .empty ran, rfl, outputs,
    ⟨Program.grounded_of_run ran nofun, ?_⟩, by simp⟩, ?_⟩
  · intro a b x boundA boundB
    rw [State.binding?, bindings] at boundA boundB
    obtain ⟨i, entryA⟩ := List.mem_iff_getElem?.mp (mem_of_lookup boundA)
    obtain ⟨j, entryB⟩ := List.mem_iff_getElem?.mp (mem_of_lookup boundB)
    obtain ⟨listedA, placeA⟩ := List.getElem?_zip_eq_some.mp entryA
    obtain ⟨listedB, placeB⟩ := List.getElem?_zip_eq_some.mp entryB
    have same := (List.getElem?_inj (List.getElem?_eq_some_iff.mp placeA).1 xs_nodup).mp
      (placeA.trans placeB.symm)
    exact Option.some.inj (listedA.symm.trans (same ▸ listedB))
  · intro x input
    obtain ⟨k, place⟩ := List.mem_iff_getElem?.mp (inputs ▸ input)
    have within : k < graph.inputs.length := length ▸ (List.getElem?_eq_some_iff.mp place).1
    refine ⟨graph.inputs[k], ?_⟩
    rw [State.binding?, bindings]
    exact lookup_zip distinct (List.getElem?_eq_getElem within) place

/-! ### Outputs -/

/-- Outputs are marked again where all nodes have been lowered again. -/
theorem Retraces.lowerOutputs (h : Retraces start final stretches' state)
    (lowered : State.After start (stretches.map Stretch.node) final) (perm : stretches'.Perm stretches)
    (sources : ∀ x ∈ start.network.inputs, ∃ id, start.binding? id = some x) {position : Nat}
    {ids : List ValueId} (ran : (lowerOutputs graph position ids).run final = (.ok (), last)) :
    ∃ last', (Lowering.lowerOutputs graph position ids).run state = (.ok (), last') ∧
      State.Parallel final state (State.Paired final state) (fun _ => True) last last' := by
  have alike : ∀ id, Option.Rel (final.network.Matches state.network) (final.binding? id)
      (state.binding? id) := by
    refine fun id => rel_of_isSome_iff ?_ (h.bindings id)
    rw [lowered.bound, h.after.bound, ((perm.map _).flatMap_right _).mem_iff]
  have free : ∀ id, True → final.binding? id = none → state.binding? id = none := fun id _ =>
    eq_none_of_rel (alike id)
  have states : State.Parallel final state (State.Paired final state) (fun _ => True) final state :=
    ⟨lowered.mode.trans h.after.mode.symm,
      .refl lowered.outputs h.after.outputs h.after.plain, .refl ..⟩
  have follows : (parallel final state (State.Paired final state) (fun _ => True) free).Follows
      (.ofStates final state) (Lowering.lowerOutputs graph position ids)
      (Lowering.lowerOutputs graph position ids) fun _ _ _ => True :=
    Simulation.follows_lowerOutputs (parallel_admits graph) (parallel_watches fun id _ => alike id)
      (fun _ _ => trivial) (parallel_marks (lowered.corresponds h.after sources)) (List.Subset.refl ids)
  obtain ⟨_, last', ran', both, -⟩ := follows final state (.refl _) states () last ran
  exact ⟨last', ran', both⟩

/-! ### Graphs -/

/-- The networks in the end are rearranged. -/
theorem Retraces.rearranged (h : Retraces start final stretches' state)
    (lowers : Lowers graph start stretches final) (first : State.After start [] start)
    (perm : stretches'.Perm stretches)
    (both : State.Parallel final state (State.Paired final state) (fun _ => True) last last') :
    last.network.Rearranged last'.network := by
  have lowered := lowers.after first
  have inputs : last.network.inputs = start.network.inputs :=
    both.network.inputs.trans lowered.inputs
  have inputs' : last'.network.inputs = start.network.inputs :=
    both.network.inputs'.trans h.after.inputs
  refine ⟨inputs'.trans inputs.symm, ?_, ?_, ?_⟩
  · intro x input
    have marked : x ∈ start.network.inputs ++ start.network.outputs :=
      List.mem_append_left _ (inputs ▸ input)
    have known : start.network.tensor x = .ok _ := Network.tensor_eq_ok_iff.mpr
      (List.getElem?_eq_getElem (first.reached.coherent.marked x marked))
    have grows := lowered.grows.network.trans both.network.grows
    have grows' := h.after.grows.network.trans both.network.grows'
    exact (grows'.records x marked _ known).trans (grows.records x marked _ known).symm
  · refine both.network.outputs.imp ?_
    rintro x y ⟨-, alike, record, known, known'⟩
    exact ⟨alike, known'.trans known.symm⟩
  · obtain ⟨added, added', left, right, related⟩ := both.network.layers
    refine ⟨(start.network.layers ++ stretches'.flatMap Stretch.layers) ++ added, ?_, ?_⟩
    · rw [left, lowers.layers_eq]
      exact ((perm.flatMap_right _).append_left _).append_right _
    · rw [right]
      exact List.rel_append (h.layers.imp fun _ _ matched =>
        matched.grows both.network.grows both.network.grows') related

section Rearranged

variable (h : graph.Rearranges graph')
include h

theorem lowerInputs_rearranges (position : Nat) (ids : List ValueId) :
    lowerInputs graph' position ids = lowerInputs graph position ids := by
  induction ids generalizing position with
  | nil => rfl
  | cons id ids ih => simp only [lowerInputs, h.value_eq, ih]

theorem lowerNode_rearranges (table : RuleTable) (node : Node) :
    lowerNode table graph' node = lowerNode table graph node := by
  have arguments : ∀ ids, argumentsOf graph' node ids = argumentsOf graph node ids := by
    intro ids
    induction ids with
    | nil => rfl
    | cons id ids ih => simp only [argumentsOf, argumentOf, h.value_eq, ih]
  simp only [lowerNode, arguments]

theorem lowerOutputs_rearranges (position : Nat) (ids : List ValueId) :
    lowerOutputs graph' position ids = lowerOutputs graph position ids := by
  induction ids generalizing position with
  | nil => rfl
  | cons id ids ih => simp only [lowerOutputs, outputTensor, h.value_eq, ih]

theorem Lowers.rearranged (lowers : Lowers graph state stretches final) :
    Lowers graph' state stretches final := by
  induction lowers with
  | nil => exact .nil _
  | cons ran _ ih => exact .cons (lowerNode_rearranges h .builtin _ ▸ ran) ih

/-- A rearranged graph is lowered if the graph is, and to a network with the same inputs, matching
outputs, and the same layers in some order. -/
theorem lower_rearranges {settings : Settings} {lowered : Lowered}
    (result : lower .builtin settings graph = .ok lowered) :
    ∃ lowered', lower .builtin settings graph' = .ok lowered' ∧
      lowered.network.Rearranged lowered'.network := by
  obtain ⟨last, ran, rfl⟩ := lower_eq_ok_iff.mp result
  obtain ⟨order, first, second, ordered, ranInputs, ranNodes, ranOutputs⟩ :=
    run_lowering_eq_ok_iff.mp ran
  obtain ⟨order', ordered'⟩ := h.exists_order ordered
  obtain ⟨nodes, arranged, perm, follows⟩ := Graph.exists_nodes_of_order ordered
  obtain ⟨nodes', arranged', perm', follows'⟩ := Graph.exists_nodes_of_order ordered'
  obtain ⟨stretches, rfl, lowers⟩ := (exists_lowers_iff arranged).mp ranNodes
  -- The other order of execution goes through the same stretches in another order.
  have reordered : nodes'.Perm (stretches.map Stretch.node) := perm'.trans (h.nodes.trans perm.symm)
  obtain ⟨stretches', rfl, shuffled⟩ :=
    (congrFun (congrFun (List.eq_map_comp_perm Stretch.node) nodes') stretches).mpr reordered
  have distinct : ((stretches.map Stretch.node).flatMap Node.outputs).Nodup :=
    (perm.flatMap_right _).nodup_iff.mpr (Graph.order_eq_ok_iff.mp ordered).1.distinct
  obtain ⟨start, sources⟩ := after_lowerInputs ordered ranInputs
  obtain ⟨again, second', nodes, lowers', retraced⟩ :=
    exists_retraces lowers start follows distinct shuffled follows'
  obtain ⟨last', ranOutputs', both⟩ :=
    retraced.lowerOutputs (lowers.after start) shuffled sources ranOutputs
  have ran' : (lowering .builtin graph').run (.start settings) = (.ok (), last') := by
    refine run_lowering_eq_ok_iff.mpr ⟨order', first, second', ordered', ?_, ?_, ?_⟩
    · rwa [h.inputs, lowerInputs_rearranges h]
    · exact (exists_lowers_iff arranged').mpr ⟨again, nodes, lowers'.rearranged h⟩
    · rwa [h.outputs, lowerOutputs_rearranges h]
  exact ⟨_, lower_eq_ok_iff.mpr ⟨last', ran', rfl⟩, retraced.rearranged lowers start shuffled both⟩

end Rearranged

end Lowering

end TensorEngine
