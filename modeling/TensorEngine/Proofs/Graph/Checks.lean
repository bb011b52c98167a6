import Mathlib.Data.List.Nodup
import Mathlib.Data.List.Pairwise
import Mathlib.Data.List.ReduceOption
import TensorEngine.Graph.Order
import TensorEngine.Proofs.Entries

/-!
# Checks of graphs

Before nodes are taken, a graph is checked: every value that is computed is known and computed once,
declared inputs are inputs, and what is used is known and has a producer if it needs one. Each check is
a loop over a list that passes if every entry does. None of them asks for the order of the nodes.

## Main definitions

* `Graph.producersOf`, `Graph.edgesOf`: the results of the checks
* `Graph.Supplied`, `Graph.Checked`: values that can be used, and what is checked of a graph

## Main results

* `Graph.order_eq_ok_iff`: what an order of execution is made from
-/

namespace TensorEngine.Graph

variable {graph : Graph} {producers producers' : Producers} {position : Nat} {nodes : List Node}
  {id : ValueId}

/-! ### Producers -/

/-- The outputs of nodes with the positions of their nodes, counted from `position`. -/
def producersOf (nodes : List Node) (position : Nat) : Producers :=
  (nodes.zipIdx position).flatMap fun entry => entry.1.outputs.map (·, entry.2)

theorem producersOf_cons {node : Node} : producersOf (node :: nodes) position =
    node.outputs.map (·, position) ++ producersOf nodes (position + 1) := by
  rw [producersOf, List.zipIdx_cons, List.flatMap_cons]
  rfl

theorem map_fst_producersOf (nodes : List Node) (position : Nat) :
    (producersOf nodes position).map Prod.fst = nodes.flatMap Node.outputs := by
  induction nodes generalizing position with
  | nil => rfl
  | cons node nodes ih =>
    rw [producersOf_cons, List.map_append, ih, List.map_map, List.flatMap_cons]
    exact congrArg (· ++ _) (List.map_id _)

theorem mem_producersOf {place : Nat} : (id, place) ∈ producersOf nodes 0 ↔
    ∃ node, nodes[place]? = some node ∧ id ∈ node.outputs := by
  simp [producersOf, List.mem_flatMap, List.mk_mem_zipIdx_iff_getElem?]

/-- Where outputs of nodes are different, a value has one producer. -/
theorem eq_of_mem_outputs (distinct : (nodes.flatMap Node.outputs).Nodup) {a b : Node}
    (memberA : a ∈ nodes) (memberB : b ∈ nodes) (ofA : id ∈ a.outputs) (ofB : id ∈ b.outputs) :
    a = b := by
  by_contra different
  have : Std.Symm (Function.onFun List.Disjoint Node.outputs) := ⟨fun _ _ => List.disjoint_symm⟩
  exact (List.nodup_flatMap.mp distinct).2.forall memberA memberB different ofA ofB

/-- The outputs of a node are recorded if they are known and have no producer. -/
theorem addProducers_eq_ok_iff {ids : List ValueId} (distinct : (producers.map Prod.fst).Nodup) :
    graph.addProducers position producers ids = .ok producers' ↔
      (∀ id ∈ ids, ∃ value, graph.value id = .ok value) ∧
        (producers.map Prod.fst ++ ids).Nodup ∧ producers' = producers ++ ids.map (·, position) := by
  induction ids generalizing producers with
  | nil => simp [addProducers, distinct, eq_comm]
  | cons id ids ih =>
    have keys : (producers ++ [(id, position)]).map Prod.fst = producers.map Prod.fst ++ [id] := by
      simp
    simp only [addProducers, bind_eq_ok_iff, List.forall_mem_cons]
    by_cases listed : id ∈ producers.map Prod.fst
    · rw [if_pos (lookup_isSome_iff_mem.mpr listed)]
      refine iff_of_false (by rintro ⟨_, _, ⟨⟩⟩) ?_
      rintro ⟨-, nodup, -⟩
      exact (List.nodup_append.mp nodup).2.2 id listed id List.mem_cons_self rfl
    · rw [if_neg (mt lookup_isSome_iff_mem.mp listed)]
      have next : ((producers ++ [(id, position)]).map Prod.fst).Nodup := by
        rw [keys, ← List.concat_eq_append]
        exact distinct.concat listed
      rw [show producers.map Prod.fst ++ id :: ids = producers.map Prod.fst ++ [id] ++ ids by simp,
        ← keys]
      constructor
      · rintro ⟨value, first, rest⟩
        obtain ⟨values, nodup, rfl⟩ := (ih next).mp rest
        exact ⟨⟨⟨value, first⟩, values⟩, nodup, by simp⟩
      · rintro ⟨⟨⟨value, first⟩, values⟩, nodup, rfl⟩
        exact ⟨value, first, (ih next).mpr ⟨values, nodup, by simp⟩⟩

theorem producersFrom_eq_ok_iff (distinct : (producers.map Prod.fst).Nodup) :
    graph.producersFrom position producers nodes = .ok producers' ↔
      (∀ id ∈ nodes.flatMap Node.outputs, ∃ value, graph.value id = .ok value) ∧
        (producers.map Prod.fst ++ nodes.flatMap Node.outputs).Nodup ∧
        producers' = producers ++ producersOf nodes position := by
  induction nodes generalizing position producers with
  | nil => simp [producersFrom, producersOf, distinct, eq_comm]
  | cons node nodes ih =>
    simp only [producersFrom, bind_eq_ok_iff, addProducers_eq_ok_iff distinct, producersOf_cons,
      List.flatMap_cons, List.forall_mem_append]
    have keys : (producers ++ node.outputs.map (·, position)).map Prod.fst =
        producers.map Prod.fst ++ node.outputs := by
      rw [List.map_append, List.map_map]
      exact congrArg _ (List.map_id _)
    constructor
    · rintro ⟨_, ⟨known, nodup, rfl⟩, rest⟩
      obtain ⟨values, nodup, rfl⟩ := (ih (keys ▸ nodup)).mp rest
      rw [keys, List.append_assoc] at nodup
      exact ⟨⟨known, values⟩, nodup, List.append_assoc ..⟩
    · rintro ⟨⟨known, values⟩, nodup, rfl⟩
      rw [← List.append_assoc] at nodup
      have first := (List.nodup_append.mp nodup).1
      refine ⟨_, ⟨known, first, rfl⟩, (ih (keys ▸ first)).mpr ⟨values, ?_, ?_⟩⟩
      · rwa [keys]
      · rw [List.append_assoc]

/-- Producers are found if all outputs of nodes are known and different. -/
theorem producers_eq_ok_iff : graph.producers = .ok producers ↔
    (∀ id ∈ graph.nodes.flatMap Node.outputs, ∃ value, graph.value id = .ok value) ∧
      (graph.nodes.flatMap Node.outputs).Nodup ∧ producers = producersOf graph.nodes 0 :=
  producersFrom_eq_ok_iff List.nodup_nil

/-! ### Inputs and uses -/

/-- Declared inputs pass if they are inputs. -/
theorem checkInputs_eq_ok_iff {ids : List ValueId} : graph.checkInputs ids = .ok () ↔
    ∀ id ∈ ids, ∃ name dtype dims, graph.value id = .ok ⟨name, .input dtype dims⟩ := by
  induction ids with
  | nil => simp [checkInputs]
  | cons id ids ih =>
    simp only [checkInputs, bind_eq_ok_iff, List.forall_mem_cons, ← ih]
    constructor
    · rintro ⟨⟨name, kind⟩, known, rest⟩
      cases kind with
      | input dtype dims => exact ⟨⟨name, dtype, dims, known⟩, rest⟩
      | tensor | constant => cases rest
    · rintro ⟨⟨name, dtype, dims, known⟩, rest⟩
      exact ⟨_, known, rest⟩

/-- A value that can be used: it is known, and has a producer if it needs one. -/
def Supplied (graph : Graph) (id : ValueId) : Prop :=
  ∃ value, graph.value id = .ok value ∧
    (value.kind = .tensor → id ∈ graph.nodes.flatMap Node.outputs)

theorem producerOf_eq_ok_iff {user : String} {source : Option Nat} :
    graph.producerOf (producersOf graph.nodes 0) user id = .ok source ↔
      graph.Supplied id ∧ source = (producersOf graph.nodes 0).lookup id := by
  simp only [producerOf, bind_eq_ok_iff, Supplied, ← map_fst_producersOf _ 0,
    ← lookup_isSome_iff_mem]
  rw [← exists_and_right]
  refine exists_congr fun value => ?_
  rw [and_assoc]
  refine and_congr_right fun _ => ?_
  cases List.lookup id (producersOf graph.nodes 0) with
  | some place => simp [pure, Except.pure, eq_comm]
  | none =>
    cases value.kind <;>
      simp [pure, Except.pure, eq_comm, throw, throwThe, MonadExceptOf.throw]

/-- The producers that the users of values wait for, once for each use. -/
def edgesOf (producers : Producers) (nodes : List Node) (position : Nat) : List (Nat × Nat) :=
  (nodes.zipIdx position).flatMap fun entry =>
    (entry.1.inputs.filterMap fun id => producers.lookup id).map (·, entry.2)

theorem edgesOf_cons {node : Node} : edgesOf producers (node :: nodes) position =
    (node.inputs.filterMap fun id => producers.lookup id).map (·, position) ++
      edgesOf producers nodes (position + 1) := by
  rw [edgesOf, List.zipIdx_cons, List.flatMap_cons]
  rfl

theorem mem_edgesOf {place user : Nat} : (place, user) ∈ edgesOf producers nodes 0 ↔
    ∃ node, nodes[user]? = some node ∧ ∃ id ∈ node.inputs, producers.lookup id = some place := by
  simp [edgesOf, List.mem_flatMap, List.mk_mem_zipIdx_iff_getElem?]

theorem edgesFrom_eq_ok_iff {edges : List (Nat × Nat)} :
    graph.edgesFrom (producersOf graph.nodes 0) position nodes = .ok edges ↔
      (∀ node ∈ nodes, ∀ id ∈ node.inputs, graph.Supplied id) ∧
        edges = edgesOf (producersOf graph.nodes 0) nodes position := by
  induction nodes generalizing position edges with
  | nil => simp [edgesFrom, edgesOf, eq_comm]
  | cons node nodes ih =>
    have sources : ∀ found, List.Forall₂ (fun id source => graph.Supplied id ∧
        source = (producersOf graph.nodes 0).lookup id) node.inputs found ↔
          (∀ id ∈ node.inputs, graph.Supplied id) ∧
            found = node.inputs.map fun id => (producersOf graph.nodes 0).lookup id := by
      intro found
      rw [List.forall₂_and_left, ← List.forall₂_eq_eq_eq, List.forall₂_map_right_iff]
      refine and_congr_right fun _ => ⟨fun h => h.flip, fun h => h.flip⟩
    simp only [edgesFrom, bind_eq_ok_iff, mapM_eq_ok_iff, producerOf_eq_ok_iff, ih, sources,
      List.forall_mem_cons]
    constructor
    · rintro ⟨_, ⟨first, rfl⟩, _, ⟨rest, rfl⟩, result⟩
      refine ⟨⟨first, rest⟩, (Except.ok.inj result).symm.trans ?_⟩
      rw [edgesOf_cons, List.reduceOption, List.filterMap_map]
      rfl
    · rintro ⟨⟨first, rest⟩, rfl⟩
      refine ⟨_, ⟨first, rfl⟩, _, ⟨rest, rfl⟩, ?_⟩
      rw [edgesOf_cons, List.reduceOption, List.filterMap_map]
      rfl

/-- Outputs pass if they can be used. -/
theorem checkOutputs_eq_ok_iff {ids : List ValueId} :
    graph.checkOutputs (producersOf graph.nodes 0) ids = .ok () ↔ ∀ id ∈ ids, graph.Supplied id := by
  induction ids with
  | nil => simp [checkOutputs]
  | cons id ids ih =>
    simp only [checkOutputs, bind_eq_ok_iff, producerOf_eq_ok_iff, ih, List.forall_mem_cons]
    simp

/-! ### Orders -/

/-- What is checked of a graph before its nodes are taken. -/
structure Checked (graph : Graph) : Prop where
  known : ∀ id ∈ graph.nodes.flatMap Node.outputs, ∃ value, graph.value id = .ok value
  distinct : (graph.nodes.flatMap Node.outputs).Nodup
  inputs : ∀ id ∈ graph.inputs, ∃ name dtype dims, graph.value id = .ok ⟨name, .input dtype dims⟩
  uses : ∀ node ∈ graph.nodes, ∀ id ∈ node.inputs, graph.Supplied id
  outputs : ∀ id ∈ graph.outputs, graph.Supplied id

/-- Which node of a graph waits for which, once for each use. -/
def waits (graph : Graph) : List (Nat × Nat) :=
  edgesOf (producersOf graph.nodes 0) graph.nodes 0

/-- A graph has an order of execution if it passes the checks and all its nodes are taken. -/
theorem order_eq_ok_iff {order : List Nat} : graph.order = .ok order ↔
    graph.Checked ∧ ∃ schedule,
      (Schedule.start graph.waits graph.nodes.length).run graph.waits graph.nodes.length =
        .ok schedule ∧ schedule.taken.length = graph.nodes.length ∧ order = schedule.taken.reverse := by
  constructor
  · intro ordered
    obtain ⟨producers, produced, ordered⟩ := bind_eq_ok_iff.mp ordered
    obtain ⟨known, distinct, rfl⟩ := producers_eq_ok_iff.mp produced
    obtain ⟨_, inputs, ordered⟩ := bind_eq_ok_iff.mp ordered
    obtain ⟨edges, used, ordered⟩ := bind_eq_ok_iff.mp ordered
    obtain ⟨uses, rfl⟩ := edgesFrom_eq_ok_iff.mp used
    obtain ⟨_, outputs, ordered⟩ := bind_eq_ok_iff.mp ordered
    obtain ⟨schedule, ran, ordered⟩ := bind_eq_ok_iff.mp ordered
    refine ⟨⟨known, distinct, checkInputs_eq_ok_iff.mp inputs, uses,
      checkOutputs_eq_ok_iff.mp outputs⟩, schedule, ran, ?_⟩
    split at ordered
    next complete => exact ⟨complete, (Except.ok.inj ordered).symm⟩
    next => cases ordered
  · rintro ⟨checked, schedule, ran, complete, rfl⟩
    refine bind_eq_ok_iff.mpr ⟨_, producers_eq_ok_iff.mpr ⟨checked.known, checked.distinct, rfl⟩, ?_⟩
    refine bind_eq_ok_iff.mpr ⟨(), checkInputs_eq_ok_iff.mpr checked.inputs, ?_⟩
    refine bind_eq_ok_iff.mpr ⟨_, edgesFrom_eq_ok_iff.mpr ⟨checked.uses, rfl⟩, ?_⟩
    refine bind_eq_ok_iff.mpr ⟨(), checkOutputs_eq_ok_iff.mpr checked.outputs, ?_⟩
    exact bind_eq_ok_iff.mpr ⟨schedule, ran, if_pos complete⟩

end TensorEngine.Graph
