import TensorEngine.Proofs.Graph.Schedule

/-!
# Arrangements of nodes

Whether a graph has an order of execution does not depend on the order in which its nodes were added.
What is checked of a graph is said of each of its nodes, and the nodes of one order of execution have
ranks by which the queue takes the nodes of every arrangement.

## Main definitions

* `Node.Ordered`: nodes that follow the producers of what they use
* `Graph.Rearranges`: graphs that are the same but for the order of their nodes

## Main results

* `Node.Ordered.mem_flatMap_iff`: the same producers stand in front of a node in every order
* `Graph.exists_nodes_of_order`: the nodes of an order of execution follow their producers
* `Graph.Rearranges.exists_order`: an arrangement of nodes has an order of execution if they have one
-/

namespace TensorEngine

/-- Nodes that stand behind the producers of the values they use. -/
def Node.Ordered (nodes : List Node) : Prop :=
  ∀ before node after, nodes = before ++ node :: after → ∀ id ∈ node.inputs,
    id ∈ nodes.flatMap Node.outputs → id ∈ before.flatMap Node.outputs

/-- Nodes in two orders that follow the producers have the same producers in front of a node, as far as
it reads or computes what they compute. -/
theorem Node.Ordered.mem_flatMap_iff {nodes nodes' before after before' after' : List Node} {node : Node}
    (ordered : Node.Ordered nodes) (ordered' : Node.Ordered nodes') (perm : nodes'.Perm nodes)
    (distinct : (nodes.flatMap Node.outputs).Nodup) (split : nodes = before ++ node :: after)
    (split' : nodes' = before' ++ node :: after') {id : ValueId}
    (known : id ∈ node.inputs ++ node.outputs) :
    id ∈ before.flatMap Node.outputs ↔ id ∈ before'.flatMap Node.outputs := by
  have computed := perm.flatMap_right Node.outputs
  have distinct' := computed.nodup_iff.mpr distinct
  have all : ∀ {nodes before after : List Node}, nodes = before ++ node :: after →
      before.flatMap Node.outputs ⊆ nodes.flatMap Node.outputs := by
    rintro _ before after rfl
    rw [List.flatMap_append]
    exact List.subset_append_left _ _
  rcases List.mem_append.mp known with used | output
  · exact ⟨fun member => ordered' _ _ _ split' id used (computed.mem_iff.mpr (all split member)),
      fun member => ordered _ _ _ split id used (computed.mem_iff.mp (all split' member))⟩
  · -- What a node computes, no node before it does.
    have absent : ∀ {nodes before after : List Node}, nodes = before ++ node :: after →
        (nodes.flatMap Node.outputs).Nodup → id ∉ before.flatMap Node.outputs := by
      rintro _ before after rfl distinct member
      rw [List.flatMap_append, List.flatMap_cons] at distinct
      exact (List.nodup_append.mp distinct).2.2 id member id (List.mem_append_left _ output) rfl
    exact iff_of_false (absent split distinct) (absent split' distinct')

namespace Graph

variable {graph graph' : Graph} {order : List Nat}

/-! ### Nodes in order -/

/-- A node waits for the producer of each value that it uses. -/
theorem mem_waits (distinct : (graph.nodes.flatMap Node.outputs).Nodup) {place user : Nat} :
    (place, user) ∈ graph.waits ↔ ∃ producer node, graph.nodes[place]? = some producer ∧
      graph.nodes[user]? = some node ∧ ∃ id ∈ node.inputs, id ∈ producer.outputs := by
  rw [← map_fst_producersOf _ 0] at distinct
  simp only [waits, mem_edgesOf, lookup_eq_some_iff_mem distinct, mem_producersOf]
  constructor
  · rintro ⟨node, listed, id, used, producer, listed', computed⟩
    exact ⟨producer, node, listed', listed, id, used, computed⟩
  · rintro ⟨producer, node, listed', listed, id, used, computed⟩
    exact ⟨node, listed, id, used, producer, listed', computed⟩

theorem waits_lt (distinct : (graph.nodes.flatMap Node.outputs).Nodup) :
    ∀ edge ∈ graph.waits, edge.1 < graph.nodes.length ∧ edge.2 < graph.nodes.length := by
  rintro ⟨place, user⟩ member
  obtain ⟨producer, node, listed, listed', -⟩ := (mem_waits distinct).mp member
  exact ⟨(List.getElem?_eq_some_iff.mp listed).1, (List.getElem?_eq_some_iff.mp listed').1⟩

theorem waits_below (distinct : (graph.nodes.flatMap Node.outputs).Nodup) :
    ∀ edge ∈ graph.waits, edge.2 < graph.nodes.length :=
  fun edge member => (waits_lt distinct edge member).2

/-- The nodes of an order of execution are all nodes, behind the producers of what they use. -/
theorem exists_nodes_of_order (ordered : graph.order = .ok order) :
    ∃ nodes, Arranged order graph.nodes nodes ∧ nodes.Perm graph.nodes ∧ Node.Ordered nodes := by
  have positions := perm_of_order ordered
  obtain ⟨checked, schedule, ran, complete, rfl⟩ := order_eq_ok_iff.mp ordered
  have permutation : IsPermutation schedule.taken.reverse graph.nodes.length :=
    ⟨by simp [complete], fun p member => List.mem_range.mp (positions.mem_iff.mp member),
      positions.nodup_iff.mpr List.nodup_range⟩
  obtain ⟨nodes, arranged⟩ := Arranged.exists_of_lt permutation.2.1
  have perm := arranged.perm permutation
  refine ⟨nodes, arranged, perm, ?_⟩
  rintro before node after rfl id used computed
  -- The producer is among the positions before the one of the node, and so among the nodes before.
  obtain ⟨earlier, position, later, split, arrangedBefore, listed, -⟩ := exists_split_of_forall₂ arranged
  obtain ⟨producer, member, output⟩ := List.mem_flatMap.mp computed
  obtain ⟨place, listed'⟩ := List.mem_iff_getElem?.mp (perm.mem_iff.mp member)
  have waits : (place, position) ∈ graph.waits :=
    (mem_waits checked.distinct).mpr ⟨producer, node, listed', listed, id, used, output⟩
  have taken := Schedule.ordered_of_run (waits_below checked.distinct) ran split waits
  obtain ⟨other, before, same⟩ := forall₂_mem_left arrangedBefore taken
  cases listed'.symm.trans same
  exact List.mem_flatMap.mpr ⟨producer, before, output⟩

/-! ### Graphs in other arrangements -/

/-- The other graph has the same values, inputs and outputs, and the same nodes in some order. -/
structure Rearranges (graph graph' : Graph) : Prop where
  values : graph'.values = graph.values
  nodes : graph'.nodes.Perm graph.nodes
  inputs : graph'.inputs = graph.inputs
  outputs : graph'.outputs = graph.outputs

namespace Rearranges

theorem symm (h : graph.Rearranges graph') : graph'.Rearranges graph :=
  ⟨h.values.symm, h.nodes.symm, h.inputs.symm, h.outputs.symm⟩

theorem value_eq (h : graph.Rearranges graph') : graph'.value = graph.value := by
  funext id
  rw [value, value, h.values]

theorem outputs_perm (h : graph.Rearranges graph') :
    (graph'.nodes.flatMap Node.outputs).Perm (graph.nodes.flatMap Node.outputs) :=
  h.nodes.flatMap_right _

theorem supplied (h : graph.Rearranges graph') {id : ValueId} (supplied : graph.Supplied id) :
    graph'.Supplied id := by
  obtain ⟨value, known, computed⟩ := supplied
  exact ⟨value, h.value_eq ▸ known, fun kind => h.outputs_perm.mem_iff.mpr (computed kind)⟩

theorem checked (h : graph.Rearranges graph') (checked : graph.Checked) : graph'.Checked where
  known := fun id member => h.value_eq ▸ checked.known id (h.outputs_perm.mem_iff.mp member)
  distinct := h.outputs_perm.nodup_iff.mpr checked.distinct
  inputs := by
    rw [h.inputs, h.value_eq]
    exact checked.inputs
  uses := fun node member id used => h.supplied (checked.uses node (h.nodes.mem_iff.mp member) id used)
  outputs := by
    rw [h.outputs]
    exact fun id output => h.supplied (checked.outputs id output)

/-- In an order of execution, a producer stands before the nodes that use what it computes. -/
theorem idxOf_lt {nodes : List Node} (ordered : Node.Ordered nodes)
    (distinct : (nodes.flatMap Node.outputs).Nodup) {producer node : Node} {id : ValueId}
    (memberP : producer ∈ nodes) (member : node ∈ nodes) (used : id ∈ node.inputs)
    (computed : id ∈ producer.outputs) : nodes.idxOf producer < nodes.idxOf node := by
  obtain ⟨before, after, split, absent⟩ := List.eq_append_cons_of_mem member
  obtain ⟨other, earlier, computed'⟩ := List.mem_flatMap.mp
    (ordered before node after split id used (List.mem_flatMap.mpr ⟨producer, memberP, computed⟩))
  have listed : other ∈ nodes := split ▸ List.mem_append_left _ earlier
  obtain rfl := eq_of_mem_outputs distinct listed memberP computed' computed
  rw [split, List.idxOf_append_of_mem earlier, List.idxOf_append_of_notMem absent,
    List.idxOf_cons_self]
  exact List.idxOf_lt_length_of_mem earlier

/-- A graph has an order of execution if a rearrangement of it has one. -/
theorem exists_order (h : graph.Rearranges graph') (ordered : graph.order = .ok order) :
    ∃ order', graph'.order = .ok order' := by
  obtain ⟨nodes, -, perm, follows⟩ := exists_nodes_of_order ordered
  have checked' := h.checked (order_eq_ok_iff.mp ordered).1
  have perm' := perm.trans h.nodes.symm
  have distinct : (nodes.flatMap Node.outputs).Nodup :=
    (perm'.flatMap_right _).nodup_iff.mpr checked'.distinct
  -- The rank of a position is the place of its node in the given order.
  have ranks : ∀ edge ∈ graph'.waits, (graph'.nodes[edge.1]?).elim 0 nodes.idxOf <
      (graph'.nodes[edge.2]?).elim 0 nodes.idxOf := by
    rintro ⟨place, user⟩ member
    obtain ⟨producer, node, listed, listed', id, used, computed⟩ :=
      (mem_waits checked'.distinct).mp member
    rw [listed, listed']
    exact idxOf_lt follows distinct (perm'.mem_iff.mpr (List.mem_of_getElem? listed))
      (perm'.mem_iff.mpr (List.mem_of_getElem? listed')) used computed
  obtain ⟨schedule, ran, complete⟩ := Schedule.exists_run
    (fun place => (graph'.nodes[place]?).elim 0 nodes.idxOf)
    (waits_lt checked'.distinct) ranks
  exact ⟨_, order_eq_ok_iff.mpr ⟨checked', schedule, ran, complete, rfl⟩⟩

end Rearranges

end Graph

end TensorEngine
