import TensorEngine.Proofs.Graph.Checks

/-!
# What checks refuse

A graph passes its checks if it is consistent: no value is computed twice, every id that is named is
defined, and every plain tensor that is used is computed. Besides, its declared inputs have to be
inputs. A check that fails reports what it found, and neither a cycle nor a fault.

## Main definitions

* `Graph.Uses`, `Graph.Consistent`: values that are used, and what is asked of the values of a graph
* `GraphError.isRefusal`: the errors of checks

## Main results

* `Graph.checked_iff`: a graph is checked if it is consistent and its declared inputs are inputs
* `Graph.refused_or_checked`: a graph is refused by a check or passes them all
-/

namespace TensorEngine

/-- The error is one that a check reports, and neither a cycle nor a fault. -/
def GraphError.isRefusal : GraphError → Bool
  | .unknownValue _ | .undefined _ _ | .multipleProducers _ | .notAnInput _ => true
  | .cycle _ | .fault _ => false

namespace Graph

variable {graph : Graph}

/-! ### What the checks ask for -/

/-- A node consumes the value, or the graph exports it. -/
def Uses (graph : Graph) (id : ValueId) : Prop :=
  (∃ node ∈ graph.nodes, id ∈ node.inputs) ∨ id ∈ graph.outputs

/-- No value is an output of nodes twice, every id that a node names or the graph exports is defined,
and every plain tensor that is used is computed by a node. -/
structure Consistent (graph : Graph) : Prop where
  distinct : (graph.nodes.flatMap Node.outputs).Nodup
  defined : ∀ id, (∃ node ∈ graph.nodes, id ∈ node.inputs ++ node.outputs) ∨ id ∈ graph.outputs →
    ∃ value, graph.value id = .ok value
  computed : ∀ id name, graph.Uses id → graph.value id = .ok ⟨name, .tensor⟩ →
    ∃ node ∈ graph.nodes, id ∈ node.outputs

theorem Consistent.supplied {id : ValueId} (h : graph.Consistent) (used : graph.Uses id) :
    graph.Supplied id := by
  have named := used.imp_left fun ⟨node, member, input⟩ =>
    (⟨node, member, List.mem_append_left _ input⟩ : ∃ node ∈ graph.nodes, id ∈ node.inputs ++ node.outputs)
  obtain ⟨⟨name, kind⟩, known⟩ := h.defined id named
  refine ⟨_, known, fun plain => ?_⟩
  obtain rfl : kind = .tensor := plain
  exact List.mem_flatMap.mpr (h.computed id name used known)

/-- A graph passes the checks if it is consistent and its declared inputs are inputs. -/
theorem checked_iff : graph.Checked ↔ graph.Consistent ∧
    ∀ id ∈ graph.inputs, ∃ name dtype dims, graph.value id = .ok ⟨name, .input dtype dims⟩ := by
  constructor
  · intro checked
    have supplied : ∀ id, graph.Uses id → graph.Supplied id := by
      rintro id (⟨node, member, input⟩ | output)
      · exact checked.uses node member id input
      · exact checked.outputs id output
    refine ⟨⟨checked.distinct, ?_, ?_⟩, checked.inputs⟩
    · rintro id (⟨node, member, named⟩ | output)
      · rcases List.mem_append.mp named with input | output
        · obtain ⟨value, known, -⟩ := supplied id (.inl ⟨node, member, input⟩)
          exact ⟨value, known⟩
        · exact checked.known id (List.mem_flatMap.mpr ⟨node, member, output⟩)
      · obtain ⟨value, known, -⟩ := supplied id (.inr output)
        exact ⟨value, known⟩
    · intro id name used plain
      obtain ⟨value, known, computed⟩ := supplied id used
      cases plain.symm.trans known
      exact List.mem_flatMap.mp (computed rfl)
  · rintro ⟨consistent, inputs⟩
    constructor
    · intro id output
      obtain ⟨node, member, output⟩ := List.mem_flatMap.mp output
      exact consistent.defined id (.inl ⟨node, member, List.mem_append_right _ output⟩)
    · exact consistent.distinct
    · exact inputs
    · exact fun node member id input => consistent.supplied (.inl ⟨node, member, input⟩)
    · exact fun id output => consistent.supplied (.inr output)

/-! ### What the checks report -/

/-- A check passes, or reports why it does not. -/
abbrev PassesOrRefuses {α : Type} (x : Except GraphError α) : Prop :=
  Ends (fun e => e.isRefusal) (fun _ => True) x

theorem value_refuses (graph : Graph) (id : ValueId) : PassesOrRefuses (graph.value id) := by
  unfold Graph.value
  split
  next => exact trivial
  next => exact rfl

theorem addProducers_refuses (graph : Graph) (position : Nat) (producers : Producers)
    (ids : List ValueId) : PassesOrRefuses (graph.addProducers position producers ids) := by
  induction ids generalizing producers with
  | nil => exact trivial
  | cons id ids ih =>
    apply (value_refuses graph id).bind
    intro _ _ _
    split
    next => exact rfl
    next => exact ih _

theorem producersFrom_refuses (graph : Graph) (position : Nat) (producers : Producers)
    (nodes : List Node) : PassesOrRefuses (graph.producersFrom position producers nodes) := by
  induction nodes generalizing position producers with
  | nil => exact trivial
  | cons node nodes ih => exact (addProducers_refuses graph _ _ _).bind fun _ _ _ => ih _ _

theorem checkInputs_refuses (graph : Graph) (ids : List ValueId) :
    PassesOrRefuses (graph.checkInputs ids) := by
  induction ids with
  | nil => exact trivial
  | cons id ids ih =>
    apply (value_refuses graph id).bind
    intro value _ _
    cases value.kind with
    | input => exact ih
    | tensor | constant => exact rfl

theorem producerOf_refuses (graph : Graph) (producers : Producers) (user : String) (id : ValueId) :
    PassesOrRefuses (graph.producerOf producers user id) := by
  apply (value_refuses graph id).bind
  intro value _ _
  split <;> trivial

theorem edgesFrom_refuses (graph : Graph) (producers : Producers) (position : Nat)
    (nodes : List Node) : PassesOrRefuses (graph.edgesFrom producers position nodes) := by
  induction nodes generalizing position with
  | nil => exact trivial
  | cons node nodes ih =>
    apply (Ends.mapM fun id _ => producerOf_refuses graph producers node.describe id).bind
    intro _ _ _
    exact (ih _).bind fun _ _ _ => trivial

theorem checkOutputs_refuses (graph : Graph) (producers : Producers) (ids : List ValueId) :
    PassesOrRefuses (graph.checkOutputs producers ids) := by
  induction ids with
  | nil => exact trivial
  | cons id ids ih => exact (producerOf_refuses graph _ _ _).bind fun _ _ _ => ih

/-- A graph is refused by one of the checks, or passes them all. -/
theorem refused_or_checked (graph : Graph) :
    (∃ e, graph.order = .error e ∧ e.isRefusal) ∨ graph.Checked := by
  have refused : ∀ {α : Type} {x : Except GraphError α} {e : GraphError}, PassesOrRefuses x →
      x = .error e → e.isRefusal := fun h failed => by rwa [failed] at h
  rcases produced : graph.producers with e | producers
  · refine .inl ⟨e, ?_, refused (producersFrom_refuses graph 0 [] graph.nodes) produced⟩
    rw [order, produced]
    rfl
  obtain ⟨known, distinct, rfl⟩ := producers_eq_ok_iff.mp produced
  rcases inputs : graph.checkInputs graph.inputs with e | _
  · refine .inl ⟨e, ?_, refused (checkInputs_refuses graph _) inputs⟩
    rw [order, produced, ok_bind, inputs]
    rfl
  rcases used : graph.edges (producersOf graph.nodes 0) with e | edges
  · refine .inl ⟨e, ?_, refused (edgesFrom_refuses graph _ 0 _) used⟩
    rw [order, produced, ok_bind, inputs, ok_bind, used]
    rfl
  rcases exported : graph.checkOutputs (producersOf graph.nodes 0) graph.outputs with e | _
  · refine .inl ⟨e, ?_, refused (checkOutputs_refuses graph _ _) exported⟩
    rw [order, produced, ok_bind, inputs, ok_bind, used, ok_bind, exported]
    rfl
  obtain ⟨uses, -⟩ := edgesFrom_eq_ok_iff.mp used
  exact .inr ⟨known, distinct, checkInputs_eq_ok_iff.mp inputs, uses,
    checkOutputs_eq_ok_iff.mp exported⟩

end Graph

end TensorEngine
