import TensorEngine.Graph.Order
import TensorEngine.Proofs.Outcome

/-!
# Graphs that calls build

A graph is built by calls that add values, add nodes over ids of any kind, and mark outputs. No call is
refused: whether the ids that a node names are defined, and how often, is found out when its nodes are
ordered. What the calls do see to is that the declared inputs of a graph are its input values.

## Main definitions

* `Graph.Call`, `Graph.after`, `Graph.built`: calls, and the graph that a list of them builds

## Main results

* `Graph.mem_inputs_built_iff`: declared inputs are the input values
-/

namespace TensorEngine.Graph

/-- A call that builds a graph. -/
inductive Call
  | addInput (name : String) (dtype : DType) (dims : Dims)
  | addConstant (constant : Constant)
  | declare
  | addNode (signature : Signature) (inputs outputs : List ValueId)
  | addOp (signature : Signature) (inputs : List ValueId) (count : Nat)
  | markOutput (id : ValueId)
  deriving DecidableEq, Repr

/-- The graph after a call. -/
def after (graph : Graph) : Call → Graph
  | .addInput name dtype dims => (graph.addInput name dtype dims).2
  | .addConstant constant => (graph.addConstant constant).2
  | .declare => graph.declare.2
  | .addNode signature inputs outputs => graph.addNode signature inputs outputs
  | .addOp signature inputs count => (graph.addOp signature inputs count).2
  | .markOutput id => graph.markOutput id

/-- The graph that a list of calls builds. -/
def built (calls : List Call) : Graph :=
  calls.foldl after .empty

variable {graph : Graph} {id : ValueId} {value : Value}

theorem value_eq_ok_iff : graph.value id = .ok value ↔ graph.values[id.index]? = some value := by
  unfold Graph.value
  split <;> simp_all

/-- A value that is added has the next id, and the others keep theirs. -/
theorem value_pushNamed_eq_ok_iff {name : String} {kind : ValueKind} :
    (graph.pushNamed name kind).2.value id = .ok value ↔
      graph.value id = .ok value ∨ id = graph.nextId ∧ value = ⟨name, kind⟩ := by
  simp only [value_eq_ok_iff, pushNamed]
  rcases Nat.lt_trichotomy id.index graph.values.length with old | new | beyond
  · have different : id ≠ graph.nextId := fun same => by simp [same, nextId] at old
    simp [List.getElem?_append_left old, different]
  · have same : id = graph.nextId := by
      cases id
      exact congrArg ValueId.mk new
    simp [same, nextId, eq_comm]
  · have different : id ≠ graph.nextId := fun same => by simp [same, nextId] at beyond
    have absent : (graph.values ++ [⟨name, kind⟩])[id.index]? = none :=
      List.getElem?_eq_none (Nat.le_trans (Nat.le_of_eq List.length_append) beyond)
    simp [absent, Nat.le_of_lt beyond, different]

/-- The declared inputs are the values that are inputs. -/
def ListsInputs (graph : Graph) : Prop :=
  ∀ id, id ∈ graph.inputs ↔ ∃ name dtype dims, graph.value id = .ok ⟨name, .input dtype dims⟩

namespace ListsInputs

theorem empty : Graph.empty.ListsInputs := by
  simp [ListsInputs, value_eq_ok_iff, Graph.empty]

/-- A value that is no input may be added. -/
theorem push (h : graph.ListsInputs) {kind : ValueKind} (other : ∀ dtype dims, kind ≠ .input dtype dims) :
    (graph.push kind).2.ListsInputs := by
  intro id
  refine (h id).trans (exists_congr fun name => exists_congr fun dtype => exists_congr fun dims => ?_)
  simp [Graph.push, value_pushNamed_eq_ok_iff, (other dtype dims).symm]

theorem addInput (h : graph.ListsInputs) (name : String) (dtype : DType) (dims : Dims) :
    (graph.addInput name dtype dims).2.ListsInputs := by
  intro id
  have listed : id ∈ (graph.addInput name dtype dims).2.inputs ↔
      id ∈ graph.inputs ∨ id = graph.nextId := by
    simp [Graph.addInput, pushNamed, nextId]
  rw [listed, h id]
  constructor
  · rintro (⟨name', dtype', dims', known⟩ | rfl)
    · exact ⟨name', dtype', dims', value_pushNamed_eq_ok_iff.mpr (.inl known)⟩
    · exact ⟨name, dtype, dims, value_pushNamed_eq_ok_iff.mpr (.inr ⟨rfl, rfl⟩)⟩
  · rintro ⟨name', dtype', dims', known⟩
    rcases value_pushNamed_eq_ok_iff.mp known with old | ⟨new, -⟩
    · exact .inl ⟨name', dtype', dims', old⟩
    · exact .inr new

theorem declareMany (h : graph.ListsInputs) (count : Nat) : (graph.declareMany count).2.ListsInputs := by
  induction count generalizing graph with
  | zero => exact h
  | succ count ih => exact ih (h.push nofun)

/-- A call keeps the inputs listed. -/
theorem after (h : graph.ListsInputs) (call : Call) : (graph.after call).ListsInputs := by
  cases call with
  | addInput name dtype dims => exact h.addInput name dtype dims
  | addConstant constant => exact h.push nofun
  | declare => exact h.push nofun
  | addOp signature inputs count => exact h.declareMany count
  -- Nodes and outputs are kept apart from the values.
  | addNode | markOutput => exact h

end ListsInputs

/-- Whatever the calls are, the declared inputs are the values that are inputs. -/
theorem mem_inputs_built_iff (calls : List Call) {id : ValueId} : id ∈ (built calls).inputs ↔
    ∃ name dtype dims, (built calls).value id = .ok ⟨name, .input dtype dims⟩ := by
  have kept : ∀ (calls : List Call) (graph : Graph), graph.ListsInputs →
      (calls.foldl Graph.after graph).ListsInputs := by
    intro calls
    induction calls with
    | nil => exact fun _ h => h
    | cons call calls ih => exact fun graph h => ih _ (h.after call)
  exact kept calls .empty .empty id

end TensorEngine.Graph
