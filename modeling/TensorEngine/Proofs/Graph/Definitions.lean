import TensorEngine.Proofs.Graph.Built
import TensorEngine.Proofs.Graph.Refusals

/-!
# Definitions of values

A value comes from one of three places: it is an input of the graph, a constant, or what a node computes.
A graph that has an order of execution defines every plain tensor that is used once, as one output of one
node. But nothing keeps a node from naming an input or a constant as its output. Such a value is defined
twice, and the graph still has an order.

## Main definitions

* `Graph.ProducedAt`: the place at which a node names a value as its output
* `Graph.ComesFrom`, `Graph.HasOneDefinition`: where values come from

## Main results

* `Graph.ProducedAt.unique`: values are produced at one place
* `Graph.used_value_has_one_definition_iff`: which of the values that are used are defined once
* `Graph.overwritten_values_have_no_single_definition`: an input and a constant that are produced too
-/

namespace TensorEngine.Graph

/-- The node at the first position names the value as its output at the second one. -/
def ProducedAt (graph : Graph) (id : ValueId) (site : Nat × Nat) : Prop :=
  ∃ node ∈ graph.nodes[site.1]?, node.outputs[site.2]? = some id

/-- The three ways of defining a value. -/
inductive Definition
  | input
  | constant
  | node
  deriving DecidableEq, Repr

/-- The value is an input of the graph or a constant that no node produces, or it is a plain tensor that
one node produces at one place. -/
def ComesFrom (graph : Graph) (id : ValueId) : Definition → Prop
  | .input => id ∈ graph.inputs ∧ ∀ site, ¬ graph.ProducedAt id site
  | .constant =>
    (∃ name constant, graph.value id = .ok ⟨name, .constant constant⟩) ∧
      ∀ site, ¬ graph.ProducedAt id site
  | .node => (∃ name, graph.value id = .ok ⟨name, .tensor⟩) ∧ ∃! site, graph.ProducedAt id site

/-- The value is defined in one way. -/
def HasOneDefinition (graph : Graph) (id : ValueId) : Prop :=
  ∃! definition, graph.ComesFrom id definition

variable {graph : Graph} {id : ValueId} {site site' : Nat × Nat}

theorem exists_producedAt_iff :
    (∃ site, graph.ProducedAt id site) ↔ ∃ node ∈ graph.nodes, id ∈ node.outputs := by
  constructor
  · rintro ⟨site, node, listed, output⟩
    exact ⟨node, List.mem_of_getElem? listed, List.mem_of_getElem? output⟩
  · rintro ⟨node, member, output⟩
    obtain ⟨place, listed⟩ := List.mem_iff_getElem?.mp member
    obtain ⟨position, named⟩ := List.mem_iff_getElem?.mp output
    exact ⟨(place, position), node, listed, named⟩

/-- Where the outputs of nodes are different, a value is produced at one place. -/
theorem ProducedAt.unique (distinct : (graph.nodes.flatMap Node.outputs).Nodup)
    (h : graph.ProducedAt id site) (h' : graph.ProducedAt id site') : site = site' := by
  obtain ⟨node, listed, output⟩ := h
  obtain ⟨node', listed', output'⟩ := h'
  have keys : ((producersOf graph.nodes 0).map Prod.fst).Nodup := map_fst_producersOf _ _ ▸ distinct
  have found := (lookup_eq_some_iff_mem keys).mpr
    (mem_producersOf.mpr ⟨node, listed, List.mem_of_getElem? output⟩)
  have found' := (lookup_eq_some_iff_mem keys).mpr
    (mem_producersOf.mpr ⟨node', listed', List.mem_of_getElem? output'⟩)
  have places : site.1 = site'.1 := Option.some.inj (found.symm.trans found')
  obtain rfl : node = node' := Option.some.inj (listed.symm.trans (places ▸ listed'))
  have once : node.outputs.Nodup :=
    (List.nodup_flatMap.mp distinct).1 node (List.mem_of_getElem? listed)
  have within := (List.getElem?_eq_some_iff.mp output).1
  exact Prod.ext places ((List.getElem?_inj within once).mp (output.trans output'.symm))

/-- The way in which values of a kind are meant to be defined. -/
def Definition.of : ValueKind → Definition
  | .input _ _ => .input
  | .tensor => .node
  | .constant _ => .constant

/-- A value is defined in the way of its kind, if at all. -/
theorem ComesFrom.eq_of (lists : graph.ListsInputs) {value : Value} (known : graph.value id = .ok value)
    {definition : Definition} (h : graph.ComesFrom id definition) : definition = .of value.kind := by
  cases definition with
  | input =>
    obtain ⟨name, dtype, dims, input⟩ := (lists id).mp h.1
    cases known.symm.trans input
    rfl
  | constant =>
    obtain ⟨⟨name, constant, isConstant⟩, -⟩ := h
    cases known.symm.trans isConstant
    rfl
  | node =>
    obtain ⟨⟨name, plain⟩, -⟩ := h
    cases known.symm.trans plain
    rfl

theorem hasOneDefinition_iff (lists : graph.ListsInputs) {value : Value}
    (known : graph.value id = .ok value) :
    graph.HasOneDefinition id ↔ graph.ComesFrom id (.of value.kind) := by
  constructor
  · rintro ⟨definition, h, -⟩
    exact h.eq_of lists known ▸ h
  · intro h
    exact ⟨_, h, fun definition other => other.eq_of lists known⟩

/-- Whatever calls build a graph: if it has an order of execution, a value that is used is known, and is
produced at one place at most. It has one definition exactly if it is a plain tensor or no node produces
it. So an input or a constant that a node produces is defined twice, and nothing else is. -/
theorem used_value_has_one_definition_iff (calls : List Call) {order : List Nat}
    (ordered : (built calls).order = .ok order) (used : (built calls).Uses id) :
    ∃ value, (built calls).value id = .ok value ∧
      (∀ site site', (built calls).ProducedAt id site → (built calls).ProducedAt id site' →
        site = site') ∧
      ((built calls).HasOneDefinition id ↔
        value.kind = .tensor ∨ ∀ site, ¬ (built calls).ProducedAt id site) := by
  have checked := (order_eq_ok_iff.mp ordered).1
  have lists : (built calls).ListsInputs := fun id => mem_inputs_built_iff calls
  obtain ⟨⟨name, kind⟩, known, computed⟩ := (checked_iff.mp checked).1.supplied used
  have once : ∀ site site', (built calls).ProducedAt id site → (built calls).ProducedAt id site' →
      site = site' := fun _ _ => ProducedAt.unique checked.distinct
  refine ⟨_, known, once, (hasOneDefinition_iff lists known).trans ?_⟩
  cases kind with
  | input dtype dims =>
    have listed : id ∈ (built calls).inputs := (lists id).mpr ⟨name, dtype, dims, known⟩
    simp [Definition.of, ComesFrom, listed]
  | constant constant =>
    have isConstant : ∃ name constant, (built calls).value id = .ok ⟨name, .constant constant⟩ :=
      ⟨name, constant, known⟩
    simp only [Definition.of, ComesFrom, isConstant, true_and, reduceCtorEq, false_or]
  | tensor =>
    obtain ⟨site, produced⟩ := exists_producedAt_iff.mpr (List.mem_flatMap.mp (computed rfl))
    have defined : (built calls).ComesFrom id .node :=
      ⟨⟨name, known⟩, site, produced, fun other produced' => once other site produced' produced⟩
    exact iff_of_true defined (.inl rfl)

/-- An input and a constant feed a node, whose second output is exported. -/
def pairedCalls : List Call :=
  [.addInput "x" .f32 [2], .addConstant (.int 3), .addOp ⟨"f"⟩ [⟨0⟩, ⟨1⟩] 2, .markOutput ⟨3⟩]

/-- Here a value of each kind is used, and has one definition. -/
theorem used_value_has_one_definition_iff_paired :
    (built pairedCalls).order = .ok [0] ∧ (built pairedCalls).HasOneDefinition ⟨0⟩ ∧
      (built pairedCalls).HasOneDefinition ⟨1⟩ ∧ (built pairedCalls).HasOneDefinition ⟨3⟩ := by
  have ordered : (built pairedCalls).order = .ok [0] := by decide
  have defined : ∀ id value, (built pairedCalls).Uses id → (built pairedCalls).value id = .ok value →
      value.kind = .tensor ∨ (¬ ∃ node ∈ (built pairedCalls).nodes, id ∈ node.outputs) →
      (built pairedCalls).HasOneDefinition id := by
    intro id value used known sound
    obtain ⟨value', known', -, iff⟩ := used_value_has_one_definition_iff pairedCalls ordered used
    cases known.symm.trans known'
    rw [← exists_producedAt_iff, not_exists] at sound
    exact iff.mpr sound
  refine ⟨ordered, defined _ ⟨"x", .input .f32 [2]⟩ (.inl (by decide)) rfl (.inr (by decide)), ?_, ?_⟩
  · exact defined _ ⟨"%1", .constant (.int 3)⟩ (.inl (by decide)) (by decide) (.inr (by decide))
  · exact defined _ ⟨"%3", .tensor⟩ (.inr (by decide)) (by decide) (.inl rfl)

/-! ### Values that are defined twice -/

theorem not_hasOneDefinition {value : Value} (known : graph.value id = .ok value)
    (other : value.kind ≠ .tensor) (produced : graph.ProducedAt id site) :
    ¬ graph.HasOneDefinition id := by
  rintro ⟨definition, defined, -⟩
  cases definition with
  | input => exact defined.2 site produced
  | constant => exact defined.2 site produced
  | node =>
    obtain ⟨⟨name, plain⟩, -⟩ := defined
    cases known.symm.trans plain
    exact other rfl

/-- A node names an input and a constant as its outputs, and both are exported. -/
def overwritingCalls : List Call :=
  [.addInput "x" .f32 [2], .addInput "y" .f32 [2], .addConstant (.int 3),
    .addNode ⟨"f"⟩ [⟨1⟩] [⟨0⟩, ⟨2⟩], .markOutput ⟨0⟩, .markOutput ⟨2⟩]

/-- The graph has an order of execution, though neither of the exported values has one definition. -/
theorem overwritten_values_have_no_single_definition :
    (built overwritingCalls).order = .ok [0] ∧
      ((built overwritingCalls).Uses ⟨0⟩ ∧ ¬ (built overwritingCalls).HasOneDefinition ⟨0⟩) ∧
      (built overwritingCalls).Uses ⟨2⟩ ∧ ¬ (built overwritingCalls).HasOneDefinition ⟨2⟩ := by
  have input : (built overwritingCalls).value ⟨0⟩ = .ok ⟨"x", .input .f32 [2]⟩ := by decide
  have constant : (built overwritingCalls).value ⟨2⟩ = .ok ⟨"%2", .constant (.int 3)⟩ := by decide
  have first : (built overwritingCalls).ProducedAt ⟨0⟩ (0, 0) := ⟨_, rfl, rfl⟩
  have second : (built overwritingCalls).ProducedAt ⟨2⟩ (0, 1) := ⟨_, rfl, rfl⟩
  refine ⟨by decide, ⟨.inr (by decide), ?_⟩, .inr (by decide), ?_⟩
  · exact not_hasOneDefinition input nofun first
  · exact not_hasOneDefinition constant nofun second

end TensorEngine.Graph
