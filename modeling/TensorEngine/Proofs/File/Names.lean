import TensorEngine.Proofs.File.Definitions
import TensorEngine.Proofs.Graph.Cycles

/-!
# Names in graph files

Once all definitions of a file are added, the names that its nodes and its outputs use are resolved, so it
does not matter where in the file a name is defined. Since every tensor of the graph is listed as an output
of one node, nothing but a cycle keeps the graph from having an order of execution.

## Main definitions

* `GraphFile.IsSound`: distinct names, known references, and constants that fit
* `GraphFile.Describes`: the graph that a file is about

## Main results

* `GraphFile.Describes.consistent`: described graphs are consistent
* `GraphFile.names_are_resolved`: which files are accepted, and what their graphs are
-/

namespace TensorEngine.GraphFile

/-! ### References -/

theorem exists_forall₂_iff {α β : Type} {R : α → β → Prop} {xs : List α} :
    (∃ ys, List.Forall₂ R xs ys) ↔ ∀ x ∈ xs, ∃ y, R x y := by
  constructor
  · intro ⟨ys, related⟩ x member
    obtain ⟨y, -, h⟩ := forall₂_mem_left related member
    exact ⟨y, h⟩
  · intro each
    induction xs with
    | nil => exact ⟨[], .nil⟩
    | cons x xs ih =>
      obtain ⟨⟨y, first⟩, later⟩ := List.forall_mem_cons.mp each
      obtain ⟨ys, rest⟩ := ih later
      exact ⟨y :: ys, .cons first rest⟩

/-- The schema is that of the entry, and the ids stand for the names of the entry. -/
structure IsNode (stands : String → ValueId → Prop) (entry : NodeEntry) (node : Node) : Prop where
  signature : node.signature = ⟨entry.schema⟩
  inputs : List.Forall₂ stands entry.inputs node.inputs
  outputs : List.Forall₂ stands entry.outputs node.outputs

theorem exists_isNode_iff {stands : String → ValueId → Prop} {entry : NodeEntry} :
    (∃ node, IsNode stands entry node) ↔
      ∀ name ∈ entry.inputs ++ entry.outputs, ∃ id, stands name id := by
  simp only [List.forall_mem_append, ← exists_forall₂_iff]
  constructor
  · intro ⟨node, h⟩
    exact ⟨⟨_, h.inputs⟩, _, h.outputs⟩
  · intro ⟨⟨inputs, used⟩, outputs, computed⟩
    exact ⟨⟨⟨entry.schema⟩, inputs, outputs⟩, rfl, used, computed⟩

/-- The id that a scope has for a name. -/
def Resolves (scope : Scope) (name : String) (id : ValueId) : Prop :=
  resolve scope name = .ok id

theorem addNodes_eq_ok_iff {scope : Scope} {graph graph' : Graph} {entries : List NodeEntry} :
    addNodes scope graph entries = .ok graph' ↔ ∃ nodes,
      List.Forall₂ (IsNode (Resolves scope)) entries nodes ∧
        graph' = { graph with nodes := graph.nodes ++ nodes } := by
  induction entries generalizing graph with
  | nil => simp [addNodes, eq_comm]
  | cons entry entries ih =>
    simp only [addNodes, bind_eq_ok_iff, mapM_eq_ok_iff, ih, List.forall₂_cons_left_iff]
    constructor
    · rintro ⟨inputs, used, outputs, computed, nodes, later, rfl⟩
      refine ⟨_, ⟨⟨⟨entry.schema⟩, inputs, outputs⟩, nodes, ⟨rfl, used, computed⟩, later, rfl⟩, ?_⟩
      simp [Graph.addNode]
    · rintro ⟨_, ⟨⟨_, inputs, outputs⟩, nodes, ⟨rfl, used, computed⟩, later, rfl⟩, rfl⟩
      refine ⟨inputs, used, outputs, computed, nodes, later, ?_⟩
      simp [Graph.addNode]

theorem markOutputs_eq_ok_iff {scope : Scope} {graph graph' : Graph} {names : List String} :
    markOutputs scope graph names = .ok graph' ↔ ∃ ids,
      List.Forall₂ (Resolves scope) names ids ∧ graph' = { graph with outputs := graph.outputs ++ ids } := by
  induction names generalizing graph with
  | nil => simp [markOutputs, eq_comm]
  | cons name names ih =>
    simp only [markOutputs, bind_eq_ok_iff, ih, List.forall₂_cons_left_iff]
    constructor
    · rintro ⟨id, known, ids, later, rfl⟩
      exact ⟨_, ⟨id, ids, known, later, rfl⟩, by simp [Graph.markOutput]⟩
    · rintro ⟨_, ⟨id, ids, known, later, rfl⟩, rfl⟩
      exact ⟨id, known, ids, later, by simp [Graph.markOutput]⟩

/-- The id is that of the value which is defined under the name. -/
def Refers (file : GraphFile) (name : String) (id : ValueId) : Prop :=
  file.names[id.index]? = some name

/-- There is one value for each definition. The inputs, the nodes and the outputs are those of the file
in their order, and refer to the values that are defined under their names. -/
structure Describes (file : GraphFile) (graph : Graph) : Prop where
  count : graph.values.length = file.definitions.length
  values : ∀ id d, file.definitions[id.index]? = some d →
    ∃ value, graph.value id = .ok value ∧ d.Gives id value
  inputs : List.Forall₂ (fun entry id => file.definitions[id.index]? = some (.input entry))
    file.inputs graph.inputs
  nodes : List.Forall₂ (IsNode file.Refers) file.nodes graph.nodes
  outputs : List.Forall₂ file.Refers file.outputs graph.outputs

/-- A node uses the value or the file lists it as an output. -/
def Mentions (file : GraphFile) (name : String) : Prop :=
  (∃ entry ∈ file.nodes, name ∈ entry.inputs) ∨ name ∈ file.outputs

/-- Every name is defined once, every name that is used is defined, and every tensor fits its shape. -/
structure IsSound (file : GraphFile) : Prop where
  distinct : file.names.Nodup
  known : ∀ name, file.Mentions name → name ∈ file.names
  fits : ∀ entry ∈ file.constants, ConstantFits entry

variable {file : GraphFile} {graph : Graph}

theorem Refers.mem {name : String} {id : ValueId} (h : file.Refers name id) : name ∈ file.names :=
  List.mem_of_getElem? h

theorem exists_refers_iff {name : String} : (∃ id, file.Refers name id) ↔ name ∈ file.names := by
  constructor
  · intro ⟨id, refers⟩
    exact refers.mem
  · intro member
    obtain ⟨k, place⟩ := List.mem_iff_getElem?.mp member
    exact ⟨⟨k⟩, place⟩

theorem biUnique_refers (distinct : file.names.Nodup) : Relator.BiUnique file.Refers := by
  constructor
  · intro name other id first second
    exact Option.some.inj (first.symm.trans second)
  · intro name id other first second
    have within := (List.getElem?_eq_some_iff.mp first).1
    cases id
    cases other
    exact congrArg ValueId.mk ((List.getElem?_inj within distinct).mp (first.trans second.symm))

theorem output_mem_definitions_iff {name : String} :
    Definition.output name ∈ file.definitions ↔ ∃ entry ∈ file.nodes, name ∈ entry.outputs := by
  simp [definitions]

theorem mem_names_of_output {entry : NodeEntry} {name : String} (member : entry ∈ file.nodes)
    (output : name ∈ entry.outputs) : name ∈ file.names :=
  List.mem_map_of_mem (f := Definition.name) (output_mem_definitions_iff.mpr ⟨entry, member, output⟩)

/-! ### Graphs of files -/

namespace Describes

variable {id : ValueId}

theorem exists_value (h : file.Describes graph) {name : String} (refers : file.Refers name id) :
    ∃ d value, d ∈ file.definitions ∧ d.name = name ∧ graph.value id = .ok value ∧ d.Gives id value := by
  rw [Refers, names, List.getElem?_map, Option.map_eq_some_iff] at refers
  obtain ⟨d, place, named⟩ := refers
  obtain ⟨value, known, gives⟩ := h.values id d place
  exact ⟨d, value, List.mem_of_getElem? place, named, known, gives⟩

/-- Every id that a node names or the graph exports is that of a definition. -/
theorem exists_refers (h : file.Describes graph)
    (named : (∃ node ∈ graph.nodes, id ∈ node.inputs ++ node.outputs) ∨ id ∈ graph.outputs) :
    ∃ name, file.Refers name id := by
  rcases named with ⟨node, member, listed⟩ | output
  · obtain ⟨entry, -, described⟩ := forall₂_mem_right h.nodes member
    obtain ⟨name, -, refers⟩ := forall₂_mem_right
      (List.rel_append described.inputs described.outputs) listed
    exact ⟨name, refers⟩
  · obtain ⟨name, -, refers⟩ := forall₂_mem_right h.outputs output
    exact ⟨name, refers⟩

/-- Every name that a node uses or that is listed as an output is defined. -/
theorem mem_names (h : file.Describes graph) {name : String} (mentioned : file.Mentions name) :
    name ∈ file.names := by
  rcases mentioned with ⟨entry, member, used⟩ | output
  · obtain ⟨node, -, described⟩ := forall₂_mem_left h.nodes member
    obtain ⟨id, -, refers⟩ := forall₂_mem_left described.inputs used
    exact refers.mem
  · obtain ⟨id, -, refers⟩ := forall₂_mem_left h.outputs output
    exact refers.mem

/-- The outputs of the nodes are distinct, since their names are. -/
theorem nodup_outputs (h : file.Describes graph) (distinct : file.names.Nodup) :
    (graph.nodes.flatMap Node.outputs).Nodup := by
  have refers : List.Forall₂ file.Refers (file.nodes.flatMap (·.outputs))
      (graph.nodes.flatMap Node.outputs) :=
    List.rel_flatMap h.nodes fun _ _ described => described.outputs
  apply (List.rel_nodup (biUnique_refers distinct) refers).mp
  have all : file.names = file.inputs.map (·.name) ++ file.constants.map (·.name) ++
      file.nodes.flatMap (·.outputs) := by
    simp [names, definitions, Definition.name, Function.comp_def]
  exact (List.nodup_append.mp (all ▸ distinct)).2.1

/-- A tensor is an output of the node in whose entry its name is. -/
theorem exists_producer (h : file.Describes graph) (distinct : file.names.Nodup) {name label : String}
    (refers : file.Refers name id) (plain : graph.value id = .ok ⟨label, .tensor⟩) :
    ∃ node ∈ graph.nodes, id ∈ node.outputs := by
  obtain ⟨d, value, member, named, known, gives⟩ := h.exists_value refers
  obtain rfl : value = ⟨label, .tensor⟩ := Except.ok.inj (known.symm.trans plain)
  -- Inputs and constants give values of other kinds.
  cases d with
  | input entry => cases gives
  | constant entry =>
    obtain ⟨c, -, other⟩ := gives
    cases other
  | output =>
    obtain rfl : _ = name := named
    obtain ⟨entry, member, output⟩ := output_mem_definitions_iff.mp member
    obtain ⟨node, member', described⟩ := forall₂_mem_left h.nodes member
    obtain ⟨other, output', refers'⟩ := forall₂_mem_left described.outputs output
    obtain rfl : id = other := (biUnique_refers distinct).2 refers refers'
    exact ⟨node, member', output'⟩

theorem consistent (h : file.Describes graph) (distinct : file.names.Nodup) : graph.Consistent where
  distinct := h.nodup_outputs distinct
  defined := by
    intro id named
    obtain ⟨name, refers⟩ := h.exists_refers named
    obtain ⟨-, value, -, -, known, -⟩ := h.exists_value refers
    exact ⟨value, known⟩
  computed := by
    intro id label used plain
    obtain ⟨name, refers⟩ := h.exists_refers
      (used.imp_left fun ⟨node, member, input⟩ => ⟨node, member, List.mem_append_left _ input⟩)
    exact h.exists_producer distinct refers plain

/-- The checks find nothing, so a cycle is all that is left. -/
theorem ordered_or_cycle (h : file.Describes graph) (distinct : file.names.Nodup) :
    (∃ order, graph.order = .ok order) ∨ ∃ count, graph.order = .error (.cycle count) := by
  have inputs : ∀ id ∈ graph.inputs, ∃ name dtype dims,
      graph.value id = .ok ⟨name, .input dtype dims⟩ := by
    intro id member
    obtain ⟨entry, -, place⟩ := forall₂_mem_right h.inputs member
    obtain ⟨value, known, gives⟩ := h.values id _ place
    obtain rfl : value = _ := gives
    exact ⟨_, _, _, known⟩
  have checked : graph.Checked := Graph.checked_iff.mpr ⟨h.consistent distinct, inputs⟩
  rcases Graph.order_cases graph with ⟨-, -, ordered⟩ | ⟨-, -, cycle⟩ | ⟨unchecked, -⟩
  · exact .inl ordered
  · exact .inr ⟨_, cycle⟩
  · exact absurd checked unchecked

end Describes

/-! ### Accepted files -/

/-- All definitions are added before nodes and outputs are resolved. -/
theorem toGraph_eq (file : GraphFile) : file.toGraph =
    file.definitions.foldlM addDefinition (.empty, []) >>= fun built =>
      addNodes built.2 built.1 file.nodes >>= fun graph => markOutputs built.2 graph file.outputs := by
  simp only [toGraph, definitions, List.foldlM_append, addInputs_eq, addConstants_eq, declareAll_eq,
    bind_assoc]

theorem toGraph_eq_ok_iff : file.toGraph = .ok graph ↔
    ∃ built, file.definitions.foldlM addDefinition (.empty, []) = .ok built ∧ ∃ nodes ids,
      List.Forall₂ (IsNode file.Refers) file.nodes nodes ∧ List.Forall₂ file.Refers file.outputs ids ∧
        graph = { built.1 with nodes := nodes, outputs := ids } := by
  rw [toGraph_eq, bind_eq_ok_iff]
  apply exists_congr
  intro built
  apply and_congr_right
  intro added
  have adds : Adds file.definitions built := Adds.empty.run added
  have same : Resolves built.2 = file.Refers := by
    funext name id
    exact propext adds.scope.resolve_eq_ok_iff
  simp only [bind_eq_ok_iff, addNodes_eq_ok_iff, markOutputs_eq_ok_iff, same]
  constructor
  · rintro ⟨_, ⟨nodes, listed, rfl⟩, ids, exported, rfl⟩
    exact ⟨nodes, ids, listed, exported, by simp [adds.nodes, adds.outputs]⟩
  · rintro ⟨nodes, ids, listed, exported, rfl⟩
    exact ⟨_, ⟨nodes, listed, rfl⟩, ids, exported, by simp [adds.nodes, adds.outputs]⟩

theorem describes_of_toGraph (resolved : file.toGraph = .ok graph) :
    file.names.Nodup ∧ file.Describes graph := by
  obtain ⟨built, added, nodes, ids, listed, exported, rfl⟩ := toGraph_eq_ok_iff.mp resolved
  have adds : Adds file.definitions built := Adds.empty.run added
  have inputs : file.definitions.filterMap Definition.input? = file.inputs := by
    simp [definitions, List.filterMap_append, Definition.input?, Function.comp_def]
  exact ⟨adds.scope.distinct, adds.count, adds.values, inputs ▸ adds.inputs, listed, exported⟩

theorem forall_fits_iff :
    (∀ d ∈ file.definitions, d.Fits) ↔ ∀ entry ∈ file.constants, ConstantFits entry := by
  constructor
  · intro all entry member
    exact all (.constant entry) (by simp [definitions, member])
  · intro constants d member
    cases d with
    | constant entry =>
      have listed : entry ∈ file.constants := by simpa [definitions] using member
      exact constants entry listed
    | input | output => exact trivial

/-- A file is accepted exactly if it is sound. -/
theorem exists_toGraph_iff : (∃ graph, file.toGraph = .ok graph) ↔ file.IsSound := by
  constructor
  · intro ⟨graph, resolved⟩
    obtain ⟨distinct, described⟩ := describes_of_toGraph resolved
    obtain ⟨built, added, -⟩ := toGraph_eq_ok_iff.mp resolved
    obtain ⟨-, fits⟩ := (Adds.empty.exists_run_iff file.definitions).mp ⟨built, added⟩
    exact ⟨distinct, fun name => described.mem_names, forall_fits_iff.mp fits⟩
  · intro sound
    have distinct : (([] ++ file.definitions).map Definition.name).Nodup := sound.distinct
    obtain ⟨built, added⟩ :=
      (Adds.empty.exists_run_iff file.definitions).mpr ⟨distinct, forall_fits_iff.mpr sound.fits⟩
    -- What nodes and outputs become depends on the names of the file only.
    have nodes : ∃ nodes, List.Forall₂ (IsNode file.Refers) file.nodes nodes := by
      apply exists_forall₂_iff.mpr
      intro entry member
      apply exists_isNode_iff.mpr
      intro name used
      apply exists_refers_iff.mpr
      rcases List.mem_append.mp used with input | output
      · exact sound.known name (.inl ⟨entry, member, input⟩)
      · exact mem_names_of_output member output
    have outputs : ∃ ids, List.Forall₂ file.Refers file.outputs ids := by
      apply exists_forall₂_iff.mpr
      intro name output
      exact exists_refers_iff.mpr (sound.known name (.inr output))
    obtain ⟨nodes, listed⟩ := nodes
    obtain ⟨ids, exported⟩ := outputs
    exact ⟨_, toGraph_eq_ok_iff.mpr ⟨built, added, nodes, ids, listed, exported, rfl⟩⟩

/-- Whatever a graph file says: it is accepted exactly if the names of its inputs, its constants and the
outputs of its nodes are distinct, every name that a node uses or that is listed as an output is one of
them, and the values of every tensor fit its shape as `TensorRecord.Fits` says. The graph then has the
inputs, the nodes and the outputs of the file, in their order, and every name refers to the value of its
definition, wherever in the file that is. It has an order of execution unless it has a cycle, and no other
error is reported. -/
theorem names_are_resolved (file : GraphFile) :
    ((∃ graph, file.toGraph = .ok graph) ↔ file.IsSound) ∧
      ∀ graph, file.toGraph = .ok graph → file.Describes graph ∧
        ((∃ order, graph.order = .ok order) ∨ ∃ count, graph.order = .error (.cycle count)) := by
  refine ⟨exists_toGraph_iff, ?_⟩
  intro graph resolved
  obtain ⟨distinct, described⟩ := describes_of_toGraph resolved
  exact ⟨described, described.ordered_or_cycle distinct⟩

/-- The first node uses what the second one computes. -/
example : (toGraph ⟨[⟨"x", .f32, [2, 3]⟩], [⟨"k", .int 1⟩],
    [⟨"t", ["y"], ["z"]⟩, ⟨"add", ["x", "x", "k"], ["y"]⟩], ["z"]⟩).toOption.map Graph.order =
      some (.ok [1, 0]) := by
  decide

end TensorEngine.GraphFile
