import TensorEngine.Proofs.Execution.Extents
import TensorEngine.Proofs.Lowering.Joining
import TensorEngine.Proofs.Lowering.Nodes
import TensorEngine.Proofs.Lowering.Sizes

/-!
# Lowering with and without dynamic shapes

Whether dynamic shapes are asked for matters to two rules only. One reshapes to a requested shape, and
is refused if they are. The other joins axes, and lists known extents or leaves one to be inferred.
A graph that asks for no shapes is therefore lowered in both modes or in none, to networks that are the
same but for the targets of joined axes.

## Main definitions

* `Network.Twins`: networks that are the same but for the targets of joined axes
* `Lowering.twins`: the simulation between lowerings in any two modes

## Main results

* `Lowering.lower_twins`: a graph that asks for no shapes is lowered in every mode or in none
-/

namespace TensorEngine

/-- Kinds of layers that read the same tensors are the same, or reshape to targets that join the same
axes. -/
inductive LayerKind.Twins (types : List TensorType) (inputs : List TensorId) :
    LayerKind → LayerKind → Prop
  | same (kind : LayerKind) : Twins types inputs kind kind
  | joined {x : TensorId} {dtype : DType} {dims target target' : Dims} {first last : Nat}
      {mode mode' : Bool} (input : inputs = [x]) (recorded : types[x.index]? = some ⟨dtype, dims⟩)
      (order : first ≤ last) (asked : Lowering.flattenTarget mode dims first last = .ok target)
      (asked' : Lowering.flattenTarget mode' dims first last = .ok target') :
      Twins types inputs (.shuffle (.reshaping target)) (.shuffle (.reshaping target'))

/-- Layers that are the same but for the target of joined axes. -/
structure Layer.Twins (types : List TensorType) (layer layer' : Layer) : Prop where
  name : layer'.name = layer.name
  inputs : layer'.inputs = layer.inputs
  output : layer'.output = layer.output
  kind : LayerKind.Twins types layer.inputs layer.kind layer'.kind

theorem LayerKind.Twins.name_eq {types : List TensorType} {inputs : List TensorId}
    {kind kind' : LayerKind} (h : LayerKind.Twins types inputs kind kind') :
    kind'.name = kind.name := by
  cases h <;> rfl

theorem Layer.Twins.mono {types later : List TensorType} (grows : types <+: later)
    {layer layer' : Layer} (h : Layer.Twins types layer layer') : Layer.Twins later layer layer' := by
  refine ⟨h.name, h.inputs, h.output, ?_⟩
  have kind := h.kind
  generalize layer.kind = source, layer'.kind = target at kind ⊢
  cases kind with
  | same => exact .same _
  | joined input recorded order asked asked' =>
    exact .joined input (getElem?_of_isPrefix grows recorded) order asked asked'

namespace Network

/-- Networks that are the same but for the targets of joined axes. No extent is recorded as zero, and
constants have elements. -/
structure Twins (network network' : Network) : Prop where
  tensors : network'.tensors = network.tensors
  inputs : network'.inputs = network.inputs
  outputs : network'.outputs = network.outputs
  layers : List.Forall₂ (Layer.Twins network.types) network.layers network'.layers
  extents : ∀ type ∈ network.types, 0 ∉ type.dims
  constants : ∀ layer ∈ network.layers, ∀ weights, layer.kind = .constant weights → weights.Compact

namespace Twins

variable {network network' next : Network} {e e' : Edit} {id : TensorId} {kind kind' : LayerKind}

theorem empty : Twins .empty .empty :=
  ⟨rfl, rfl, rfl, .nil, nofun, nofun⟩

theorem types (h : network.Twins network') : network'.types = network.types := by
  rw [Network.types, Network.types, h.tensors]

theorem tensor (h : network.Twins network') (id : TensorId) :
    network'.tensor id = network.tensor id := by
  rw [Network.tensor, Network.tensor, h.tensors]

theorem isMarked (h : network.Twins network') (id : TensorId) :
    network'.isMarked id = network.isMarked id := by
  rw [Network.isMarked, Network.isMarked, h.inputs, h.outputs]

theorem find? (h : network.Twins network') (name : String) :
    network'.find? name = network.find? name := by
  rw [Network.find?, Network.find?, h.tensors]

/-- Layers of kinds that are twins are added on both sides. -/
theorem pushLayer (h : network.Twins network') (name : String) {inputs : List TensorId}
    (type : TensorType) (twins : LayerKind.Twins network.types inputs kind kind')
    (extents : 0 ∉ type.dims) (constant : ∀ weights, kind = .constant weights → weights.Compact) :
    (network.pushLayer name kind inputs type.dtype type.dims).2.Twins
      (network'.pushLayer name kind' inputs type.dtype type.dims).2 := by
  have nextId : network'.nextId = network.nextId := by rw [Network.nextId, Network.nextId, h.tensors]
  have types : (network.pushLayer name kind inputs type.dtype type.dims).2.types =
      network.types ++ [type] := types_push _
  constructor
  · simp [Network.pushLayer, push, h.tensors]
  · exact h.inputs
  · exact h.outputs
  · have grows : network.types <+: network.types ++ [type] := List.prefix_append _ _
    rw [types]
    refine List.rel_append (h.layers.imp fun _ _ => Layer.Twins.mono grows) (.cons ?_ .nil)
    exact Layer.Twins.mono grows ⟨rfl, rfl, nextId, twins⟩
  · rw [types]
    exact List.forall_mem_append.mpr ⟨h.extents, List.forall_mem_singleton.mpr extents⟩
  · exact List.forall_mem_append.mpr ⟨h.constants, List.forall_mem_singleton.mpr constant⟩

theorem addConstant (h : network.Twins network') (name : String) {weights : Tensor}
    (compact : weights.Compact) :
    (network.addConstant name weights).2.Twins (network'.addConstant name weights).2 :=
  h.pushLayer name ⟨weights.dtype, .ofShape weights.shape⟩ (.same (.constant weights))
    compact.zero_notMem_dims fun _ same => LayerKind.constant.inj same ▸ compact

/-- A call that adds a layer is followed by a call that adds a twin of it, if this one infers the same
types. -/
theorem call_layer (h : network.Twins network') (adds : e.kind? = some kind)
    (adds' : e'.kind? = some kind') (name : e'.name = e.name) (inputs : e'.inputs = e.inputs)
    (twins : ∀ operands type, network.OperandTypes e.inputs operands → kind.Infers operands type →
      kind'.Infers operands type ∧ LayerKind.Twins network.types e.inputs kind kind')
    (constant : ∀ weights, kind = .constant weights → weights.Compact)
    (accepted : network.call e = (.ok id, next)) :
    ∃ next', network'.call e' = (.ok id, next') ∧ next.Twins next' := by
  obtain ⟨operands, type, known, infers, rfl, rfl⟩ := (call_eq_ok_iff adds).mp accepted
  obtain ⟨infers', kinds⟩ := twins operands type known infers
  have extents : 0 ∉ type.dims := by
    refine infers.zero_notMem (fun weights same => (constant weights same).zero_notMem_dims) ?_
    intro operand member
    obtain ⟨_, -, recorded⟩ := forall₂_mem_right known member
    exact h.extents operand (List.mem_of_getElem? recorded)
  refine ⟨_, (call_eq_ok_iff adds').mpr ⟨operands, type, ?_, infers', ?_, rfl⟩, ?_⟩
  · rwa [OperandTypes, inputs, h.types]
  · rw [nextId, nextId, h.tensors]
  · rw [name, inputs]
    exact h.pushLayer e.name type kinds extents constant

/-- An input without extents of zero is added on both sides, or on none. -/
theorem call_addInput (h : network.Twins network') {name : String} {dtype : DType} {dims : Dims}
    (extents : 0 ∉ dims) (accepted : network.call (.addInput name dtype dims) = (.ok id, next)) :
    ∃ next', network'.call (.addInput name dtype dims) = (.ok id, next') ∧ next.Twins next' := by
  obtain ⟨fresh, rfl, rfl⟩ := call_addInput_eq_ok_iff.mp accepted
  have nextId : network'.nextId = network.nextId := by rw [Network.nextId, Network.nextId, h.tensors]
  refine ⟨_, call_addInput_eq_ok_iff.mpr ⟨(h.find? name).trans fresh, nextId.symm, rfl⟩, ?_⟩
  have types : (network.push ⟨name, dtype, dims⟩).types = network.types ++ [⟨dtype, dims⟩] :=
    types_push _
  constructor
  · simp [push, h.tensors]
  · simp [h.inputs, nextId]
  · exact h.outputs
  · exact h.layers.imp fun _ _ => Layer.Twins.mono (types ▸ List.prefix_append _ _)
  · exact types ▸ List.forall_mem_append.mpr ⟨h.extents, List.forall_mem_singleton.mpr extents⟩
  · exact h.constants

theorem call_markOutput (h : network.Twins network') {output : TensorId} {name : String}
    (accepted : network.call (.markOutput output name) = (.ok id, next)) :
    ∃ next', network'.call (.markOutput output name) = (.ok id, next') ∧ next.Twins next' := by
  obtain ⟨known, unmarked, fresh, rfl, rfl⟩ := call_markOutput_eq_ok_iff.mp accepted
  refine ⟨_, call_markOutput_eq_ok_iff.mpr ⟨h.tensors ▸ known, (h.isMarked _).trans unmarked,
    (h.find? name).trans fresh, rfl, rfl⟩, ?_⟩
  have types : (network.rename id name).types = network.types := types_rename id name
  constructor
  · simp [rename, h.tensors]
  · exact h.inputs
  · simp [h.outputs]
  · exact h.layers.imp fun _ _ => Layer.Twins.mono (types ▸ List.prefix_rfl)
  · exact types ▸ h.extents
  · exact h.constants

end Twins

end Network

namespace Lowering

/-- States whose networks are twins and that bind values to the same tensors. -/
structure State.Twins (state state' : State) : Prop where
  network : state.network.Twins state'.network
  bindings : state'.bindings = state.bindings
  frozen : state'.frozen = state.frozen

variable {state state' next : State} {x : TensorId}

theorem State.Twins.edit_layer (h : state.Twins state') {e e' : Network.Edit} {kind kind' : LayerKind}
    (adds : e.kind? = some kind) (adds' : e'.kind? = some kind') (name : e'.name = e.name)
    (inputs : e'.inputs = e.inputs)
    (twins : ∀ operands type, state.network.OperandTypes e.inputs operands →
      kind.Infers operands type →
      kind'.Infers operands type ∧ LayerKind.Twins state.network.types e.inputs kind kind')
    (constant : ∀ weights, kind = .constant weights → weights.Compact)
    (accepted : state.edit e = (.ok x, next)) :
    ∃ next', state'.edit e' = (.ok x, next') ∧ next.Twins next' := by
  obtain ⟨network, applied, rfl⟩ := edit_eq_ok_iff.mp accepted
  obtain ⟨network', applied', both⟩ :=
    h.network.call_layer adds adds' name inputs twins constant applied
  exact ⟨{ state' with network := network' }, edit_eq_ok_iff.mpr ⟨_, applied', rfl⟩,
    both, h.bindings, h.frozen⟩

theorem State.Twins.edit_unlayered (h : state.Twins state') {e : Network.Edit}
    (applies : ∀ id network, state.network.call e = (.ok id, network) →
      ∃ network', state'.network.call e = (.ok id, network') ∧ network.Twins network')
    (accepted : state.edit e = (.ok x, next)) :
    ∃ next', state'.edit e = (.ok x, next') ∧ next.Twins next' := by
  obtain ⟨network, applied, rfl⟩ := edit_eq_ok_iff.mp accepted
  obtain ⟨network', applied', both⟩ := applies _ _ applied
  exact ⟨{ state' with network := network' }, edit_eq_ok_iff.mpr ⟨_, applied', rfl⟩,
    both, h.bindings, h.frozen⟩

/-- The simulation between lowerings in any two modes: tensors that are alike have the same id. -/
def twins : Simulation where
  Alike := State.Twins
  Same _ := Eq
  Made _ := Eq
  Allowed := Tensor.Compact
  Binds _ := True
  same_of_grow _ := id
  made_of_grow _ := id
  same_of_made := id
  allowed_permute compact moved := compact.permute moved
  allowed_scalar := compact_of_scalarTensor
  types := by
    rintro state state' x _ type states rfl recorded
    rwa [states.network.types]
  edit := by
    intro state state' next e e' x states alike accepted
    obtain ⟨kind, adds, adds', constant⟩ := alike.kind
    have inputs : e'.inputs = e.inputs :=
      (List.forall₂_eq_eq_eq ▸ alike.inputs : e.inputs = e'.inputs).symm
    obtain ⟨next', accepted', both⟩ := states.edit_layer adds adds' alike.name inputs
      (fun _ _ _ infers => ⟨infers, .same kind⟩) constant accepted
    exact ⟨x, next', accepted', both, rfl⟩
  freeze := by
    intro state state' weights states compact
    have nextId : state'.network.nextId = state.network.nextId := by
      rw [Network.nextId, Network.nextId, states.network.tensors]
    refine ⟨⟨?_, states.bindings, congrArg (· + 1) states.frozen⟩, nextId.symm⟩
    simp only [State.freeze, states.frozen]
    exact states.network.addConstant _ compact
  bind := by
    rintro state state' next value x _ z states - rfl bound
    obtain ⟨⟨t, known⟩, fresh, rfl, rfl⟩ := State.binds_iff.mp bound
    refine ⟨z, _, State.binds_iff.mpr ⟨⟨t, (states.network.tensor z).trans known⟩, ?_, rfl, rfl⟩,
      states.network, ?_, states.frozen⟩
    · rwa [State.binding?, states.bindings]
    · rw [states.bindings]

/-- A layer that reshapes infers what the reshape makes of the recorded dimensions. -/
theorem infers_reshaping_iff {types : List TensorType} {dtype : DType} {dims target : Dims}
    {operands : List TensorType} {type : TensorType}
    (recorded : types[x.index]? = some ⟨dtype, dims⟩)
    (known : List.Forall₂ (fun id type => types[id.index]? = some type) [x] operands) :
    (LayerKind.shuffle (.reshaping target)).Infers operands type ↔
      ∃ out, type = ⟨dtype, out⟩ ∧ Reshapes (some target) dims out := by
  obtain ⟨source, _, first, none, rfl⟩ := List.forall₂_cons_left_iff.mp known
  cases List.forall₂_nil_left_iff.mp none
  cases recorded.symm.trans first
  constructor
  · rintro (_ | inferred)
    exact ⟨_, rfl, Tensor.inferShuffle_reshaping.mp inferred⟩
  · rintro ⟨out, rfl, reshapes⟩
    exact .shuffle (Tensor.inferShuffle_reshaping.mpr reshapes)

/-- Axes are joined on both sides, or on none. -/
theorem twins_joins : twins.Joins := by
  rintro state state' next name x _ z dims target first last states rfl ⟨dtype, recorded⟩ order asked
    accepted
  obtain ⟨network, applied, -⟩ := State.edit_eq_ok_iff.mp accepted
  obtain ⟨operands, type, known, infers, -⟩ := (Network.call_eq_ok_iff rfl).mp applied
  obtain ⟨out, -, reshapes⟩ := (infers_reshaping_iff recorded known).mp infers
  have extents : 0 ∉ dims := states.network.extents _ (List.mem_of_getElem? recorded)
  obtain ⟨target', asked', reshapes'⟩ :=
    exists_flattenTarget state'.settings.dynamicShape order extents asked reshapes
  -- The other target makes the same of the dimensions.
  have again : ∀ operands type, state.network.OperandTypes [x] operands →
      (LayerKind.shuffle (.reshaping target)).Infers operands type →
      (LayerKind.shuffle (.reshaping target')).Infers operands type ∧
        LayerKind.Twins state.network.types [x] (.shuffle (.reshaping target))
          (.shuffle (.reshaping target')) := by
    intro operands type known infers
    obtain ⟨out', rfl, other⟩ := (infers_reshaping_iff recorded known).mp infers
    cases other.unique reshapes
    exact ⟨(infers_reshaping_iff recorded known).mpr ⟨_, rfl, reshapes'⟩,
      .joined rfl recorded order asked asked'⟩
  have added : ∃ next', state'.edit (.addShuffle name x (.reshaping target')) = (.ok z, next') ∧
      next.Twins next' :=
    states.edit_layer (e := .addShuffle name x (.reshaping target)) rfl rfl rfl rfl again nofun accepted
  obtain ⟨next', accepted', both⟩ := added
  exact ⟨target', z, next', asked', accepted', both, rfl⟩

theorem twins_watches (ids : List ValueId) : twins.Watches ids := by
  intro state state' states id _
  rw [State.binding?, State.binding?, states.bindings]
  cases state.bindings.lookup id with
  | none => exact .none
  | some x => exact .some rfl

theorem twins_marks : twins.Marks where
  isMarked := by
    rintro state state' x _ states rfl
    exact states.network.isMarked x
  markOutput := by
    rintro state state' next x _ z position states rfl marked
    obtain ⟨next', marked', both⟩ :=
      states.edit_unlayered (fun _ _ => states.network.call_markOutput) marked
    exact ⟨z, next', marked', both⟩

/-! ### Graphs -/

/-- A graph that asks for no shapes, declares no extents of zero, and has constants with elements. -/
structure Unshaped (graph : Graph) : Prop where
  nodes : ∀ node ∈ graph.nodes, node.signature ∉ reshapingSignatures
  inputs : ∀ id ∈ graph.inputs, ∀ name dtype dims,
    graph.value id = .ok ⟨name, .input dtype dims⟩ → 0 ∉ dims
  constants : ∀ id name t, graph.value id = .ok ⟨name, .constant (.tensor t)⟩ → t.Compact

variable {graph : Graph} {w : Networks} (unshaped : Unshaped graph)
include unshaped

theorem twins_admits : twins.Admits graph :=
  unshaped.constants

theorem twins_lowerInputs {position : Nat} {ids : List ValueId} (given : ids ⊆ graph.inputs) :
    twins.Follows w (lowerInputs graph position ids) (lowerInputs graph position ids)
      fun _ _ _ => True := by
  induction ids generalizing w position with
  | nil => exact .done fun _ _ => trivial
  | cons id ids ih =>
    rw [List.cons_subset] at given
    refine (Simulation.follows_ofGraph _).bind fun v _ value _ h => ?_
    obtain ⟨rfl, known⟩ := h
    obtain ⟨name, kind⟩ := value
    cases kind with
    | input dtype dims =>
      have extents := unshaped.inputs id given.1 name dtype dims known
      have added : twins.Follows v
          (editNetwork (.addInput (BindingName.input position).text dtype dims))
          (editNetwork (.addInput (BindingName.input position).text dtype dims))
          fun _ => Eq := by
        refine Program.Follows.mapError fun state state' _ states x next ran => ?_
        obtain ⟨next', edited, both⟩ := states.edit_unlayered
          (fun _ _ => states.network.call_addInput extents) (Program.run_perform_eq_ok_iff.mp ran)
        exact ⟨x, next', Program.run_perform_eq_ok_iff.mpr edited, both, rfl⟩
      refine added.bind fun v x y _ same => ?_
      have bound : twins.Follows v (Program.associate id x) (Program.associate id y)
          fun _ _ _ => True := by
        intro state state' _ states z next ran
        obtain ⟨z', next', bound, both⟩ :=
          twins.bind states trivial same (Program.run_associate_eq_ok_iff.mp ran)
        exact ⟨z', next', Program.run_associate_eq_ok_iff.mpr bound, both, trivial⟩
      exact (Program.Follows.mapError bound).bind fun _ _ _ _ _ => ih given.2
    | tensor | constant => exact ih given.2

theorem twins_lowerNodes {order : List Nat} :
    twins.Follows w (lowerNodes .builtin graph order) (lowerNodes .builtin graph order)
      fun _ _ _ => True := by
  induction order generalizing w with
  | nil => exact .done fun _ _ => trivial
  | cons position order ih =>
    refine (Simulation.follows_ofGraph _).bind fun v _ node _ h => ?_
    obtain ⟨rfl, found⟩ := h
    have member := List.mem_of_getElem? (entry_eq_ok_iff.mp found)
    refine (Simulation.follows_lowerNode (twins_admits unshaped) (twins_watches _) twins_joins
      (fun _ _ => trivial) (.inr (unshaped.nodes node member))).bind fun _ _ _ _ _ => ih

theorem twins_lowering : twins.Follows w (lowering .builtin graph) (lowering .builtin graph)
    fun _ _ _ => True := by
  refine (Simulation.follows_ofGraph _).bind fun v _ order _ h => ?_
  obtain ⟨rfl, -⟩ := h
  refine (twins_lowerInputs unshaped (List.Subset.refl _)).bind fun _ _ _ _ _ => ?_
  refine (twins_lowerNodes unshaped).bind fun _ _ _ _ _ => ?_
  exact Simulation.follows_lowerOutputs (twins_admits unshaped) (twins_watches _) (fun _ _ => trivial)
    twins_marks (List.Subset.refl _)

/-- A graph that asks for no shapes and is lowered in one mode is lowered in every other mode, to a
network that is a twin, and binds the same values to the same tensors. -/
theorem lower_twins {settings : Settings} {lowered : Lowered} (settings' : Settings)
    (h : lower .builtin settings graph = .ok lowered) :
    ∃ lowered', lower .builtin settings' graph = .ok lowered' ∧
      lowered.network.Twins lowered'.network ∧ lowered'.bindings = lowered.bindings := by
  have start : (State.start settings).Twins (.start settings') := ⟨.empty, rfl, rfl⟩
  obtain ⟨state, ran, rfl⟩ := lower_eq_ok_iff.mp h
  obtain ⟨_, state', ran', both, -⟩ :=
    twins_lowering unshaped _ _ (.refl _) start () state ran
  exact ⟨_, lower_eq_ok_iff.mpr ⟨state', ran', rfl⟩, both.network, both.bindings⟩

end Lowering

end TensorEngine
