import TensorEngine.Proofs.Network.Coherent

/-!
# Numbers in networks

Calls whose numbers are machine words build networks whose numbers are: the rules of inference
never leave the range of a signed word. The axes of a transposition need not be looked at for that:
there are as many as the rank of its result.

## Main definitions

* `Network.Edit.InWords`, `Network.Edit.Stored`: calls whose numbers are words, and whose constants
  are stored
* `Network.Edit.Sized`: calls whose dimensions are words and whose constants are stored

## Main results

* `Network.Reached.dims_inWords`: the recorded dimensions are words
* `Network.Reached.inWords`: with stored constants, all numbers of the network are
* `Network.Reached.inWords_of_rank`: so they are after sized calls, when ranks are words
-/

namespace TensorEngine

namespace Network

/-- The numbers of a call are words. -/
def Edit.InWords : Edit → Prop
  | .addInput _ _ dims => dims.InWords
  | .addConstant _ weights => Shape.InWords weights.shape
  | .addShuffle _ _ spec => spec.InWords
  | .addMatrixMultiply _ _ _ _ _ | .addElementWise _ _ _ _ | .markOutput _ _ => True

instance : (e : Edit) → Decidable e.InWords
  | .addInput _ _ dims => inferInstanceAs (Decidable dims.InWords)
  | .addConstant _ weights => inferInstanceAs (Decidable (Shape.InWords weights.shape))
  | .addShuffle _ _ spec => inferInstanceAs (Decidable spec.InWords)
  | .addMatrixMultiply _ _ _ _ _ | .addElementWise _ _ _ _ | .markOutput _ _ =>
    inferInstanceAs (Decidable True)

/-- The numbers of a call are words, and a constant that it adds is stored. -/
structure Edit.Stored (e : Edit) : Prop where
  inWords : e.InWords
  stored : ∀ name weights, e = .addConstant name weights → weights.Stored

/-- A call is stored if its numbers are words and so are those of the kind of layer that it adds. -/
theorem Edit.stored_iff {e : Edit} : e.Stored ↔ e.InWords ∧ ∀ kind ∈ e.kind?, kind.InWords := by
  constructor
  · refine fun ⟨words, stored⟩ => ⟨words, fun kind adds => ?_⟩
    cases e with
    | addConstant name weights =>
      cases adds
      exact stored name weights rfl
    | addShuffle | addMatrixMultiply | addElementWise =>
      cases adds
      exact words
    | addInput | markOutput => cases adds
  · rintro ⟨words, kinds⟩
    refine ⟨words, ?_⟩
    rintro name weights rfl
    exact kinds _ rfl

instance (e : Edit) : Decidable e.Stored :=
  decidable_of_iff _ Edit.stored_iff.symm

/-- The dimensions that a call declares, and those that it asks a reshape for, are words. -/
def Edit.DimsInWords : Edit → Prop
  | .addInput _ _ dims => dims.InWords
  | .addShuffle _ _ spec => ∀ target ∈ spec.reshape, Dims.InWords target
  | .addConstant _ _ | .addMatrixMultiply _ _ _ _ _ | .addElementWise _ _ _ _ | .markOutput _ _ =>
    True

theorem Edit.InWords.dims {e : Edit} (h : e.InWords) : e.DimsInWords := by
  cases e with
  | addInput => exact h
  | addShuffle => exact h.reshape
  | addConstant | addMatrixMultiply | addElementWise | markOutput => trivial

end Network

/-- The extents of a constant and the numbers of a shuffle are words. -/
def LayerKind.HasWords : LayerKind → Prop
  | .constant weights => Shape.InWords weights.shape
  | .shuffle spec => spec.InWords
  | .matrixMultiply _ _ | .elementWise _ => True

/-- A constant is stored, and a shuffle transposes only what it has reshaped, to dimensions that are
words. -/
def LayerKind.Sized : LayerKind → Prop
  | .constant weights => weights.Stored
  | .shuffle spec => spec.firstTranspose = none ∧ ∀ target ∈ spec.reshape, Dims.InWords target
  | .matrixMultiply _ _ | .elementWise _ => True

/-- The dimensions of an input are words, and the kind of a layer that a call adds is sized. -/
structure Network.Edit.Sized (e : Network.Edit) : Prop where
  input : ∀ name dtype dims, e = .addInput name dtype dims → dims.InWords
  kind : ∀ kind, e.kind? = some kind → kind.Sized

/-- Inference does not leave the range of a signed word. -/
theorem LayerKind.Infers.inWords {kind : LayerKind} {operands : List TensorType}
    {type : TensorType} (h : kind.Infers operands type)
    (targets : ∀ spec, kind = .shuffle spec → ∀ target ∈ spec.reshape, Dims.InWords target)
    (words : ∀ operand ∈ operands, operand.dims.InWords) : type.dims.InWords := by
  cases h with
  | constant weights => exact Dims.inWords_ofShape weights.shape
  | shuffle inferred =>
    obtain ⟨first, second, moved, reshapes, moved'⟩ := inferShuffle_eq_ok_iff.mp inferred
    -- Transpositions only move extents. A reshape may make a new one, which stays in range.
    have firstWords := moved.inWords (words _ List.mem_cons_self)
    exact moved'.inWords (reshapes.inWords firstWords (targets _ rfl))
  | matrixMultiply inferred =>
    intro d member
    rcases mem_or_mem_of_inferMatrixMultiply inferred member with left | right
    · exact words _ List.mem_cons_self d left
    · exact words _ (List.mem_cons_of_mem _ List.mem_cons_self) d right
  | elementWise inferred =>
    intro d member
    rcases mem_or_mem_of_broadcastExtents? (inferBroadcast_eq_ok_iff.mp inferred) member with
      left | right
    · exact words _ List.mem_cons_self d left
    · exact words _ (List.mem_cons_of_mem _ List.mem_cons_self) d right

/-- The axes of a transposition that comes last are below the rank of the result. -/
theorem LayerKind.Infers.axis_lt {spec : ShuffleSpec} {operands : List TensorType}
    {type : TensorType} (h : (LayerKind.shuffle spec).Infers operands type) {order : List Nat}
    (last : spec.secondTranspose = some order) {axis : Nat} (member : axis ∈ order) :
    axis < type.dims.rank := by
  cases h with
  | shuffle inferred =>
    obtain ⟨first, second, -, -, moved⟩ := inferShuffle_eq_ok_iff.mp inferred
    rw [last] at moved
    obtain ⟨⟨length, below, -⟩, arranged⟩ := moved
    exact Nat.lt_of_lt_of_eq (below axis member) (length.symm.trans arranged.length_eq.symm)

namespace Network

variable {allowed : Edit → Prop} {network next : Network} {e : Edit} {id : TensorId}

theorem types_push (t : NetworkTensor) : (network.push t).types = network.types ++ [t.type] :=
  List.map_append ..

theorem hasWords_of_kind? {kind : LayerKind} (adds : e.kind? = some kind) (words : e.InWords) :
    kind.HasWords := by
  cases e <;> cases adds <;> exact words

theorem Edit.sized_of_kind? {kind : LayerKind} (adds : e.kind? = some kind) (sized : kind.Sized) :
    e.Sized where
  input := by
    rintro name dtype dims rfl
    cases adds
  kind := fun kind' adds' => by
    cases adds.symm.trans adds'
    exact sized

theorem Edit.Sized.dims (h : e.Sized) : e.DimsInWords := by
  cases e with
  | addInput name dtype dims => exact h.input name dtype dims rfl
  | addShuffle name input spec => exact (h.kind _ rfl).2
  | addConstant | addMatrixMultiply | addElementWise | markOutput => trivial

theorem targets_of_kind? {kind : LayerKind} (adds : e.kind? = some kind) (words : e.DimsInWords) :
    ∀ spec, kind = .shuffle spec → ∀ target ∈ spec.reshape, Dims.InWords target := by
  rintro spec rfl
  cases e <;> cases adds
  exact words

/-- A step by a call whose dimensions are words records dimensions that are. -/
theorem Step.dims_inWords (h : network.Step e id next) (call : e.DimsInWords)
    (words : ∀ type ∈ network.types, type.dims.InWords) :
    ∀ type ∈ next.types, type.dims.InWords := by
  cases h with
  | input fresh =>
    intro type member
    rcases List.mem_append.mp (types_push _ ▸ member) with old | new
    · exact words type old
    · exact List.mem_singleton.mp new ▸ call
  | layer adds known infers =>
    intro type member
    rcases List.mem_append.mp (types_push _ ▸ member) with old | new
    · exact words type old
    · refine List.mem_singleton.mp new ▸
        infers.inWords (targets_of_kind? adds call) fun operand member => ?_
      obtain ⟨_, -, entry⟩ := forall₂_mem_right known member
      exact words operand (List.mem_of_getElem? entry)
  | output known unmarked fresh =>
    exact fun type member => words type (types_rename _ _ ▸ member)

theorem Step.layers_subset_or (h : network.Step e id next) {layer : Layer}
    (member : layer ∈ next.layers) : layer ∈ network.layers ∨ e.kind? = some layer.kind := by
  cases h with
  | input | output => exact .inl member
  | layer adds known infers =>
    rcases List.mem_append.mp member with old | new
    · exact .inl old
    · exact .inr (List.mem_singleton.mp new ▸ adds)

/-- All numbers of a coherent network with fewer tensors than words are words, when its dimensions
and those of its kinds of layers are. -/
theorem Coherent.inWords (h : network.Coherent)
    (types : ∀ type ∈ network.types, type.dims.InWords)
    (kinds : ∀ layer ∈ network.layers, layer.kind.InWords)
    (count : network.tensors.length ≤ Unsigned.bound) : network.InWords := by
  -- Every id that the network mentions is that of one of its tensors.
  have below : ∀ {id : TensorId}, id.index < network.tensors.length → id.InWords :=
    fun within => Nat.lt_of_lt_of_le within count
  constructor
  · exact fun t member => types t.type (List.mem_map_of_mem member)
  · refine fun layer member => ⟨kinds layer member, fun id read => below ?_,
      below (h.output_lt member)⟩
    exact Nat.lt_trans ((h.layers layer member).older id read) (h.output_lt member)
  · exact fun id member => below (h.marked id (List.mem_append_left _ member))
  · exact fun id member => below (h.marked id (List.mem_append_right _ member))

/-- A coherent network whose numbers are words has no more tensors than there are words. -/
theorem Coherent.length_le (h : network.Coherent) (words : network.InWords) :
    network.tensors.length ≤ Unsigned.bound := by
  cases count : network.tensors.length with
  | zero => exact Nat.zero_le _
  | succ last =>
    -- The last tensor is an input or computed by a layer, and so its id is a word.
    have within : (⟨last⟩ : TensorId).index < network.tensors.length := count ▸ Nat.lt_succ_self last
    rcases h.source ⟨last⟩ within with input | ⟨layer, member, output⟩
    · exact words.inputs _ input
    · have word := (words.layers layer member).output
      rwa [output] at word

namespace Reached

theorem dims_inWords_of_dims (words : ∀ e, allowed e → e.DimsInWords) (h : Reached allowed network) :
    ∀ type ∈ network.types, type.dims.InWords := by
  induction h with
  | empty => exact nofun
  | step _ call taken ih => exact taken.dims_inWords (words _ call) ih

/-- The recorded dimensions of a network that is reached by calls with words are words. -/
theorem dims_inWords (words : ∀ e, allowed e → e.InWords) (h : Reached allowed network) :
    ∀ type ∈ network.types, type.dims.InWords :=
  h.dims_inWords_of_dims fun e call => (words e call).dims

/-- What holds of the kind of every layer that a call adds holds of every layer. -/
theorem kind_of_layer {P : LayerKind → Prop}
    (added : ∀ e kind, allowed e → e.kind? = some kind → P kind) (h : Reached allowed network) :
    ∀ layer ∈ network.layers, P layer.kind := by
  induction h with
  | empty => exact nofun
  | step _ call taken ih =>
    intro layer member
    rcases taken.layers_subset_or member with old | new
    · exact ih layer old
    · exact added _ _ call new

theorem hasWords (h : Reached Edit.InWords network) :
    ∀ layer ∈ network.layers, layer.kind.HasWords :=
  h.kind_of_layer fun _ _ call adds => hasWords_of_kind? adds call

/-- All numbers of a network with fewer tensors than words are words, when its constants are
stored. -/
theorem inWords (stored : ∀ e, allowed e → e.Stored) (h : Reached allowed network)
    (count : network.tensors.length ≤ Unsigned.bound) : network.InWords := by
  refine h.coherent.inWords (h.dims_inWords fun e call => (stored e call).inWords) ?_ count
  exact h.kind_of_layer fun e kind call adds => (Edit.stored_iff.mp (stored e call)).2 kind adds

/-- All numbers of a network that is reached by sized calls are words, when the ranks of what its
layers compute and the number of its tensors are. -/
theorem inWords_of_rank (h : Reached Edit.Sized network)
    (ranks : ∀ layer ∈ network.layers, ∀ type, network.types[layer.output.index]? = some type →
      type.dims.rank ≤ Unsigned.bound)
    (count : network.tensors.length ≤ Unsigned.bound) : network.InWords := by
  refine h.coherent.inWords (h.dims_inWords_of_dims fun e call => call.dims) ?_ count
  have kinds := h.kind_of_layer fun e kind call adds => call.kind kind adds
  intro layer member
  -- What the calls say of a kind leaves out its axes, which the type of the layer bounds.
  obtain ⟨operands, type, -, infers, output⟩ := (h.coherent.layers layer member).typed
  have rank := ranks layer member type output
  have sized := kinds layer member
  generalize layer.kind = kind at sized infers ⊢
  cases kind with
  | constant weights => exact sized
  | shuffle spec =>
    refine ⟨fun order given => ?_, sized.2, fun order given axis listed => ?_⟩
    · rw [sized.1] at given
      cases given
    · exact Nat.lt_of_lt_of_le (infers.axis_lt given listed) rank
  | matrixMultiply | elementWise => trivial

end Reached

end Network

end TensorEngine
