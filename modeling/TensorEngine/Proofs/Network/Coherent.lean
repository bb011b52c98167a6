import TensorEngine.Proofs.Network.Calls

/-!
# Coherent networks

A network is reached by calls, and a refused call leaves it as it was. Whatever the calls are, the
network stays coherent: every tensor is an input or the output of one layer, a layer reads only
tensors that are older than its output, and the type recorded for its output is the one that its
kind infers from the types of its operands.

## Main definitions

* `Network.after`, `Network.built`: the network after a call, and after a list of calls
* `Network.Step`: what a call that is not refused does
* `Network.Coherent`: the invariant

## Main results

* `Network.step_of_call`: a call that is accepted takes a step
* `Network.Coherent.step`, `Network.Reached.coherent`: steps keep a network coherent, so that every
  network that is reached is
* `Network.Coherent.available`: a layer reads inputs and outputs of layers before it
-/

namespace TensorEngine

namespace Network

/-- The network after a call. -/
def after (network : Network) (e : Edit) : Network :=
  (network.call e).2

/-- The network that a list of calls builds. -/
def built (edits : List Edit) : Network :=
  edits.foldl after .empty

/-- What a call that is not refused does: it adds an input, adds a layer over tensors that are
there, or makes a tensor that is neither input nor output an output. -/
inductive Step (network : Network) : Edit → TensorId → Network → Prop
  | input {name : String} {dtype : DType} {dims : Dims} (fresh : network.find? name = none) :
      Step network (.addInput name dtype dims) network.nextId
        { network.push ⟨name, dtype, dims⟩ with inputs := network.inputs ++ [network.nextId] }
  | layer {e : Edit} {name : String} {kind : LayerKind} {operands : List TensorType}
      {type : TensorType} (adds : e.kind? = some kind)
      (known : List.Forall₂ (fun id type => network.types[id.index]? = some type) e.inputs operands)
      (infers : kind.Infers operands type) :
      Step network e network.nextId (network.pushLayer name kind e.inputs type.dtype type.dims).2
  | output {id : TensorId} {name : String} (known : id.index < network.tensors.length)
      (unmarked : network.isMarked id = false) (fresh : network.find? name = none) :
      Step network (.markOutput id name) id
        { network.rename id name with outputs := network.outputs ++ [id] }

variable {network next : Network} {e : Edit} {id : TensorId}

/-- A call that is not refused takes a step. -/
theorem step_of_call (h : network.call e = (.ok id, next)) : network.Step e id next := by
  cases adds : e.kind? with
  | some kind =>
    obtain ⟨operands, type, known, infers, rfl, rfl⟩ := (call_eq_ok_iff adds).mp h
    exact .layer adds known infers
  | none =>
    cases e with
    | addInput =>
      obtain ⟨fresh, rfl, rfl⟩ := call_addInput_eq_ok_iff.mp h
      exact .input fresh
    | markOutput =>
      obtain ⟨known, unmarked, fresh, rfl, rfl⟩ := call_markOutput_eq_ok_iff.mp h
      exact .output known unmarked fresh
    | addConstant | addShuffle | addMatrixMultiply | addElementWise => cases adds

theorem types_rename (id : TensorId) (name : String) :
    (network.rename id name).types = network.types := by
  simp only [types, rename]
  refine List.ext_getElem (by simp) fun i h h' => ?_
  rw [List.getElem_map, List.getElem_map, List.getElem_modify]
  split <;> rfl

/-- A step keeps the types that are recorded. -/
theorem Step.types_isPrefix (h : network.Step e id next) : network.types <+: next.types := by
  cases h with
  | input | layer => exact ⟨_, (List.map_append ..).symm⟩
  | output => exact types_rename id _ ▸ List.prefix_rfl

end Network

/-- A layer reads tensors that are older than its output, whose recorded type its kind infers from
theirs. -/
structure Layer.Coherent (layer : Layer) (types : List TensorType) : Prop where
  older : ∀ id ∈ layer.inputs, id.index < layer.output.index
  typed : ∃ operands type,
    List.Forall₂ (fun id type => types[id.index]? = some type) layer.inputs operands ∧
      layer.kind.Infers operands type ∧ types[layer.output.index]? = some type

theorem Layer.Coherent.mono {layer : Layer} {types later : List TensorType}
    (grows : types <+: later) (h : layer.Coherent types) : layer.Coherent later := by
  obtain ⟨operands, type, known, infers, output⟩ := h.typed
  exact ⟨h.older, operands, type, known.imp fun _ _ => getElem?_of_isPrefix grows,
    infers, getElem?_of_isPrefix grows output⟩

namespace Network

/-- Every tensor is an input or the output of one layer, layers stand in the order of their outputs
and read what is older, and inputs and outputs are different tensors. -/
structure Coherent (network : Network) : Prop where
  layers : ∀ layer ∈ network.layers, layer.Coherent network.types
  ascending : network.layers.Pairwise fun a b => a.output.index < b.output.index
  source : ∀ id : TensorId, id.index < network.tensors.length →
    id ∈ network.inputs ∨ ∃ layer ∈ network.layers, layer.output = id
  apart : ∀ layer ∈ network.layers, layer.output ∉ network.inputs
  marked : ∀ id ∈ network.inputs ++ network.outputs, id.index < network.tensors.length
  distinct : (network.inputs ++ network.outputs).Nodup

namespace Coherent

variable {network next : Network} {e : Edit} {id : TensorId}

theorem output_lt (h : network.Coherent) {layer : Layer} (member : layer ∈ network.layers) :
    layer.output.index < network.tensors.length := by
  obtain ⟨operands, type, known, infers, output⟩ := (h.layers layer member).typed
  simpa [types] using (List.getElem?_eq_some_iff.mp output).1

/-- What a layer reads is an input or the output of a layer before it. -/
theorem available (h : network.Coherent) {before after : List Layer} {layer : Layer}
    (split : network.layers = before ++ layer :: after) {id : TensorId} (read : id ∈ layer.inputs) :
    id ∈ network.inputs ∨ ∃ earlier ∈ before, earlier.output = id := by
  have member : layer ∈ network.layers := split ▸ List.mem_append_right _ List.mem_cons_self
  have older := (h.layers layer member).older id read
  rcases h.source id (Nat.lt_trans older (h.output_lt member)) with input | ⟨other, given, rfl⟩
  · exact .inl input
  · refine .inr ⟨other, ?_, rfl⟩
    -- The outputs ascend, so a layer whose output is older stands before this one.
    have order := split ▸ h.ascending
    rcases List.mem_append.mp (split ▸ given) with earlier | later
    · exact earlier
    · have notBefore := List.pairwise_cons.mp (List.pairwise_append.mp order).2.1
      rcases List.mem_cons.mp later with rfl | after
      · exact absurd older (Nat.lt_irrefl _)
      · exact absurd older (Nat.lt_asymm (notBefore.1 other after))

/-- A layer has as many operands as it computes from. -/
theorem arity (h : network.Coherent) {layer : Layer} (member : layer ∈ network.layers) :
    layer.inputs.length = layer.kind.arity := by
  obtain ⟨operands, type, known, infers, -⟩ := (h.layers layer member).typed
  rw [List.Forall₂.length_eq known, infers.length_eq]

theorem empty : Network.empty.Coherent := by
  constructor <;> simp [Network.empty]

theorem index_lt_or_eq_nextId {t : NetworkTensor}
    (within : id.index < (network.push t).tensors.length) :
    id.index < network.tensors.length ∨ id = network.nextId := by
  rcases Nat.lt_or_eq_of_le (Nat.lt_succ_iff.mp (by simpa [push] using within)) with old | new
  · exact .inl old
  · exact .inr (by cases id; exact congrArg TensorId.mk new)

theorem ne_nextId (h : network.Coherent) (member : id ∈ network.inputs ++ network.outputs) :
    id ≠ network.nextId := by
  rintro rfl
  exact Nat.lt_irrefl _ (h.marked _ member)

theorem marked_push (h : network.Coherent) (t : NetworkTensor)
    (member : id ∈ network.inputs ++ network.outputs) :
    id.index < (network.push t).tensors.length := by
  have := h.marked id member
  simp only [push, List.length_append]
  omega

/-- A step keeps a network coherent. -/
theorem step (h : network.Coherent) (taken : network.Step e id next) : next.Coherent := by
  have grows := taken.types_isPrefix
  have old : ∀ layer ∈ network.layers, layer.Coherent next.types :=
    fun layer member => (h.layers layer member).mono grows
  cases taken with
  | @input name dtype dims fresh =>
    constructor
    · exact old
    · exact h.ascending
    · intro id within
      rcases index_lt_or_eq_nextId within with earlier | rfl
      · exact (h.source id earlier).imp_left (List.mem_append_left _)
      · exact .inl (List.mem_append_right _ List.mem_cons_self)
    · intro layer member input
      rcases List.mem_append.mp input with earlier | new
      · exact h.apart layer member earlier
      -- A layer that is there has an output that was there before the new input.
      · have := h.output_lt member
        rw [List.mem_singleton.mp new] at this
        exact Nat.lt_irrefl _ this
    · intro id member
      by_cases new : id = network.nextId
      · simp [new, push, nextId]
      · refine h.marked_push _ ?_
        simpa [new, push] using member
    -- The new input stands between inputs and outputs, and is none of either.
    · have moved : (network.inputs ++ [network.nextId] ++ network.outputs).Perm
          (network.nextId :: (network.inputs ++ network.outputs)) := by
        rw [List.append_assoc]
        exact List.perm_middle
      exact moved.nodup_iff.mpr
        (List.nodup_cons.mpr ⟨fun member => h.ne_nextId member rfl, h.distinct⟩)
  | @layer e name kind operands type adds known infers =>
    constructor
    · intro layer member
      rcases List.mem_append.mp member with earlier | new
      · exact old layer earlier
      · obtain rfl := List.mem_singleton.mp new
        refine ⟨fun id read => ?_, operands, type,
          known.imp fun _ _ => getElem?_of_isPrefix grows, infers, ?_⟩
        · obtain ⟨type, -, entry⟩ := forall₂_mem_left known read
          simpa [types, nextId] using (List.getElem?_eq_some_iff.mp entry).1
        · simp [pushLayer, push, types, nextId, NetworkTensor.type]
    · refine List.pairwise_append.mpr ⟨h.ascending, List.pairwise_singleton _ _, ?_⟩
      intro a member b new
      obtain rfl := List.mem_singleton.mp new
      exact h.output_lt member
    · intro id within
      rcases index_lt_or_eq_nextId within with earlier | rfl
      · rcases h.source id earlier with input | ⟨layer, member, output⟩
        · exact .inl input
        · exact .inr ⟨layer, List.mem_append_left _ member, output⟩
      · exact .inr ⟨_, List.mem_append_right _ List.mem_cons_self, rfl⟩
    · intro layer member
      rcases List.mem_append.mp member with earlier | new
      · exact h.apart layer earlier
      · obtain rfl := List.mem_singleton.mp new
        exact fun input => h.ne_nextId (List.mem_append_left _ input) rfl
    · exact fun id => h.marked_push _
    · exact h.distinct
  | @output id name known unmarked fresh =>
    have length : (network.rename id name).tensors.length = network.tensors.length := by
      simp [rename]
    constructor
    · exact old
    · exact h.ascending
    · exact fun id within => h.source id (length ▸ within)
    · exact h.apart
    · intro other member
      refine length.symm ▸ ?_
      rcases List.mem_append.mp (List.append_assoc .. ▸ member) with earlier | new
      · exact h.marked other earlier
      · exact List.mem_singleton.mp new ▸ known
    · have absent : id ∉ network.inputs ++ network.outputs := by simpa [isMarked] using unmarked
      have last : network.inputs ++ (network.outputs ++ [id]) =
          (network.inputs ++ network.outputs).concat id := by simp
      exact last ▸ h.distinct.concat absent

end Coherent

/-- The networks that are reached by calls of an allowed kind. -/
inductive Reached (allowed : Edit → Prop) : Network → Prop
  | empty : Reached allowed .empty
  | step {network next : Network} {e : Edit} {id : TensorId} (earlier : Reached allowed network)
      (call : allowed e) (taken : network.Step e id next) : Reached allowed next

namespace Reached

variable {allowed : Edit → Prop} {network : Network}

theorem after {e : Edit} (h : Reached allowed network) (call : allowed e) :
    Reached allowed (network.after e) := by
  unfold Network.after
  rcases applied : network.call e with ⟨error | id, next⟩
  · exact eq_of_call_error applied ▸ h
  · exact h.step call (step_of_call applied)

/-- What a list of calls builds is reached by them. -/
theorem of_built {edits : List Edit} (calls : ∀ e ∈ edits, allowed e) :
    Reached allowed (built edits) := by
  have reached : ∀ (edits : List Edit) (network : Network), (∀ e ∈ edits, allowed e) →
      Reached allowed network → Reached allowed (edits.foldl Network.after network) := by
    intro edits
    induction edits with
    | nil => exact fun _ _ h => h
    | cons e edits ih =>
      intro network calls h
      rw [List.forall_mem_cons] at calls
      exact ih _ calls.2 (h.after calls.1)
  exact reached edits _ calls .empty

/-- Every network that is reached is coherent. -/
theorem coherent (h : Reached allowed network) : network.Coherent := by
  induction h with
  | empty => exact .empty
  | step _ _ taken ih => exact ih.step taken

/-- Every tensor is an input or computed by a layer. -/
theorem length_eq (h : Reached allowed network) :
    network.tensors.length = network.inputs.length + network.layers.length := by
  induction h with
  | empty => rfl
  | step _ _ taken ih =>
    cases taken with
    | input => simp [push, ih, Nat.add_right_comm]
    | layer => simp [pushLayer, push, ih, Nat.add_assoc]
    | output => simpa [rename] using ih

end Reached

end Network

end TensorEngine
