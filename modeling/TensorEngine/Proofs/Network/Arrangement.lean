import TensorEngine.Proofs.Execution.Meanings
import TensorEngine.Proofs.Network.Words

/-!
# Rearranged networks

Layers can be added in many orders. Networks that have the same inputs, outputs that match, and layers
that match in some order differ in the ids of tensors only. They record the same types, have layers of
the same kinds, and as many tensors.

## Main definitions

* `Network.Rearranged`: networks that are the same but for ids and the order of layers

## Main results

* `Network.Rearranged.symm`: rearranging goes both ways
* `Network.Rearranged.mem_types`, `Network.Rearranged.exists_layer`: types and layers of the networks
* `Network.Rearranged.inWords`: numbers stay words
-/

namespace TensorEngine

namespace Network

/-- Networks that are the same but for the ids of tensors and the order of layers. -/
structure Rearranged (network network' : Network) : Prop where
  inputs : network'.inputs = network.inputs
  records : ∀ x ∈ network.inputs, network'.tensor x = network.tensor x
  outputs : List.Forall₂ (fun x y => network.Matches network' x y ∧
    network'.tensor y = network.tensor x) network.outputs network'.outputs
  layers : ∃ layers, layers.Perm network.layers ∧
    List.Forall₂ (Layer.Matches network network') layers network'.layers

variable {network network' : Network}

namespace Rearranged

theorem symm (h : network.Rearranged network') : network'.Rearranged network where
  inputs := h.inputs.symm
  records := fun x input => (h.records x (h.inputs ▸ input)).symm
  outputs := h.outputs.flip.imp fun _ _ matched => ⟨matched.1.symm, matched.2.symm⟩
  layers := by
    obtain ⟨layers, perm, matched⟩ := h.layers
    -- The permutation is moved from the one side of the relation to the other.
    obtain ⟨layers', matched', perm'⟩ := List.perm_comp_forall₂ perm.symm
      (matched.imp fun _ _ both => both.symm)
    exact ⟨layers', perm', matched'.flip⟩

/-- Every layer matches one of the other network. -/
theorem exists_layer (h : network.Rearranged network') {layer' : Layer}
    (member : layer' ∈ network'.layers) :
    ∃ layer ∈ network.layers, layer.Matches network network' layer' := by
  obtain ⟨layers, perm, matched⟩ := h.layers
  obtain ⟨layer, listed, both⟩ := forall₂_mem_right matched member
  exact ⟨layer, perm.mem_iff.mp listed, both⟩

/-- The types that are recorded in one network are recorded in the other. -/
theorem mem_types (h : network.Rearranged network') (coherent : network'.Coherent) {type : TensorType}
    (member : type ∈ network'.types) : type ∈ network.types := by
  obtain ⟨place, entry⟩ := List.mem_iff_getElem?.mp member
  obtain ⟨t, known, rfl⟩ :=
    exists_tensor_of_types (show network'.types[TensorId.index ⟨place⟩]? = _ from entry)
  have within := (List.getElem?_eq_some_iff.mp (tensor_eq_ok_iff.mp known)).1
  rcases coherent.source ⟨place⟩ within with input | ⟨layer', listed, output⟩
  · rw [h.records _ (h.inputs ▸ input)] at known
    exact List.mem_of_getElem? (types_getElem?_of_tensor known)
  · obtain ⟨layer, -, -, matched⟩ := h.exists_layer listed
    obtain ⟨type', left, right⟩ := matched.type
    rw [output] at right
    cases right.symm.trans entry
    exact List.mem_of_getElem? left

theorem length_eq (h : network.Rearranged network') {allowed allowed' : Edit → Prop}
    (reached : network.Reached allowed) (reached' : network'.Reached allowed') :
    network'.tensors.length = network.tensors.length := by
  obtain ⟨layers, perm, matched⟩ := h.layers
  rw [reached.length_eq, reached'.length_eq, h.inputs, ← perm.length_eq, List.Forall₂.length_eq matched]

/-- Numbers of a network whose rearrangement has words for its numbers are words. -/
theorem inWords (h : network.Rearranged network') {allowed allowed' : Edit → Prop}
    (reached : network.Reached allowed) (reached' : network'.Reached allowed')
    (words : network.InWords) : network'.InWords := by
  refine reached'.coherent.inWords (fun type member => ?_) (fun layer' member => ?_) ?_
  · obtain ⟨t, listed, rfl⟩ := List.mem_map.mp (h.mem_types reached'.coherent member)
    exact words.tensors t listed
  · obtain ⟨layer, listed, kind, -⟩ := h.exists_layer member
    exact kind ▸ (words.layers layer listed).kind
  · rw [h.length_eq reached reached']
    exact reached.coherent.length_le words

end Rearranged

end Network

end TensorEngine
