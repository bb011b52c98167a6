import TensorEngine.Proofs.Network.Coherent

/-!
# Growing networks

A call that is not refused only adds to a network: tensors, layers, inputs and outputs that are
there stay where they are, and so do the records of inputs and outputs. What is known of a network
is therefore known of every network that it grows to.

## Main definitions

* `Network.Grows`: what stays

## Main results

* `Network.Step.grows`: a step makes a network grow
-/

namespace TensorEngine.Network

/-- The other network has the types, layers, inputs and outputs of this one and perhaps more, and
records inputs and outputs of this one as this one does. -/
structure Grows (network next : Network) : Prop where
  types : network.types <+: next.types
  layers : network.layers <+: next.layers
  inputs : network.inputs <+: next.inputs
  outputs : network.outputs <+: next.outputs
  records : ∀ id ∈ network.inputs ++ network.outputs, ∀ t,
    network.tensor id = .ok t → next.tensor id = .ok t

namespace Grows

variable {network next last : Network}

theorem refl (network : Network) : network.Grows network :=
  ⟨List.prefix_rfl, List.prefix_rfl, List.prefix_rfl, List.prefix_rfl, fun _ _ _ => id⟩

theorem trans (h : network.Grows next) (h' : next.Grows last) : network.Grows last where
  types := h.types.trans h'.types
  layers := h.layers.trans h'.layers
  inputs := h.inputs.trans h'.inputs
  outputs := h.outputs.trans h'.outputs
  records := fun id member t known => by
    refine h'.records id ?_ t (h.records id member t known)
    rcases List.mem_append.mp member with input | output
    · exact List.mem_append_left _ (h.inputs.subset input)
    · exact List.mem_append_right _ (h.outputs.subset output)

end Grows

variable {network next : Network} {e : Edit} {id : TensorId}

theorem tensor_push {t record : NetworkTensor} (h : network.tensor id = .ok t) :
    (network.push record).tensor id = .ok t := by
  rw [tensor_eq_ok_iff] at h ⊢
  exact getElem?_of_isPrefix (List.prefix_append _ _) h

theorem tensor_rename_of_ne {t : NetworkTensor} {renamed : TensorId} (name : String)
    (other : id ≠ renamed) (h : network.tensor id = .ok t) :
    (network.rename renamed name).tensor id = .ok t := by
  rw [tensor_eq_ok_iff] at h ⊢
  have different : renamed.index ≠ id.index := fun same =>
    other (by cases id; cases renamed; simp_all)
  rw [rename]
  simpa [List.getElem?_modify, different] using h

theorem tensor_rename_self (known : id.index < network.tensors.length) (name : String) :
    (network.rename id name).tensor id = .ok { network.tensors[id.index] with name := name } := by
  rw [tensor_eq_ok_iff]
  simp only [rename, List.getElem?_modify_eq, List.getElem?_eq_getElem known]
  rfl

/-- A call that is not refused makes the network grow. -/
theorem Step.grows (h : network.Step e id next) : network.Grows next := by
  have types := h.types_isPrefix
  cases h with
  | input fresh =>
    exact ⟨types, List.prefix_rfl, List.prefix_append _ _, List.prefix_rfl,
      fun _ _ _ => tensor_push⟩
  | layer adds known infers =>
    exact ⟨types, List.prefix_append _ _, List.prefix_rfl, List.prefix_rfl,
      fun _ _ _ => tensor_push⟩
  | @output id name known unmarked fresh =>
    refine ⟨types, List.prefix_rfl, List.prefix_rfl, List.prefix_append _ _, ?_⟩
    intro other member t recorded
    refine tensor_rename_of_ne name ?_ recorded
    rintro rfl
    have marked : network.isMarked other = true := by simpa [isMarked] using member
    exact absurd marked (by simp [unmarked])

end TensorEngine.Network
