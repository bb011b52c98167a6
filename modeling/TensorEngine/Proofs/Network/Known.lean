import TensorEngine.Proofs.Network.Coherent

/-!
# Networks whose extents are known

Inference does not lose extents: where those of the operands are known, those of the result are. Unknown
extents therefore enter a network only through its inputs and constants, and if there are none, every
extent of every tensor is known.

## Main definitions

* `Network.IsStatic`: all extents of all tensors are known
* `Network.SourcesKnown`: the extents of inputs and constants are known

## Main results

* `LayerKind.Infers.isStatic`: inference keeps extents known
* `Network.Coherent.isStatic_iff`: where unknown extents come from
-/

namespace TensorEngine

/-- Known extents are inferred from known ones. Constants bring their own. -/
theorem LayerKind.Infers.isStatic {kind : LayerKind} {operands : List TensorType} {type : TensorType}
    (h : kind.Infers operands type)
    (constants : ∀ weights, kind = .constant weights → (Dims.ofShape weights.shape).isStatic)
    (known : ∀ operand ∈ operands, operand.dims.isStatic) : type.dims.isStatic := by
  cases h with
  | constant weights => exact constants weights rfl
  | shuffle inferred =>
    obtain ⟨first, second, moved, reshapes, moved'⟩ := inferShuffle_eq_ok_iff.mp inferred
    have firstKnown := moved.isStatic (known _ List.mem_cons_self)
    exact moved'.isStatic (reshapes.prod_eq firstKnown).1
  | matrixMultiply inferred =>
    apply Dims.isStatic_iff.mpr
    intro d member
    rcases mem_or_mem_of_inferMatrixMultiply inferred member with left | right
    · exact Dims.isStatic_iff.mp (known _ List.mem_cons_self) d left
    · exact Dims.isStatic_iff.mp (known _ (List.mem_cons_of_mem _ List.mem_cons_self)) d right
  | elementWise inferred =>
    apply Dims.isStatic_iff.mpr
    intro d member
    rcases mem_or_mem_of_broadcastExtents? (inferBroadcast_eq_ok_iff.mp inferred) member with left | right
    · exact Dims.isStatic_iff.mp (known _ List.mem_cons_self) d left
    · exact Dims.isStatic_iff.mp (known _ (List.mem_cons_of_mem _ List.mem_cons_self)) d right

namespace Network

variable {network : Network}

/-- All extents of all tensors are known. -/
def IsStatic (network : Network) : Prop :=
  ∀ t ∈ network.tensors, t.dims.isStatic

/-- The extents of inputs and of constants are known. -/
structure SourcesKnown (network : Network) : Prop where
  inputs : ∀ x ∈ network.inputs, ∀ t, network.tensor x = .ok t → t.dims.isStatic
  constants : ∀ layer ∈ network.layers, ∀ weights, layer.kind = .constant weights →
    (Dims.ofShape weights.shape).isStatic

theorem IsStatic.of_types (h : network.IsStatic) {id : TensorId} {type : TensorType}
    (recorded : network.types[id.index]? = some type) : type.dims.isStatic := by
  obtain ⟨t, known, rfl⟩ := exists_tensor_of_types recorded
  exact h t (List.mem_of_getElem? (tensor_eq_ok_iff.mp known))

/-- What is recorded of a tensor is known if the sources are. -/
theorem SourcesKnown.of_types (h : network.SourcesKnown) (coherent : network.Coherent) {id : TensorId}
    {type : TensorType} (recorded : network.types[id.index]? = some type) : type.dims.isStatic := by
  -- By induction on the age of the tensor: layers read what is older.
  induction age : id.index using Nat.strongRecOn generalizing id type with
  | ind _ ih =>
    subst age
    obtain ⟨t, known, rfl⟩ := exists_tensor_of_types recorded
    have within := (List.getElem?_eq_some_iff.mp (tensor_eq_ok_iff.mp known)).1
    rcases coherent.source id within with input | ⟨layer, member, rfl⟩
    · exact h.inputs id input t known
    · obtain ⟨operands, type, read, infers, output⟩ := (coherent.layers layer member).typed
      cases output.symm.trans recorded
      apply infers.isStatic (h.constants layer member)
      intro operand computed
      obtain ⟨input, listed, entry⟩ := forall₂_mem_right read computed
      exact ih _ ((coherent.layers layer member).older input listed) entry rfl

/-- The extents of a network are known exactly if those of its inputs and constants are. -/
theorem Coherent.isStatic_iff (coherent : network.Coherent) :
    network.IsStatic ↔ network.SourcesKnown := by
  constructor
  · intro static
    constructor
    · intro x _ t known
      exact static t (List.mem_of_getElem? (tensor_eq_ok_iff.mp known))
    · intro layer member weights constant
      obtain ⟨operands, type, read, infers, output⟩ := (coherent.layers layer member).typed
      rw [constant] at infers
      cases infers
      exact static.of_types output
  · intro sources t member
    obtain ⟨place, listed⟩ := List.mem_iff_getElem?.mp member
    have known : network.tensor ⟨place⟩ = .ok t := tensor_eq_ok_iff.mpr listed
    exact sources.of_types coherent (types_getElem?_of_tensor known)

end Network

end TensorEngine
