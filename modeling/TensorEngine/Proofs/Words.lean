import TensorEngine.Plan.Text

/-!
# Numbers that fit in words

Extents, axes, ids and dimensions are 64-bit words in a machine; the library keeps them as numbers
of any size. This file says of tensors, layers, networks and plans that every number in them fits in
its word. Data that came from a machine has this property from the start.

## Main definitions

* `Tensor.Stored`: tensors that the checked construction accepts
* `Network.InWords`, `EnginePlan.InWords`: networks and plans whose numbers fit
-/

namespace TensorEngine

/-- Every extent is a word. -/
def Shape.InWords (shape : Shape) : Prop :=
  ∀ n ∈ shape, n < Unsigned.bound

/-- Every dimension is a signed word. -/
def Dims.InWords (dims : Dims) : Prop :=
  ∀ d ∈ dims, Signed.InRange d

instance (shape : Shape) : Decidable shape.InWords :=
  inferInstanceAs (Decidable (∀ n ∈ shape, n < Unsigned.bound))

instance (dims : Dims) : Decidable dims.InWords :=
  inferInstanceAs (Decidable (∀ d ∈ dims, Signed.InRange d))

/-- The extents are words, and the checked construction accepts the tensor as it is. -/
structure Tensor.Stored (t : Tensor) : Prop where
  shape : Shape.InWords t.shape
  accepted : Tensor.ofBytes t.dtype t.shape t.data = .ok t

namespace Tensor

/-- Tensors with the same element type, shape and bytes are the same. -/
theorem ext_data {t u : Tensor} (dtype : t.dtype = u.dtype) (shape : t.shape = u.shape)
    (data : t.data = u.data) : t = u := by
  cases t
  cases u
  cases dtype
  cases shape
  cases data
  rfl

/-- The checked construction accepts exactly data whose size fits in a word and is right. -/
theorem ofBytes_eq_ok_iff {dtype : DType} {shape : Shape} {data : Bytes} {t : Tensor} :
    ofBytes dtype shape data = .ok t ↔ Unsigned.product? dtype.size shape = some data.length ∧
      t.dtype = dtype ∧ t.shape = shape ∧ t.data = data := by
  unfold ofBytes
  split
  next overflow => simp [overflow]
  next expected fits =>
    split
    next length =>
      constructor
      · rintro ⟨⟩
        exact ⟨length ▸ fits, rfl, rfl, rfl⟩
      · rintro ⟨-, rfl, rfl, rfl⟩
        rfl
    next length =>
      constructor
      · rintro ⟨⟩
      · rintro ⟨h, -⟩
        exact absurd (Option.some.inj (fits.symm.trans h)).symm length

/-- A tensor is stored exactly when its extents and the number of its bytes are words. -/
theorem stored_iff {t : Tensor} : t.Stored ↔
    Shape.InWords t.shape ∧ Unsigned.product? t.dtype.size t.shape = some t.data.length :=
  ⟨fun h => ⟨h.shape, (ofBytes_eq_ok_iff.mp h.accepted).1⟩,
    fun h => ⟨h.1, ofBytes_eq_ok_iff.mpr ⟨h.2, rfl, rfl, rfl⟩⟩⟩

instance (t : Tensor) : Decidable t.Stored :=
  decidable_of_iff _ stored_iff.symm

end Tensor

/-- The position of the tensor is a word. -/
def TensorId.InWords (id : TensorId) : Prop :=
  id.index < Unsigned.bound

instance (id : TensorId) : Decidable id.InWords :=
  inferInstanceAs (Decidable (id.index < Unsigned.bound))

/-- Axes and reshape entries are words. -/
structure ShuffleSpec.InWords (spec : ShuffleSpec) : Prop where
  firstTranspose : ∀ order ∈ spec.firstTranspose, ∀ axis ∈ order, axis < Unsigned.bound
  reshape : ∀ target ∈ spec.reshape, Dims.InWords target
  secondTranspose : ∀ order ∈ spec.secondTranspose, ∀ axis ∈ order, axis < Unsigned.bound

instance (spec : ShuffleSpec) : Decidable spec.InWords :=
  decidable_of_iff
    ((∀ order ∈ spec.firstTranspose, ∀ axis ∈ order, axis < Unsigned.bound) ∧
      (∀ target ∈ spec.reshape, Dims.InWords target) ∧
      ∀ order ∈ spec.secondTranspose, ∀ axis ∈ order, axis < Unsigned.bound)
    ⟨fun ⟨first, target, second⟩ => ⟨first, target, second⟩,
      fun h => ⟨h.firstTranspose, h.reshape, h.secondTranspose⟩⟩

/-- The numbers of a layer's kind are words, and its constant is stored. -/
def LayerKind.InWords : LayerKind → Prop
  | .constant weights => weights.Stored
  | .shuffle spec => spec.InWords
  | .matrixMultiply _ _ | .elementWise _ => True

instance : (kind : LayerKind) → Decidable kind.InWords
  | .constant weights => inferInstanceAs (Decidable weights.Stored)
  | .shuffle spec => inferInstanceAs (Decidable spec.InWords)
  | .matrixMultiply _ _ | .elementWise _ => .isTrue trivial

/-- The numbers of a layer are words. -/
structure Layer.InWords (layer : Layer) : Prop where
  kind : layer.kind.InWords
  inputs : ∀ id ∈ layer.inputs, id.InWords
  output : layer.output.InWords

instance (layer : Layer) : Decidable layer.InWords :=
  decidable_of_iff
    (layer.kind.InWords ∧ (∀ id ∈ layer.inputs, id.InWords) ∧ layer.output.InWords)
    ⟨fun ⟨kind, inputs, output⟩ => ⟨kind, inputs, output⟩, fun h => ⟨h.kind, h.inputs, h.output⟩⟩

/-- The numbers of a network are words. -/
structure Network.InWords (network : Network) : Prop where
  tensors : ∀ t ∈ network.tensors, Dims.InWords t.dims
  layers : ∀ layer ∈ network.layers, layer.InWords
  inputs : ∀ id ∈ network.inputs, id.InWords
  outputs : ∀ id ∈ network.outputs, id.InWords

instance (network : Network) : Decidable network.InWords :=
  decidable_of_iff
    ((∀ t ∈ network.tensors, Dims.InWords t.dims) ∧ (∀ layer ∈ network.layers, layer.InWords) ∧
      (∀ id ∈ network.inputs, id.InWords) ∧ ∀ id ∈ network.outputs, id.InWords)
    ⟨fun ⟨tensors, layers, inputs, outputs⟩ => ⟨tensors, layers, inputs, outputs⟩,
      fun h => ⟨h.tensors, h.layers, h.inputs, h.outputs⟩⟩

/-- The numbers of a plan are words, its version a word of 32 bits. -/
structure EnginePlan.InWords (plan : EnginePlan) : Prop where
  formatVersion : plan.formatVersion < 0x100000000
  network : plan.network.InWords
  bindings : ∀ b ∈ plan.bindings, Dims.InWords b.spec.dims ∧ b.tensor.InWords

instance (plan : EnginePlan) : Decidable plan.InWords :=
  decidable_of_iff
    (plan.formatVersion < 0x100000000 ∧ plan.network.InWords ∧
      ∀ b ∈ plan.bindings, Dims.InWords b.spec.dims ∧ b.tensor.InWords)
    ⟨fun ⟨version, network, bindings⟩ => ⟨version, network, bindings⟩,
      fun h => ⟨h.formatVersion, h.network, h.bindings⟩⟩

end TensorEngine
