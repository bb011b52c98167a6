import TensorEngine.Proofs.Plan.Accepted
import TensorEngine.Proofs.Tensor.Layout
import TensorEngine.Proofs.Tensor.Permutation

/-!
# Tensors that are made of others

Tensors are constructed from bytes or numbers, or read, and then laid out under other shapes and
permuted. The construction multiplies the width of an element with the extents, from left to right and
within a word. Laying out and permuting only look at the number of elements, and the number of bytes
stays what it was. So a tensor that has elements can always be constructed again from its own parts, and
reads back when it was written. An empty one need not: in another order its extents may leave the word
before the zero among them is reached.

## Main definitions

* `Tensor.Made`: what constructions, readings, reshapes and permutations make
* `Tensor.Multiplies`: the width of an element can be multiplied with all extents
* `Shape.Counts`: the number of elements and the strides are words

## Main results

* `Tensor.Made.sized`: made tensors have words for their extents and the number of their bytes
* `Tensor.made_tensor_is_accepted_iff`: which tensors are accepted again
* `Tensor.emptied_tensor_is_refused`: an empty tensor that is not
-/

namespace TensorEngine

/-! ### Products within words -/

/-- Multiplication from left to right succeeds when every product on the way is a word. -/
theorem Unsigned.isSome_product?_iff {start : Nat} {factors : List Nat} (first : start < bound) :
    (product? start factors).isSome ↔ ∀ k, start * Shape.size (factors.take k) < bound := by
  induction factors generalizing start with
  | nil => simpa [product?] using first
  | cons factor factors ih =>
    have step : product? start (factor :: factors) =
        (mul? start factor).bind fun next => product? next factors := rfl
    have later : ∀ k, start * Shape.size ((factor :: factors).take (k + 1)) =
        start * factor * Shape.size (factors.take k) := by
      intro k
      rw [List.take_succ_cons, Shape.size_cons, Nat.mul_assoc]
    by_cases next : start * factor < bound
    · rw [step, mul?, if_pos next, Option.bind_some, ih next]
      constructor
      · intro all k
        cases k with
        | zero => simpa using first
        | succ k => exact (later k).symm ▸ all k
      · intro all k
        exact later k ▸ all (k + 1)
    · rw [step, mul?, if_neg next, Option.bind_none]
      apply iff_of_false (by simp)
      intro all
      have reached := all 1
      rw [later 0] at reached
      exact next (by simpa using reached)

namespace Tensor

variable {t u : Tensor} {shape : Shape} {order : List Nat}

/-- Every product of the width of an element with leading extents is a word. -/
def Multiplies (t : Tensor) : Prop :=
  ∀ k, t.dtype.size * Shape.size (t.shape.take k) < Unsigned.bound

theorem isSome_product?_iff_multiplies :
    (Unsigned.product? t.dtype.size t.shape).isSome ↔ t.Multiplies :=
  Unsigned.isSome_product?_iff (by cases t.dtype <;> decide)

instance (t : Tensor) : Decidable t.Multiplies :=
  decidable_of_iff _ isSome_product?_iff_multiplies

/-- The parts of a tensor are accepted if the number of its bytes can be computed. -/
theorem ofBytes_parts (t : Tensor) : ofBytes t.dtype t.shape t.data =
    if t.Multiplies then .ok t else .error (.tooLarge t.shape) := by
  by_cases multiplies : t.Multiplies
  · obtain ⟨n, product⟩ := Option.isSome_iff_exists.mp (isSome_product?_iff_multiplies.mpr multiplies)
    have count : n = t.data.length := by
      rw [Unsigned.product?_eq_some product, t.length_data]
    rw [if_pos multiplies, ofBytes_eq_ok_iff]
    exact ⟨count ▸ product, rfl, rfl, rfl⟩
  · have overflow : Unsigned.product? t.dtype.size t.shape = none := by
      rw [← Option.not_isSome_iff_eq_none, isSome_product?_iff_multiplies]
      exact multiplies
    rw [if_neg multiplies, ofBytes]
    split
    next => rfl
    next fits => cases overflow.symm.trans fits

theorem stored_iff_multiplies (words : Shape.InWords t.shape) : t.Stored ↔ t.Multiplies := by
  constructor
  · intro stored
    by_contra other
    have accepted := stored.accepted
    rw [ofBytes_parts, if_neg other] at accepted
    cases accepted
  · intro multiplies
    exact ⟨words, by rw [ofBytes_parts, if_pos multiplies]⟩

/-! ### Tensors that are made -/

/-- Tensors that are constructed or read, and what reshapes and permutations make of them. Extents that
are given are words. -/
inductive Made : Tensor → Prop
  | ofBytes {dtype : DType} {shape : Shape} {data : Bytes} {t : Tensor} (words : shape.InWords)
    (built : Tensor.ofBytes dtype shape data = .ok t) : Made t
  | ofFloats {shape : Shape} {patterns : List UInt32} {t : Tensor} (words : shape.InWords)
    (built : Tensor.ofFloats shape patterns = .ok t) : Made t
  | ofInts {shape : Shape} {values : List Int} {t : Tensor} (words : shape.InWords)
    (built : Tensor.ofInts shape values = .ok t) : Made t
  | ofJson {value : Json} {t : Tensor} (read : Tensor.ofJson? value = some t) : Made t
  | reshape {shape : Shape} {t u : Tensor} (made : Made t) (words : shape.InWords)
    (laid : t.reshape shape = .ok u) : Made u
  | permute {order : List Nat} {t u : Tensor} (made : Made t)
    (moved : t.permute order = .ok u) : Made u

/-- Extents and the number of bytes are words. -/
structure Sized (t : Tensor) : Prop where
  shape : Shape.InWords t.shape
  bytes : t.Addressable

namespace Sized

theorem of_stored (stored : t.Stored) : t.Sized :=
  ⟨stored.shape, stored.addressable⟩

theorem of_ofBytes {dtype : DType} {data : Bytes} (words : shape.InWords)
    (built : Tensor.ofBytes dtype shape data = .ok t) : t.Sized := by
  obtain ⟨-, rfl, rfl, rfl⟩ := ofBytes_eq_ok_iff.mp built
  exact of_stored ⟨words, built⟩

theorem reshape (h : t.Sized) (words : shape.InWords) (laid : t.reshape shape = .ok u) : u.Sized := by
  obtain ⟨-, rfl, data⟩ := reshape_eq_ok_iff.mp laid
  refine ⟨words, ?_⟩
  unfold Addressable
  rw [data]
  exact h.bytes

theorem permute (h : t.Sized) (moved : t.permute order = .ok u) : u.Sized := by
  obtain ⟨permutation, permuted⟩ := permute_eq_ok_iff.mp moved
  refine ⟨fun extent member => h.shape extent (permuted.shape.mem member), ?_⟩
  unfold Addressable
  rw [u.length_data, permuted.dtype, permuted.size_eq permutation, ← t.length_data]
  exact h.bytes

/-- Where no extent is zero, no product of leading extents is larger than the number of bytes. -/
theorem multiplies (h : t.Sized) (extents : 0 ∉ t.shape) : t.Multiplies :=
  (stored_iff_multiplies h.shape).mp (Compact.of_addressable h.bytes extents).stored

end Sized

/-- However a tensor was made, its extents and the number of its bytes are words. -/
theorem Made.sized (made : t.Made) : t.Sized := by
  induction made with
  | ofBytes words built => exact .of_ofBytes words built
  | ofFloats words built => exact .of_ofBytes words built
  | ofInts words built => exact .of_ofBytes words built
  | ofJson read => exact .of_stored (yields_stored _ _ read)
  | reshape _ words laid ih => exact ih.reshape words laid
  | permute _ moved ih => exact ih.permute moved

/-- What is read from the text of a tensor. -/
theorem ofJson?_of_text (words : Shape.InWords t.shape) :
    (Json.parse? t.toJson.bytes).bind ofJson? = if t.Multiplies then some t else none := by
  rw [Json.parse?_bytes (faithful.written t), Option.bind_some]
  by_cases multiplies : t.Multiplies
  · rw [if_pos multiplies]
    exact faithful.read_write ((stored_iff_multiplies words).mpr multiplies)
  · rw [if_neg multiplies, Option.eq_none_iff_forall_ne_some]
    intro u read
    have stored := ((faithful.read_eq_some_iff t u).mp read).1
    exact multiplies ((stored_iff_multiplies words).mp stored)

/-- A plan that holds the tensor as a constant is only read if the number of its bytes is computed. -/
theorem multiplies_of_parse {plan other : EnginePlan} (made : t.Made)
    (constant : ∃ layer ∈ plan.network.layers, layer.kind = .constant t)
    (read : EnginePlan.parse? plan.bytes = some other) : t.Multiplies := by
  obtain ⟨layer, member, kind⟩ := constant
  have words := ((EnginePlan.parse?_bytes_eq_some_iff.mp read).1.network.layers layer member).kind
  rw [kind] at words
  exact (stored_iff_multiplies made.sized.shape).mp words

/-- However a tensor was made, it is constructed again from its parts and read back from its text exactly
if every product of the width of an element with leading extents is a word, and refused otherwise. If no
extent is zero, these products are words. A plan that holds the tensor as a constant is only read if they
are. -/
theorem made_tensor_is_accepted_iff (made : t.Made) :
    ofBytes t.dtype t.shape t.data =
        (if t.Multiplies then .ok t else .error (.tooLarge t.shape)) ∧
      (Json.parse? t.toJson.bytes).bind ofJson? = (if t.Multiplies then some t else none) ∧
      (0 ∉ t.shape → t.Multiplies) ∧
      ∀ plan other : EnginePlan, (∃ layer ∈ plan.network.layers, layer.kind = .constant t) →
        EnginePlan.parse? plan.bytes = some other → t.Multiplies := by
  have sized := made.sized
  exact ⟨ofBytes_parts t, ofJson?_of_text sized.shape, sized.multiplies,
    fun plan other => multiplies_of_parse made⟩

/-- An empty tensor that is permuted once and accepted again. -/
theorem made_tensor_is_accepted_iff_emptied :
    let t : Tensor := ⟨.f32, [2, 0, 3], [], rfl⟩
    let u : Tensor := ⟨.f32, [0, 3, 2], [], rfl⟩
    t.permute [1, 2, 0] = .ok u ∧ ofBytes u.dtype u.shape u.data = .ok u ∧
      (Json.parse? u.toJson.bytes).bind ofJson? = some u := by
  intro t u
  have words : Shape.InWords t.shape := by decide
  have moved : t.permute [1, 2, 0] = .ok u := by decide
  have made : u.Made := .permute (.ofBytes words (by decide : ofBytes .f32 [2, 0, 3] [] = .ok t)) moved
  have multiplies : u.Multiplies := by decide
  obtain ⟨accepted, read, -, -⟩ := made_tensor_is_accepted_iff made
  exact ⟨moved, by rw [accepted, if_pos multiplies], by rw [read, if_pos multiplies]⟩

end Tensor

/-! ### An empty tensor that is refused -/

/-- The products of leading extents, the last of which is the number of elements, and the strides are
words. -/
structure Shape.Counts (shape : Shape) : Prop where
  sizes : ∀ k ≤ shape.length, Shape.size (shape.take k) < Unsigned.bound
  strides : ∀ stride ∈ shape.strides, stride < Unsigned.bound

namespace Tensor

/-- A quarter of all words for the extent behind a zero: no count leaves the words. The permutation puts
that extent first, and the number of its bytes leaves them, though there is no byte. -/
theorem emptied_tensor_is_refused :
    let t : Tensor := ⟨.f32, [0, 2 ^ 62], [], rfl⟩
    let u : Tensor := ⟨.f32, [2 ^ 62, 0], [], rfl⟩
    t.Made ∧ u.Made ∧ t.shape.Counts ∧ u.shape.Counts ∧
      ofBytes t.dtype t.shape t.data = .ok t ∧ t.permute [1, 0] = .ok u ∧
      ofBytes u.dtype u.shape u.data = .error (.tooLarge u.shape) ∧
      (Json.parse? u.toJson.bytes).bind ofJson? = none ∧
      ∀ plan : EnginePlan, (∃ layer ∈ plan.network.layers, layer.kind = .constant u) →
        EnginePlan.parse? plan.bytes = none := by
  intro t u
  have built : ofBytes t.dtype t.shape t.data = .ok t := by decide
  have moved : t.permute [1, 0] = .ok u := by decide
  have made : t.Made := .ofBytes (by decide) built
  have overflow : ¬ u.Multiplies := by decide
  refine ⟨made, made.permute moved, ⟨by decide, by decide⟩, ⟨by decide, by decide⟩, built, moved,
    ?_, ?_, ?_⟩
  · rw [ofBytes_parts, if_neg overflow]
  · rw [ofJson?_of_text (made.permute moved).sized.shape, if_neg overflow]
  · intro plan constant
    apply Option.eq_none_iff_forall_ne_some.mpr
    intro other read
    exact overflow (multiplies_of_parse (made.permute moved) constant read)

end Tensor

end TensorEngine
