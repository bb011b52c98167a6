import TensorEngine.Proofs.Tensor.Layout

/-!
# Kernels compute operations

On tensors that have elements, the kernels of layers compute what the operations of source graphs
mean: the layouts that lowering puts around them are those that the operations broadcast by.

## Main results

* `Tensor.combine?_of_elementWise`, `Tensor.scaledBy?_of_elementWise`: elementwise operations
-/

namespace TensorEngine

namespace Shape

/-- Known shapes that broadcast are stretched to the same shape. -/
theorem stretched?_of_broadcastExtents? {xs ys shape : Shape}
    (h : broadcastExtents? xs.toDims ys.toDims = some shape.toDims) :
    stretched? xs ys = some shape := by
  induction xs generalizing ys shape with
  | nil =>
    cases ys with
    | nil =>
      cases shape with
      | nil => rfl
      | cons => cases h
    | cons => cases h
  | cons n xs ih =>
    cases ys with
    | nil => cases h
    | cons m ys =>
      simp only [toDims, List.map_cons, broadcastExtents?, Option.bind_eq_bind,
        Option.bind_eq_some_iff] at h
      obtain ⟨d, head, rest, tail, result⟩ := h
      cases shape with
      | nil => cases result
      | cons l shape =>
        simp only [List.map_cons, Option.pure_def, Option.some.injEq, List.cons.injEq] at result
        obtain ⟨rfl, rfl⟩ := result
        rw [stretched?, ih tail, Option.bind_eq_bind, Option.bind_some]
        unfold broadcastExtent? at head
        grind

theorem stretched?_ones (shape : Shape) :
    stretched? shape (List.replicate shape.length 1) = some shape := by
  induction shape with
  | nil => rfl
  | cons n shape ih => simp [List.replicate_succ, stretched?, ih]

/-- Every extent that shapes are stretched to is one of theirs. -/
theorem positive_of_broadcastExtents? {xs ys shape : Shape}
    (h : broadcastExtents? xs.toDims ys.toDims = some shape.toDims) (left : 0 < xs.size)
    (right : 0 < ys.size) : 0 < shape.size := by
  rw [size_pos_iff] at left right ⊢
  intro n member
  rcases mem_or_mem_of_broadcastExtents? h (List.mem_map_of_mem member) with first | second
  · obtain ⟨m, listed, same⟩ := List.mem_map.mp first
    exact Int.ofNat.inj same ▸ left m listed
  · obtain ⟨m, listed, same⟩ := List.mem_map.mp second
    exact Int.ofNat.inj same ▸ right m listed

end Shape

namespace Tensor

variable {a b a' b' t : Tensor}

theorem compact_of_ofFloats {shape : Shape} {xs : List UInt32} (positive : 0 < shape.size)
    (h : ofFloats shape xs = .ok t) : t.Compact := by
  obtain ⟨⟨fits, -⟩, single, rfl, -⟩ := ofFloats_eq_ok_iff.mp h
  obtain ⟨n, product⟩ := Option.isSome_iff_exists.mp fits
  refine ⟨positive, ?_⟩
  rw [single, show DType.size .f32 = 4 from rfl, ← Unsigned.product?_eq_some product]
  exact Unsigned.product?_lt (by decide) product

/-- The elementwise kernel on operands that were padded to equal rank combines them. -/
theorem combine?_of_elementWise {op : ElementWiseOp} (compactA : a.Compact) (compactB : b.Compact)
    (laidA : a.reshape (a.shape.padded (max a.rank b.rank)) = .ok a')
    (laidB : b.reshape (b.shape.padded (max a.rank b.rank)) = .ok b')
    (h : a'.elementWise b' op = .ok t) : a.combine? op b = some t ∧ t.Compact := by
  obtain ⟨-, singleA, singleB, dims, inferred, concrete⟩ := elementWise_type h
  have knownA := (compactA.reshape laidA).known singleA
  have knownB := (compactB.reshape laidB).known singleB
  have outer := inferBroadcast_eq_ok_iff.mp inferred
  rw [knownA, knownB] at outer
  obtain ⟨shape, rfl, -, -⟩ := stretches_of_broadcastExtents? outer
  -- The kernel tabulates over the padded operands; their numbers are those of the operands, since
  -- padding keeps the data.
  rw [elementWise_eq knownA knownB singleA singleB inferred, mapError_eq_ok_iff] at h
  have positive := Shape.positive_of_broadcastExtents? outer (compactA.reshape laidA).positive
    (compactB.reshape laidB).positive
  refine ⟨?_, compact_of_ofFloats positive h⟩
  obtain ⟨dtypeA, shapeA, -⟩ := reshape_eq_ok_iff.mp laidA
  obtain ⟨dtypeB, shapeB, -⟩ := reshape_eq_ok_iff.mp laidB
  have stretched := Shape.stretched?_of_broadcastExtents? outer
  rw [shapeA, shapeB, pattern_of_reshape laidA, pattern_of_reshape laidB] at h
  rw [shapeA, shapeB] at stretched
  rw [combine?, stretched, Option.bind_eq_bind, Option.bind_some,
    if_pos ⟨dtypeA.symm.trans singleA, dtypeB.symm.trans singleB⟩, tabulate?, toOption_eq_some_iff,
    h]

/-- The elementwise kernel on a tensor and a constant of one number scales the tensor. -/
theorem scaledBy?_of_elementWise {factor : UInt64} (other : factor ≠ Binary.doubleOne)
    (compact : a.Compact)
    (scalar : ofFloats (List.replicate a.rank 1) [Binary.narrow factor] = .ok b)
    (h : a.elementWise b .prod = .ok t) : a.scaledBy? factor = some t := by
  obtain ⟨-, single, shapeB, numbers⟩ := ofFloats_eq_ok_iff.mp scalar
  obtain ⟨-, singleA, -, dims, inferred, concrete⟩ := elementWise_type h
  have knownA := compact.known singleA
  have knownB : b.Known := by
    rw [Known, Tensor.dims, Dims.ofShape, shapeB, Shape.toDims, List.map_replicate,
      List.map_replicate]
    rfl
  have outer := inferBroadcast_eq_ok_iff.mp inferred
  rw [knownA, knownB, shapeB] at outer
  obtain ⟨shape, rfl, -, -⟩ := stretches_of_broadcastExtents? outer
  have stretched : Shape.stretched? a.shape (List.replicate a.rank 1) = some a.shape :=
    Shape.stretched?_ones a.shape
  obtain rfl : shape = a.shape :=
    Option.some.inj ((Shape.stretched?_of_broadcastExtents? outer).symm.trans stretched)
  rw [elementWise_eq knownA knownB singleA single inferred, mapError_eq_ok_iff, shapeB] at h
  rw [scaledBy?, if_neg other, if_pos singleA, tabulate?, toOption_eq_some_iff, ← h]
  -- The tensor is read at its own position, and the constant at its only one.
  refine congrArg _ (List.map_congr_left fun position member => ?_)
  rw [Shape.spread_self (List.mem_range.mp member), Shape.spread_ones, pattern, pattern, numbers]
  rfl

/-- Scaling a tensor under another shape is scaling the tensor. -/
theorem scaledBy?_of_reshape {factor : UInt64} {shape : Shape} (compact : b.Compact)
    (laid : b.reshape shape = .ok b') (h : b'.scaledBy? factor = some t) :
    ∃ c, b.scaledBy? factor = some c ∧ c.shape = b.shape ∧ c.Compact ∧ c.reshape shape = .ok t := by
  unfold scaledBy? at h ⊢
  obtain ⟨dtype, same, -⟩ := reshape_eq_ok_iff.mp laid
  by_cases one : factor = Binary.doubleOne
  · rw [if_pos one] at h ⊢
    cases h
    exact ⟨b, rfl, rfl, compact, laid⟩
  · rw [if_neg one, dtype] at h
    rw [if_neg one]
    split at h
    next single =>
      have sizes := size_of_reshape laid
      rw [if_pos single]
      rw [tabulate?, toOption_eq_some_iff, pattern_of_reshape laid, same, sizes] at h
      have scaledCompact := compact_of_ofFloats (sizes ▸ compact.positive) h
      obtain ⟨-, -, shape_eq, -⟩ := ofFloats_eq_ok_iff.mp h
      obtain ⟨c, back⟩ : ∃ c, t.reshape b.shape = .ok c :=
        exists_reshape (by rw [shape_eq, sizes])
      have scaled := ofFloats_of_reshape h scaledCompact back
      refine ⟨c, by rw [tabulate?, toOption_eq_some_iff, scaled],
        (reshape_eq_ok_iff.mp back).2.1, scaledCompact.reshape back, ?_⟩
      rw [reshape_reshape back, ← shape_eq]
      exact reshape_self
    next => cases h

end Tensor

end TensorEngine
