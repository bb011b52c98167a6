import TensorEngine.Proofs.Positions
import TensorEngine.Proofs.Words

/-!
# Cells of tensors

The data of a tensor is the sequence of its cells, one for every position and each as wide as an
element. A tensor is determined by its element type, its shape and its cells; for a single precision
tensor the patterns of its numbers take the place of the cells.

## Main definitions

* `Tensor.patterns`: the patterns of single precision elements
* `Tensor.cellAt?`: the cell at a multi-index

## Main results

* `Tensor.ofCells_eq_ok_iff`, `Tensor.ofFloats_eq_ok_iff`: tensors with given cells or numbers
* `Tensor.ext_cells`, `Tensor.ext_patterns`: tensors are determined by their cells or numbers
* `Tensor.permute_eq_ok_iff`: a permutation moves every cell to the rearranged multi-index
-/

namespace TensorEngine

namespace Bytes

theorem length_of_mem_chunks {width count : Nat} {bytes cell : Bytes}
    (length : bytes.length = width * count) (member : cell ∈ chunks width count bytes) :
    cell.length = width := by
  induction count generalizing bytes with
  | zero => cases member
  | succ count ih =>
    rw [Nat.mul_succ] at length
    rcases List.mem_cons.mp member with rfl | later
    · rw [List.length_take]
      omega
    · exact ih (by rw [List.length_drop]; omega) later

theorem length_flatten {width : Nat} {cells : List Bytes}
    (widths : ∀ cell ∈ cells, cell.length = width) :
    cells.flatten.length = width * cells.length := by
  induction cells with
  | nil => rfl
  | cons cell cells ih =>
    rw [List.forall_mem_cons] at widths
    rw [List.flatten_cons, List.length_append, ih widths.2, widths.1, List.length_cons,
      Nat.mul_succ, Nat.add_comm]

/-- Cutting a byte string that was put together from cells gives the cells. -/
theorem chunks_flatten {width : Nat} {cells : List Bytes}
    (widths : ∀ cell ∈ cells, cell.length = width) :
    chunks width cells.length cells.flatten = cells := by
  induction cells with
  | nil => rfl
  | cons cell cells ih =>
    rw [List.forall_mem_cons] at widths
    simp only [List.flatten_cons, List.length_cons, chunks]
    rw [List.take_left' widths.1, List.drop_left' widths.1, ih widths.2]

end Bytes

namespace Tensor

variable {t u : Tensor} {dtype : DType} {shape : Shape} {order : List Nat}

theorem length_of_mem_cells {cell : Bytes} (member : cell ∈ t.cells) :
    cell.length = t.dtype.size :=
  Bytes.length_of_mem_chunks t.length_data member

/-- Tensors with the same element type, shape and cells are the same. -/
theorem ext_cells (dtype : t.dtype = u.dtype) (shape : t.shape = u.shape)
    (cells : t.cells = u.cells) : t = u := by
  refine ext_data dtype shape ?_
  rw [← t.flatten_cells, cells, u.flatten_cells]

/-- Cells of the right width and number are the cells of a tensor. -/
theorem ofCells_eq_ok_iff {cells : List Bytes} (widths : ∀ cell ∈ cells, cell.length = dtype.size)
    (count : cells.length = shape.size) :
    ofCells dtype shape cells = .ok t ↔ t.dtype = dtype ∧ t.shape = shape ∧ t.cells = cells := by
  have length := Bytes.length_flatten widths
  rw [count] at length
  rw [ofCells, dif_pos length, Except.ok.injEq]
  constructor
  · rintro rfl
    refine ⟨rfl, rfl, ?_⟩
    simp only [Tensor.cells, size]
    rw [← count]
    exact Bytes.chunks_flatten widths
  · rintro ⟨rfl, rfl, rfl⟩
    exact ext_data rfl rfl t.flatten_cells

/-- The patterns of single precision elements. -/
def patterns (t : Tensor) : List UInt32 :=
  t.cells.map fun cell => UInt32.ofNat cell.toNat

@[simp]
theorem length_patterns (t : Tensor) : t.patterns.length = t.shape.size := by
  simp [patterns]

theorem floats_eq_ok_iff {xs : List UInt32} :
    t.floats = .ok xs ↔ t.dtype = .f32 ∧ xs = t.patterns := by
  unfold floats
  split
  next single => simp [single, patterns, eq_comm]
  next other => simp [other]

theorem toNat_ofNat_pattern (w : UInt32) :
    UInt32.ofNat (Bytes.toNat (Bytes.ofNat 4 w.toNat)) = w := by
  rw [Bytes.toNat_ofNat, Nat.pow_eq, Nat.mod_eq_of_lt w.toNat_lt, UInt32.ofNat_toNat]

/-- Single precision tensors with the same shape and numbers are the same. -/
theorem ext_patterns (single : t.dtype = .f32) (single' : u.dtype = .f32)
    (shape : t.shape = u.shape) (patterns : t.patterns = u.patterns) : t = u := by
  have restore : ∀ {t : Tensor}, t.dtype = .f32 →
      t.patterns.map (fun w => Bytes.ofNat 4 w.toNat) = t.cells := by
    intro t single
    rw [Tensor.patterns, List.map_map]
    refine (List.map_congr_left fun cell member => ?_).trans (List.map_id _)
    have width : cell.length = 4 := by rw [length_of_mem_cells member, single]; rfl
    have small : Bytes.toNat cell < UInt32.size := by
      simpa [width, UInt32.size] using Bytes.toNat_lt cell
    rw [Function.comp_apply, UInt32.toNat_ofNat_of_lt' small, ← width, Bytes.ofNat_toNat, id]
  refine ext_cells (single.trans single'.symm) shape ?_
  rw [← restore single, patterns, restore single']

/-- As many numbers as there are positions are the numbers of a tensor whose data fits. -/
theorem ofFloats_eq_ok_iff {xs : List UInt32} :
    ofFloats shape xs = .ok t ↔ ((Unsigned.product? 4 shape).isSome ∧ xs.length = shape.size) ∧
      t.dtype = .f32 ∧ t.shape = shape ∧ t.patterns = xs := by
  have widths : ∀ cell ∈ xs.map (fun w => Bytes.ofNat 4 w.toNat), cell.length = 4 := by
    simp
  have data_eq : (xs.flatMap fun w => Bytes.ofNat 4 w.toNat) =
      (xs.map fun w => Bytes.ofNat 4 w.toNat).flatten := List.flatMap_def ..
  have length := Bytes.length_flatten widths
  rw [List.length_map] at length
  have fits : Unsigned.product? (DType.size .f32) shape =
      some (xs.flatMap fun w => Bytes.ofNat 4 w.toNat).length ↔
      (Unsigned.product? 4 shape).isSome ∧ xs.length = shape.size := by
    rw [data_eq, length]
    constructor
    · intro h
      exact ⟨Option.isSome_of_eq_some h,
        Nat.eq_of_mul_eq_mul_left (by decide) (Unsigned.product?_eq_some h)⟩
    · rintro ⟨some, count⟩
      obtain ⟨n, h⟩ := Option.isSome_iff_exists.mp some
      rw [count]
      exact h.trans (congrArg Option.some (Unsigned.product?_eq_some h))
  rw [ofFloats, ofBytes_eq_ok_iff, fits]
  refine and_congr_right fun ⟨_, count⟩ => and_congr_right fun single =>
    and_congr_right fun same => ?_
  -- Cells are four bytes wide, so the bytes of the words are cut where they were joined.
  have cut : Bytes.chunks 4 xs.length (xs.map fun w => Bytes.ofNat 4 w.toNat).flatten =
      xs.map fun w => Bytes.ofNat 4 w.toNat := by
    simpa using Bytes.chunks_flatten widths
  have written : ∀ u : Tensor, u.dtype = .f32 → u.shape = shape →
      u.data = (xs.flatMap fun w => Bytes.ofNat 4 w.toNat) → u.patterns = xs := by
    intro u single same data
    simp only [patterns, cells, size, single, same, data, data_eq, ← count]
    rw [show DType.size .f32 = 4 from rfl, cut, List.map_map]
    exact (List.map_congr_left fun w _ => toNat_ofNat_pattern w).trans (List.map_id _)
  refine ⟨written t single same, fun entries => ?_⟩
  have lengths : (xs.flatMap fun w => Bytes.ofNat 4 w.toNat).length =
      DType.size .f32 * shape.size := by rw [data_eq, length, count]; rfl
  have other := written ⟨.f32, shape, _, lengths⟩ rfl rfl rfl
  have equal := ext_patterns single rfl same (entries.trans other.symm)
  exact equal ▸ rfl

theorem exists_ofFloats {xs : List UInt32} (fits : (Unsigned.product? 4 shape).isSome)
    (count : xs.length = shape.size) : ∃ t, ofFloats shape xs = .ok t := by
  obtain ⟨n, product⟩ := Option.isSome_iff_exists.mp fits
  have length : (xs.flatMap fun w => Bytes.ofNat 4 w.toNat).length = n := by
    rw [Unsigned.product?_eq_some product, List.length_flatMap]
    simp only [Bytes.length_ofNat, List.map_const', List.sum_replicate_nat, count, Nat.mul_comm]
  have expected : Unsigned.product? (DType.size .f32) shape =
      some (xs.flatMap fun w => Bytes.ofNat 4 w.toNat).length := length ▸ product
  exact ⟨⟨.f32, shape, _, Unsigned.product?_eq_some expected⟩,
    ofBytes_eq_ok_iff.mpr ⟨expected, rfl, rfl, rfl⟩⟩

/-! ### Permutations -/

/-- The cell at a multi-index. -/
def cellAt? (t : Tensor) (idx : List Nat) : Option Bytes :=
  t.cells[t.shape.offset idx]?

/-- The tensor holds the cells of another one with the axes in another order. -/
structure Permuted (order : List Nat) (t u : Tensor) : Prop where
  dtype : u.dtype = t.dtype
  shape : Arranged order t.shape u.shape
  cells : ∀ source idx, Shape.Within source t.shape → Arranged order source idx →
    u.cellAt? idx = t.cellAt? source

theorem cells_eq_of_cellAt? (shape : t.shape = u.shape)
    (cells : ∀ idx, Shape.Within idx t.shape → t.cellAt? idx = u.cellAt? idx) :
    t.cells = u.cells := by
  refine List.ext_getElem? fun position => ?_
  by_cases within : position < t.shape.size
  · have equal := cells _ (Shape.within_index within)
    rwa [cellAt?, cellAt?, ← shape, Shape.offset_index within] at equal
  · rw [List.getElem?_eq_none (by simpa using within),
      List.getElem?_eq_none (by simpa [← shape] using within)]

/-- There is no more than one tensor with the axes in another order. -/
theorem Permuted.unique {v : Tensor} (permutation : IsPermutation order t.rank)
    (h : Permuted order t u) (h' : Permuted order t v) : u = v := by
  have shape := h.shape.unique h'.shape
  refine ext_cells (h.dtype.trans h'.dtype.symm) shape (cells_eq_of_cellAt? shape ?_)
  intro idx within
  have length : idx.length = t.shape.length := by
    rw [List.Forall₂.length_eq within, h.shape.length_eq, permutation.1, rank]
  obtain ⟨source, count, arranged⟩ := Arranged.exists_source permutation length
  have inside : Shape.Within source t.shape :=
    Arranged.forall₂_of (count ▸ permutation) count arranged h.shape within
  rw [h.cells source idx inside arranged, h'.cells source idx inside arranged]

theorem Permuted.size_eq (permutation : IsPermutation order t.rank) (h : Permuted order t u) :
    u.shape.size = t.shape.size := by
  rw [Shape.size_eq_prod, Shape.size_eq_prod]
  exact (h.shape.perm permutation).prod_eq

/-- The walk through as many multi-indices as there are elements, over extents in another order. -/
theorem walk_of_arranged (permutation : IsPermutation order t.rank)
    (extents : Arranged order t.shape shape) :
    Shape.walk shape t.size (List.replicate t.rank 0) =
      (List.range (Shape.size shape)).map (Shape.index shape) := by
  have sizes : t.size = Shape.size shape := by
    rw [size, Shape.size_eq_prod, Shape.size_eq_prod]
    exact (extents.perm permutation).prod_eq.symm
  have ranks : t.rank = shape.rank := by rw [Shape.rank, extents.length_eq, permutation.1]
  rw [sizes, ranks, Shape.walk_eq]

theorem exists_permuted (permutation : IsPermutation order t.rank) :
    ∃ u, t.permute order = .ok u ∧ Permuted order t u := by
  obtain ⟨shape, extents⟩ : ∃ shape, Arranged order t.shape shape :=
    Arranged.exists_of_lt permutation.2.1
  obtain ⟨strides, steps⟩ : ∃ strides, Arranged order t.shape.strides strides :=
    Arranged.exists_of_lt (by rw [Shape.length_strides]; exact permutation.2.1)
  let source (position : Nat) : Nat := Shape.dot (Shape.index shape position) strides
  -- Every position that is read belongs to a multi-index of the original, so it is within the
  -- storage.
  have source_lt : ∀ position ∈ List.range (Shape.size shape), source position < t.cells.length := by
    intro position member
    have within := Shape.within_index (List.mem_range.mp member)
    obtain ⟨idx, -, inside, same⟩ :=
      Shape.exists_index_of_arranged permutation extents steps within
    rw [length_cells, show source position = t.shape.offset idx from same]
    exact Shape.offset_lt inside
  let moved := (List.range (Shape.size shape)).map fun position => t.cells.getD (source position) []
  have collected : (Shape.walk shape t.size (List.replicate t.rank 0)).mapM (fun index =>
      (arrayEntry t.cells.toArray (Shape.dot index strides) : Except TensorError Bytes)) =
        .ok moved := by
    rw [walk_of_arranged permutation extents, List.mapM_map]
    refine mapM_eq_ok_map fun position member => arrayEntry_eq_ok_iff.mpr ?_
    change t.cells[source position]? = _
    rw [List.getD_eq_getElem?_getD, List.getElem?_eq_getElem (source_lt position member),
      Option.getD_some]
  have widths : ∀ cell ∈ moved, cell.length = t.dtype.size := by
    intro cell member
    obtain ⟨position, within, rfl⟩ := List.mem_map.mp member
    rw [List.getD_eq_getElem?_getD, List.getElem?_eq_getElem (source_lt position within)]
    exact length_of_mem_cells (List.getElem_mem _)
  have count : moved.length = (Shape.size shape) := by simp [moved]
  obtain ⟨u, stored⟩ : ∃ u, ofCells t.dtype shape moved = .ok u := by
    rw [ofCells, dif_pos (by rw [Bytes.length_flatten widths, count])]
    exact ⟨_, rfl⟩
  obtain ⟨dtype, shape_eq, cells⟩ := (ofCells_eq_ok_iff widths count).mp stored
  refine ⟨u, ?_, dtype, shape_eq ▸ extents, ?_⟩
  · rw [permute, if_pos permutation]
    simp only [arrange, Arranged.mapM_entry_eq_ok_iff.mpr extents,
      Arranged.mapM_entry_eq_ok_iff.mpr steps, bind, Except.bind]
    exact (congrArg (Except.bind · _) collected).trans stored
  · intro idx target inside arranged
    have within : Shape.Within target shape := arranged.forall₂ inside extents
    have position_lt := Shape.offset_lt within
    have length : idx.length = t.shape.length := List.Forall₂.length_eq inside
    have same : source (Shape.offset shape target) = t.shape.offset idx := by
      simp only [source, Shape.index_offset within]
      exact Shape.dot_arranged (length ▸ permutation)
        (length.trans (Shape.length_strides t.shape).symm) arranged steps
    have inside_lt : t.shape.offset idx < t.cells.length := by
      rw [length_cells]
      exact Shape.offset_lt inside
    rw [cellAt?, cellAt?, cells, shape_eq, List.getElem?_map, List.getElem?_range position_lt,
      Option.map_some, same, List.getD_eq_getElem?_getD, List.getElem?_eq_getElem inside_lt,
      Option.getD_some]

/-- A permutation of the axes puts every cell at the rearranged multi-index. -/
theorem permute_eq_ok_iff :
    t.permute order = .ok u ↔ IsPermutation order t.rank ∧ Permuted order t u := by
  by_cases permutation : IsPermutation order t.rank
  · obtain ⟨v, accepted, permuted⟩ := exists_permuted permutation
    rw [accepted, Except.ok.injEq]
    constructor
    · rintro rfl
      exact ⟨permutation, permuted⟩
    · exact fun h => permuted.unique permutation h.2
  · rw [permute, if_neg permutation]
    exact iff_of_false nofun fun h => permutation h.1

end Tensor

end TensorEngine
