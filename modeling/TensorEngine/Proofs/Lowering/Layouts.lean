import TensorEngine.Lowering.ElementWise
import TensorEngine.Lowering.Products
import TensorEngine.Proofs.Lowering.Operands
import TensorEngine.Proofs.Lowering.Reshaping
import TensorEngine.Proofs.Tensor.Indexing

/-!
# Layouts of single precision tensors

The rules for products and for elementwise operations lay their operands out under other shapes, and
then add one layer that computes. Where all extents are known, none is zero and their product is a
word, every layout is accepted. A layer that computes is accepted exactly if the shapes of its operands
agree, and it computes a value if that fits in memory.

## Main definitions

* `Shape.Counted`: extents that can be laid out
* `Tensor.IsSingle`, `Trial.HoldsSingle`, `Trial.MakesSingle`: single precision tensors of a known
  shape

## Main results

* `Trial.ends_reshape`, `Trial.ends_expandRank`: tensors under other shapes
* `Trial.ends_multiply`, `Trial.ends_combine`: layers that compute
-/

namespace TensorEngine

namespace Shape

/-- No extent is zero, and the number of elements is a signed word. -/
structure Counted (shape : Shape) : Prop where
  positive : ∀ n ∈ shape, 0 < n
  fits : (shape.size : Int) ≤ Signed.greatest

instance (shape : Shape) : Decidable shape.Counted :=
  decidable_of_iff ((∀ n ∈ shape, 0 < n) ∧ (shape.size : Int) ≤ Signed.greatest)
    ⟨fun ⟨positive, fits⟩ => ⟨positive, fits⟩, fun h => ⟨h.positive, h.fits⟩⟩

variable {shape shape' : Shape}

theorem Counted.of_size (h : shape.Counted) (sizes : shape'.size = shape.size) : shape'.Counted where
  positive := by
    rw [← size_pos_iff, sizes, size_pos_iff]
    exact h.positive
  fits := sizes ▸ h.fits

theorem rank_toDims (shape : Shape) : Dims.rank shape.toDims = shape.rank :=
  List.length_map _

theorem count_toDims (shape : Shape) : shape.toDims.count (-1) = 0 := by
  refine List.count_eq_zero.mpr fun member => ?_
  obtain ⟨n, -, negative⟩ := List.mem_map.mp member
  omega

/-- A matrix product of known dimensions is accepted if the inner extents agree and the stacks are
broadcast. -/
theorem inferMatrixMultiply_toDims {stackA stackB : Shape} {m k k' n : Nat} {out : Dims} :
    inferMatrixMultiply (toDims (stackA ++ [m, k])) .none (toDims (stackB ++ [k', n])) .none =
        .ok out ↔
      k = k' ∧ ∃ stack, stretched? stackA stackB = some stack ∧ out = toDims (stack ++ [m, n]) := by
  have parts : ∀ (stack : Shape) (rows columns : Nat), toDims (stack ++ [rows, columns]) =
      stack.toDims ++ [(rows : Int), (columns : Int)] := fun _ _ _ => List.map_append
  rw [inferMatrixMultiply_eq_ok_iff, parts, parts]
  constructor
  · rintro ⟨_, _, _, _, _, _, outer, left, right, agree, broadcast, rfl⟩
    obtain ⟨rfl, rowsA⟩ := List.append_inj' left rfl
    obtain ⟨rfl, rowsB⟩ := List.append_inj' right rfl
    cases rowsA
    cases rowsB
    rw [broadcastExtents?_toDims, Option.map_eq_some_iff] at broadcast
    obtain ⟨stack, stretched, rfl⟩ := broadcast
    refine ⟨?_, stack, stretched, (parts stack m n).symm⟩
    simp only [MatrixOp.orient] at agree
    omega
  · rintro ⟨rfl, stack, stretched, rfl⟩
    refine ⟨_, _, _, _, _, _, stack.toDims, rfl, rfl, fun h => h.2.2 rfl, ?_, parts stack m n⟩
    rw [broadcastExtents?_toDims, stretched]
    rfl

/-- Extents of one are put in front of known dimensions as of a shape. -/
theorem expandedDims_toDims {shape : Shape} {rank : Nat} (lower : shape.rank ≤ rank) :
    Lowering.expandedDims shape.toDims rank = .ok (shape.padded rank).toDims := by
  rw [Lowering.expandedDims, rank_toDims, Unsigned.sub, if_pos lower, ok_bind]
  simp [padded, toDims, pure, Except.pure]

/-- Known dimensions are broadcast as shapes are. -/
theorem inferBroadcast_toDims {xs ys : Shape} {out : Dims} :
    inferBroadcast xs.toDims ys.toDims = .ok out ↔
      ∃ shape, stretched? xs ys = some shape ∧ out = shape.toDims := by
  rw [inferBroadcast_eq_ok_iff, broadcastExtents?_toDims, Option.map_eq_some_iff]
  simp only [eq_comm (a := out)]

end Shape

/-- A single precision tensor of this shape that has elements and fits in memory. -/
structure Tensor.IsSingle (t : Tensor) (shape : Shape) : Prop where
  compact : t.Compact
  single : t.dtype = .f32
  shape : t.shape = shape

namespace Tensor.IsSingle

variable {t u : Tensor} {shape shape' : Shape}

theorem known (h : t.IsSingle shape) : t.dims = shape.toDims :=
  (h.compact.known h.single).trans (congrArg Shape.toDims h.shape)

theorem size_pos (h : t.IsSingle shape) : 0 < shape.size :=
  h.shape ▸ h.compact.positive

/-- The bytes of the tensor are counted by a word. -/
theorem bytes (h : t.IsSingle shape) : 4 * shape.size < Unsigned.bound := by
  have bytes := h.compact.bytes
  rwa [h.single, h.shape] at bytes

theorem reshape (h : t.IsSingle shape) (laid : t.reshape shape' = .ok u) : u.IsSingle shape' :=
  have ⟨dtype, same, _⟩ := reshape_eq_ok_iff.mp laid
  ⟨h.compact.reshape laid, dtype.trans h.single, same⟩

/-- The kernel for matrix products makes a tensor of the rows of the first operand and the columns of
the second one. -/
theorem multiplied {stackA stackB stack : Shape} {m k n : Nat} (hA : t.IsSingle (stackA ++ [m, k]))
    (hB : u.IsSingle (stackB ++ [k, n])) (stretched : Shape.stretched? stackA stackB = some stack)
    {v : Tensor} (h : t.matrixMultiply .none u .none = .ok v) : v.IsSingle (stack ++ [m, n]) := by
  obtain ⟨stackA', stackB', stack', m', k', n', shapeA, shapeB, stretched', -, positive, kernel⟩ :=
    matrixMultiply_eq_ok hA.compact hB.compact h
  obtain ⟨rfl, rowsA⟩ := List.append_inj' (hA.shape.symm.trans shapeA) rfl
  obtain ⟨rfl, rowsB⟩ := List.append_inj' (hB.shape.symm.trans shapeB) rfl
  cases rowsA
  cases rowsB
  cases stretched.symm.trans stretched'
  obtain ⟨-, single, same, -⟩ := ofFloats_eq_ok_iff.mp kernel
  exact ⟨compact_of_ofFloats positive kernel, single, same⟩

/-- The elementwise kernel makes a tensor of the shape that the operands stretch to. -/
theorem combined {op : ElementWiseOp} {out : Shape} (hA : t.IsSingle shape) (hB : u.IsSingle shape')
    (stretched : Shape.stretched? shape shape' = some out) {v : Tensor}
    (h : t.elementWise u op = .ok v) : v.IsSingle out := by
  have inferred : inferBroadcast t.dims u.dims = .ok out.toDims := by
    rw [hA.known, hB.known, Shape.inferBroadcast_toDims]
    exact ⟨out, stretched, rfl⟩
  rw [elementWise_eq (hA.compact.known hA.single) (hB.compact.known hB.single) hA.single hB.single
    inferred, mapError_eq_ok_iff] at h
  have positive := Shape.size_pos_of_stretched? stretched hA.size_pos hB.size_pos
  obtain ⟨-, single, same, -⟩ := ofFloats_eq_ok_iff.mp h
  exact ⟨compact_of_ofFloats positive h, single, same⟩

end Tensor.IsSingle

namespace Lowering

open Program

variable {node : Node} {state : State} {x y : TensorId}

namespace Trial

variable {trial : Trial} {P Q : Values → Tensor → Prop} {shape shape' : Shape}
  {fair : RuleError → Prop}

/-- A tensor that is recorded as a single precision one of this shape has such values. -/
abbrev HoldsSingle (trial : Trial) (state : State) (x : TensorId) (shape : Shape)
    (P : Values → Tensor → Prop) : Prop :=
  trial.Holds state x ⟨.f32, shape.toDims⟩ fun values t => t.IsSingle shape ∧ P values t

/-- A state that is reached with a single precision tensor of this shape. -/
abbrev MakesSingle (trial : Trial) (state : State) (shape : Shape) (P : Values → Tensor → Prop) :
    TensorId → State → Prop :=
  trial.Makes state ⟨.f32, shape.toDims⟩ fun values t => t.IsSingle shape ∧ P values t

/-- A constant layer makes its single precision constant. -/
theorem ends_constant_single {name : String} {weights : Tensor} (reaches : trial.Reaches state)
    (isSingle : weights.IsSingle shape) :
    (Lowering.perform (.addConstant name weights)).EndsFrom state fair
      (trial.MakesSingle state shape fun _ t => t = weights) := by
  have made : (Lowering.perform (.addConstant name weights)).EndsFrom state fair
      (trial.Makes state ⟨weights.dtype, weights.dims⟩ fun _ t => t = weights) :=
    ends_constant reaches weights
  rw [isSingle.single, isSingle.known] at made
  refine made.mono fun z next made => made.mono ?_
  rintro values _ - rfl
  exact ⟨isSingle, rfl⟩

section Layouts

variable (reaches : trial.Reaches state) (holds : trial.HoldsSingle state x shape P)
  (counted : shape.Counted)
include reaches holds counted

/-- A reshape to a target that a shape of as many elements fills lays the tensor out under it. -/
theorem ends_reshape {target : Dims} {part : String} (fills : Shape.Fills shape 0 target shape')
    (once : target.count (-1) ≤ 1) (sizes : shape'.size = shape.size) :
    (Lowering.reshape node x target part).EndsFrom state fair
      (trial.MakesSingle state shape' fun values u => ∃ t,
        (t.IsSingle shape ∧ P values t) ∧ t.reshape shape' = .ok u) := by
  have reshapes := fills.reshapes once sizes counted.positive counted.fits
  refine (ends_laid reaches (fun _ => shape') holds (fun refused => absurd reshapes (refused _))
    ?_).mono ?_
  · rintro out - values t - ⟨⟨-, -, rfl⟩, -⟩
    exact Tensor.shuffle_of_fills fills once sizes counted.positive counted.fits
  · rintro z next ⟨out, same, made⟩
    cases same.unique reshapes
    refine made.mono ?_
    rintro values u - ⟨t, known, laid⟩
    exact ⟨known.1.reshape laid, t, known, laid⟩

/-- A reshape to positive extents lays the tensor out under them. -/
theorem ends_reshape_toDims {part : String} (sizes : shape'.size = shape.size) :
    (Lowering.reshape node x shape'.toDims part).EndsFrom state fair
      (trial.MakesSingle state shape' fun values u => ∃ t,
        (t.IsSingle shape ∧ P values t) ∧ t.reshape shape' = .ok u) :=
  ends_reshape reaches holds counted (.literal (counted.of_size sizes).positive)
    (by rw [Shape.count_toDims]; exact Nat.zero_le 1) sizes

/-- Prepending extents of one lays the tensor out under the padded shape. -/
theorem ends_expandRank {rank : Nat} {part : String} :
    (expandRank node x rank part).EndsFrom state fair
      (trial.MakesSingle state (shape.padded rank) fun values u => ∃ t,
        (t.IsSingle shape ∧ P values t) ∧ t.reshape (shape.padded rank) = .ok u) := by
  refine .dimsOf_bind holds.recorded ?_
  rw [Shape.rank_toDims]
  split
  next high =>
    rw [Shape.padded_of_le high]
    refine .pure (.of_holds reaches (holds.mono fun values t _ known => ⟨known.1, t, known, ?_⟩))
    obtain rfl := known.1.shape
    exact Tensor.reshape_self
  next low =>
    refine .requireStatic_bind (Dims.isStatic_toDims shape)
      (.ofExcept_bind (Shape.expandedDims_toDims (Nat.le_of_not_le low)) ?_)
    exact ends_reshape_toDims reaches holds counted (Shape.size_padded rank shape)

end Layouts

/-! ### Layers that compute -/

section Computations

variable {shapeA shapeB : Shape} (reaches : trial.Reaches state)
  (holdsA : trial.HoldsSingle state x shapeA P) (holdsB : trial.HoldsSingle state y shapeB Q)
include reaches holdsA holdsB

/-- The matrix product of two stacks of matrices is accepted if the inner extents agree and the stacks
are broadcast, and the numbers of its result are computed if they fit in memory. -/
theorem ends_multiply {stackA stackB : Shape} {m k k' n : Nat} (formA : shapeA = stackA ++ [m, k])
    (formB : shapeB = stackB ++ [k', n])
    (room : trial.fits → k = k' → ∀ stack, Shape.stretched? stackA stackB = some stack →
      (Unsigned.product? 4 (stack ++ [m, n])).isSome) :
    (multiply node x y).EndsFrom state
      (fun _ => ¬(k = k' ∧ (Shape.stretched? stackA stackB).isSome)) fun z next =>
      k = k' ∧ ∃ stack, Shape.stretched? stackA stackB = some stack ∧
        trial.MakesSingle state (stack ++ [m, n]) (fun values t => ∃ a b,
          (a.IsSingle shapeA ∧ P values a) ∧ (b.IsSingle shapeB ∧ Q values b) ∧
            a.matrixMultiply .none b .none = .ok t) z next := by
  by_cases accepted : k = k' ∧ (Shape.stretched? stackA stackB).isSome
  · obtain ⟨inner, outer⟩ := accepted
    obtain ⟨stack, stretched⟩ := Option.isSome_iff_exists.mp outer
    have infers : inferMatrixMultiply shapeA.toDims .none shapeB.toDims .none =
        .ok (Shape.toDims (stack ++ [m, n])) := by
      rw [formA, formB, Shape.inferMatrixMultiply_toDims]
      exact ⟨inner, stack, stretched, rfl⟩
    refine (ends_pair (e := .addMatrixMultiply _ x .none y .none)
      (f := fun a b => a.matrixMultiply .none b .none) reaches rfl rfl holdsA holdsB
      (.matrixMultiply infers) (fun operand a b first second => ?_)
      fun fits values a b knownA knownB => ?_).mono fun z next made =>
        ⟨inner, stack, stretched, made.mono ?_⟩
    · simp [LayerKind.compute?, first, second]
    · refine Tensor.matrixMultiply_progress
        (knownA.1.compact.known knownA.1.single) (knownB.1.compact.known knownB.1.single)
        knownA.1.single knownB.1.single (knownA.1.known.symm ▸ knownB.1.known.symm ▸ infers)
        fun shape same => ?_
      exact Dims.toDims_injective same ▸ room fits inner stack stretched
    · rintro values t - ⟨a, b, knownA, knownB, multiplied⟩
      refine ⟨?_, a, b, knownA, knownB, multiplied⟩
      subst formA formB inner
      exact knownA.1.multiplied knownB.1 stretched multiplied
  · refine refused_pair (e := .addMatrixMultiply _ x .none y .none) rfl rfl holdsA holdsB ?_
      fun _ => accepted
    intro type infers
    cases infers with | matrixMultiply inferred => ?_
    rw [formA, formB, Shape.inferMatrixMultiply_toDims] at inferred
    obtain ⟨inner, stack, stretched, -⟩ := inferred
    exact accepted ⟨inner, Option.isSome_of_mem stretched⟩

/-- An elementwise layer over two tensors of equal rank is accepted if they are broadcast, and the
numbers of its result are computed if they fit in memory. -/
theorem ends_combine {op : ElementWiseOp} {part : String}
    (room : trial.fits → ∀ values a b, a.IsSingle shapeA ∧ P values a →
      b.IsSingle shapeB ∧ Q values b → ∀ shape, Shape.stretched? shapeA shapeB = some shape →
      (Unsigned.product? 4 shape).isSome) :
    (combine node x y op part).EndsFrom state
      (fun _ => Shape.stretched? shapeA shapeB = none) fun z next =>
      ∃ shape, Shape.stretched? shapeA shapeB = some shape ∧
        trial.MakesSingle state shape (fun values t => ∃ a b,
          (a.IsSingle shapeA ∧ P values a) ∧ (b.IsSingle shapeB ∧ Q values b) ∧
            a.elementWise b op = .ok t) z next := by
  cases stretched : Shape.stretched? shapeA shapeB with
  | some shape =>
    have infers := Shape.inferBroadcast_toDims.mpr ⟨shape, stretched, rfl⟩
    refine (ends_pair (e := .addElementWise _ x y op) (f := fun a b => a.elementWise b op) reaches
      rfl rfl holdsA holdsB (.elementWise infers) (fun operand a b first second => ?_)
      fun fits values a b knownA knownB => ?_).mono fun z next made => ⟨shape, rfl, made.mono ?_⟩
    · simp [LayerKind.compute?, first, second]
    · refine Tensor.elementWise_progress
        (knownA.1.compact.known knownA.1.single) (knownB.1.compact.known knownB.1.single)
        knownA.1.single knownB.1.single (knownA.1.known.symm ▸ knownB.1.known.symm ▸ infers)
        fun shape' same => ?_
      exact Dims.toDims_injective same ▸ room fits values a b knownA knownB shape stretched
    · rintro values t - ⟨a, b, knownA, knownB, combined⟩
      exact ⟨knownA.1.combined knownB.1 stretched combined, a, b, knownA, knownB, combined⟩
  | none =>
    refine refused_pair (e := .addElementWise _ x y op) rfl rfl holdsA holdsB ?_ fun _ => rfl
    intro type infers
    cases infers with | elementWise inferred => ?_
    obtain ⟨shape, found, -⟩ := Shape.inferBroadcast_toDims.mp inferred
    cases stretched.symm.trans found

end Computations

end Trial

end Lowering

end TensorEngine
