import Mathlib.Algebra.BigOperators.Ring.List
import Mathlib.Algebra.Ring.Int.Defs
import TensorEngine.Proofs.Execution.Agreement
import TensorEngine.Proofs.Execution.Operations
import TensorEngine.Proofs.Lowering.Shuffles

/-!
# Extents that are not zero

Every extent that inference makes is an extent of an operand, or one that divides a number of elements,
or asked for. If no operand has an extent of zero, then neither has a result, neither in the records of
a network nor in the values of a run.

## Main definitions

* `Values.Compact`: values that have elements

## Main results

* `LayerKind.Infers.zero_notMem`: records without extents of zero
* `Layer.compact_of_compute`: values that have elements
-/

namespace TensorEngine

theorem Copies.zero_notMem {source target dims : Dims} {place : Nat} {place? : Option Nat}
    (h : Copies source place place? target dims) (extents : 0 ∉ source) : 0 ∉ dims := by
  induction h with
  | nil => exact List.not_mem_nil
  | copied entry _ ih =>
    rw [List.mem_cons, not_or]
    exact ⟨fun zero => extents (zero ▸ List.mem_of_getElem? entry), ih⟩
  | inferred _ ih =>
    rw [List.mem_cons, not_or]
    exact ⟨by decide, ih⟩
  | fixed positive _ ih =>
    rw [List.mem_cons, not_or]
    exact ⟨Int.ne_of_lt positive, ih⟩

/-- A reshape makes no extent of zero where there is none. -/
theorem Reshapes.zero_notMem {target? : Option Dims} {source out : Dims}
    (h : Reshapes target? source out) (extents : 0 ∉ source) : 0 ∉ out := by
  cases target? with
  | none => exact (show out = source from h) ▸ extents
  | some target =>
    obtain ⟨copied, place?, copies, completes⟩ := h
    have kept := copies.zero_notMem extents
    cases completes with
    | unknown | undivided | compared => exact kept
    | divided place total known extent volume others product nonzero counts range =>
      -- An inferred extent of zero would make the number of elements zero.
      intro member
      rcases List.mem_or_eq_of_mem_set member with old | rfl
      · exact kept old
      · have none : source.prod = 0 := by
          rw [← Dims.volume_eq_some volume, counts, Int.mul_zero]
        exact extents (List.prod_eq_zero_iff.mp none)

/-- A layer makes no extent of zero where its operands have none. -/
theorem LayerKind.Infers.zero_notMem {kind : LayerKind} {operands : List TensorType}
    {type : TensorType} (h : kind.Infers operands type)
    (constant : ∀ weights, kind = .constant weights → 0 ∉ Dims.ofShape weights.shape)
    (extents : ∀ operand ∈ operands, 0 ∉ operand.dims) : 0 ∉ type.dims := by
  cases h with
  | constant weights => exact constant weights rfl
  | shuffle inferred =>
    obtain ⟨first, second, moved, reshapes, moved'⟩ := inferShuffle_eq_ok_iff.mp inferred
    have source := extents _ List.mem_cons_self
    have reshaped := reshapes.zero_notMem fun zero => source (moved.mem zero)
    exact fun zero => reshaped (moved'.mem zero)
  | matrixMultiply inferred =>
    exact fun zero => (mem_or_mem_of_inferMatrixMultiply inferred zero).elim
      (extents _ List.mem_cons_self) (extents _ (List.mem_cons_of_mem _ List.mem_cons_self))
  | elementWise inferred =>
    exact fun zero => (mem_or_mem_of_broadcastExtents? (inferBroadcast_eq_ok_iff.mp inferred) zero).elim
      (extents _ List.mem_cons_self) (extents _ (List.mem_cons_of_mem _ List.mem_cons_self))

namespace Tensor

variable {a b t u : Tensor}

/-- A tensor that has elements has no extent that is read as zero. -/
theorem Compact.zero_notMem_dims (h : t.Compact) : 0 ∉ Dims.ofShape t.shape := by
  intro member
  obtain ⟨n, listed, zero⟩ := List.mem_map.mp member
  have positive := Shape.size_pos_iff.mp h.positive n listed
  have word := Signed.ofUnsigned_of_nonneg (h.stored.shape n listed) (Int.le_of_eq zero.symm)
  omega

/-- Known extents that two operands with elements lend to a result are positive. -/
theorem positive_of_dims {dims : Dims} {shape : Shape} (compactA : a.Compact) (compactB : b.Compact)
    (singleA : a.dtype = .f32) (singleB : b.dtype = .f32)
    (lent : ∀ d ∈ dims, d ∈ a.dims ∨ d ∈ b.dims) (concrete : dims.toShape? = some shape) :
    0 < shape.size := by
  rw [compactA.known singleA, compactB.known singleB] at lent
  obtain rfl := Dims.toShape?_eq_some_iff.mp concrete
  refine Shape.size_pos_iff.mpr fun n member => ?_
  rcases lent n (List.mem_map_of_mem member) with first | second
  · obtain ⟨m, listed, same⟩ := List.mem_map.mp first
    exact Int.ofNat.inj same ▸ Shape.size_pos_iff.mp compactA.positive m listed
  · obtain ⟨m, listed, same⟩ := List.mem_map.mp second
    exact Int.ofNat.inj same ▸ Shape.size_pos_iff.mp compactB.positive m listed

theorem Compact.matrixMultiply {op0 op1 : MatrixOp} (compactA : a.Compact) (compactB : b.Compact)
    (h : a.matrixMultiply op0 b op1 = .ok t) : t.Compact := by
  obtain ⟨-, singleA, singleB, dims, inferred, concrete⟩ := matrixMultiply_type h
  have positive := positive_of_dims compactA compactB singleA singleB
    (fun _ => mem_or_mem_of_inferMatrixMultiply inferred) concrete
  obtain ⟨_, -, h⟩ := bind_eq_ok_iff.mp h
  obtain ⟨shape, -, h⟩ := bind_eq_ok_iff.mp h
  obtain ⟨_, -, h⟩ := bind_eq_ok_iff.mp h
  obtain ⟨_, -, h⟩ := bind_eq_ok_iff.mp h
  obtain ⟨_, -, h⟩ := bind_eq_ok_iff.mp h
  obtain ⟨_, -, h⟩ := bind_eq_ok_iff.mp h
  split at h
  next =>
    obtain ⟨_, -, h⟩ := bind_eq_ok_iff.mp h
    have made := mapError_eq_ok_iff.mp h
    obtain ⟨-, -, rfl, -⟩ := ofFloats_eq_ok_iff.mp made
    exact compact_of_ofFloats positive made
  next => cases h

theorem Compact.elementWise {op : ElementWiseOp} (compactA : a.Compact) (compactB : b.Compact)
    (h : a.elementWise b op = .ok t) : t.Compact := by
  obtain ⟨-, singleA, singleB, dims, inferred, concrete⟩ := elementWise_type h
  have positive := positive_of_dims compactA compactB singleA singleB
    (fun _ => mem_or_mem_of_broadcastExtents? (inferBroadcast_eq_ok_iff.mp inferred)) concrete
  obtain ⟨_, -, h⟩ := bind_eq_ok_iff.mp h
  obtain ⟨_, -, h⟩ := bind_eq_ok_iff.mp h
  obtain ⟨_, -, h⟩ := bind_eq_ok_iff.mp h
  obtain ⟨_, -, h⟩ := bind_eq_ok_iff.mp h
  obtain ⟨_, -, h⟩ := bind_eq_ok_iff.mp h
  have made := mapError_eq_ok_iff.mp h
  obtain ⟨-, -, rfl, -⟩ := ofFloats_eq_ok_iff.mp made
  exact compact_of_ofFloats positive made

theorem Compact.transposed {order? : Option (List Nat)} (compact : t.Compact)
    (h : t.transposed order? = .ok u) : u.Compact := by
  cases order? with
  | none =>
    cases h
    exact compact
  | some order => exact compact.permute (mapError_eq_ok_iff.mp h)

theorem Compact.reshaped {target? : Option Dims} (compact : t.Compact)
    (h : t.reshaped target? = .ok u) : u.Compact := by
  cases target? with
  | none =>
    cases h
    exact compact
  | some target =>
    obtain ⟨dtype, data, -⟩ := reshaped_eq_ok_iff.mp h
    exact compact.reshape (reshape_eq_ok_iff.mpr ⟨dtype, rfl, data⟩)

theorem Compact.shuffle {spec : ShuffleSpec} (compact : t.Compact) (h : t.shuffle spec = .ok u) :
    u.Compact := by
  obtain ⟨_, first, h⟩ := bind_eq_ok_iff.mp h
  obtain ⟨_, second, third⟩ := bind_eq_ok_iff.mp h
  exact ((compact.transposed first).reshaped second).transposed third

end Tensor

/-- The values that are known have elements. -/
def Values.Compact (values : Values) : Prop :=
  ∀ id t, values.get? id = some t → t.Compact

variable {values next : Values}

theorem Values.Compact.store {id : TensorId} {t : Tensor} (h : values.Compact) (compact : t.Compact)
    (stored : values.store id t = .ok next) : next.Compact := by
  intro other u found
  rw [get?_of_store stored] at found
  split at found
  next => exact Option.some.inj found ▸ compact
  next => exact h other u found

/-- What a layer computes from values that have elements has elements. -/
theorem Layer.compact_of_compute {layer : Layer} {t : Tensor} (compact : values.Compact)
    (constant : ∀ weights, layer.kind = .constant weights → weights.Compact)
    (computed : layer.compute values = .ok t) : t.Compact := by
  have operand : ∀ {position : Nat} {a : Tensor}, layer.operand values position = .ok a →
      a.Compact := fun read => by
    obtain ⟨id, -, found⟩ := operand_eq_ok_iff.mp read
    exact compact id _ found
  unfold compute at computed
  generalize layer.kind = kind at computed constant
  cases kind with
  | constant weights =>
    cases computed
    exact constant _ rfl
  | shuffle spec =>
    obtain ⟨a, first, result⟩ := bind_eq_ok_iff.mp computed
    exact (operand first).shuffle result
  | matrixMultiply op0 op1 =>
    obtain ⟨a, first, computed⟩ := bind_eq_ok_iff.mp computed
    obtain ⟨b, second, result⟩ := bind_eq_ok_iff.mp computed
    exact (operand first).matrixMultiply (operand second) result
  | elementWise op =>
    obtain ⟨a, first, computed⟩ := bind_eq_ok_iff.mp computed
    obtain ⟨b, second, result⟩ := bind_eq_ok_iff.mp computed
    exact (operand first).elementWise (operand second) result

end TensorEngine
