import TensorEngine.Proofs.Network.Calls
import TensorEngine.Proofs.Network.Refusals
import TensorEngine.Proofs.Network.Words

/-!
# Dimensions that a machine can represent

The extents of a tensor are words, and so is the number of its axes. Inference keeps to both: it moves
and copies extents, makes new ones only by divisions, and its results have as many axes as one of the
operands or as the target of the reshape. A call that builds a network is accepted or refused, and never
runs into a fault.

## Main definitions

* `Dims.Representable`: dimensions that are words, and not too many
* `Network.Edit.Representable`: calls whose dimensions are representable
* `Network.Representable`: networks that only record such dimensions

## Main results

* `LayerKind.Infers.representable`: inference keeps to representable dimensions
* `Network.call_orderly`: calls are accepted or refused
* `Network.Representable.step`: accepted calls keep a network representable
-/

namespace TensorEngine

/-- The extents are words, and their number is one. -/
def Dims.Representable (dims : Dims) : Prop :=
  dims.InWords ∧ (dims.rank : Int) ≤ Signed.greatest

instance (dims : Dims) : Decidable dims.Representable :=
  inferInstanceAs (Decidable (_ ∧ _))

/-! ### Ranks -/

theorem Transposes.rank_eq {order? : Option (List Nat)} {dims out : Dims}
    (h : Transposes order? dims out) : out.rank = dims.rank :=
  h.perm.length_eq

theorem Copies.rank_eq {source target dims : Dims} {place : Nat} {place? : Option Nat}
    (h : Copies source place place? target dims) : dims.rank = target.rank := by
  induction h with
  | nil => rfl
  | copied | inferred | fixed => simpa [Dims.rank]

theorem Completes.rank_eq {source copied out : Dims} {place? : Option Nat}
    (h : Completes source copied place? out) : out.rank = copied.rank := by
  cases h with
  | unknown | undivided | compared => rfl
  | divided => simp [Dims.rank]

/-- A reshape has as many axes as its target. -/
theorem Reshapes.rank_eq {source target out : Dims} (h : Reshapes (some target) source out) :
    out.rank = target.rank := by
  obtain ⟨copied, place?, copies, completes⟩ := h
  rw [completes.rank_eq, copies.rank_eq]

theorem rank_of_broadcastExtents? {lhs rhs out : Dims} (h : broadcastExtents? lhs rhs = some out) :
    out.rank = lhs.rank := by
  induction lhs generalizing rhs out with
  | nil =>
    cases rhs with
    | nil => cases h; rfl
    | cons => cases h
  | cons a lhs ih =>
    cases rhs with
    | nil => cases h
    | cons b rhs =>
      simp only [broadcastExtents?, Option.bind_eq_bind, Option.bind_eq_some_iff] at h
      obtain ⟨d, -, rest, tail, result⟩ := h
      cases result
      exact congrArg Nat.succ (ih tail)

/-- A matrix product has at least two axes, and as many as its operands. -/
theorem rank_of_inferMatrixMultiply {lhs rhs out : Dims} {op0 op1 : MatrixOp}
    (h : inferMatrixMultiply lhs op0 rhs op1 = .ok out) : out.rank = lhs.rank ∧ 2 ≤ out.rank := by
  obtain ⟨stack0, _, _, stack1, _, _, stack, rfl, rfl, -, outer, rfl⟩ :=
    inferMatrixMultiply_eq_ok_iff.mp h
  have rank : stack.length = stack0.length := rank_of_broadcastExtents? outer
  simp [Dims.rank, rank]

/-! ### Layers -/

/-- A constant has a representable number of axes, and a reshape has a representable target. -/
def LayerKind.Representable : LayerKind → Prop
  | .constant weights => (weights.rank : Int) ≤ Signed.greatest
  | .shuffle spec => ∀ target ∈ spec.reshape, Dims.Representable target
  | .matrixMultiply _ _ | .elementWise _ => True

/-- Inference keeps to representable dimensions. -/
theorem LayerKind.Infers.representable {kind : LayerKind} {operands : List TensorType}
    {type : TensorType} (h : kind.Infers operands type) (layer : kind.Representable)
    (recorded : ∀ operand ∈ operands, operand.dims.Representable) : type.dims.Representable := by
  have words : type.dims.InWords := by
    refine h.inWords ?_ fun operand member => (recorded operand member).1
    rintro spec rfl target given
    exact (layer target given).1
  refine ⟨words, ?_⟩
  -- The number of axes is that of the constant, of the first operand or of the target.
  cases h with
  | constant weights =>
    rw [Dims.rank, Dims.ofShape, List.length_map]
    exact layer
  | @shuffle spec source dims inferred =>
    obtain ⟨first, second, moved, reshapes, moved'⟩ := inferShuffle_eq_ok_iff.mp inferred
    rw [moved'.rank_eq]
    cases given : spec.reshape with
    | none =>
      rw [given] at reshapes
      obtain rfl : second = first := reshapes
      rw [moved.rank_eq]
      exact (recorded source List.mem_cons_self).2
    | some target =>
      rw [given] at reshapes
      rw [reshapes.rank_eq]
      exact (layer target given).2
  | matrixMultiply inferred =>
    rw [(rank_of_inferMatrixMultiply inferred).1]
    exact (recorded _ List.mem_cons_self).2
  | elementWise inferred =>
    rw [rank_of_broadcastExtents? (inferBroadcast_eq_ok_iff.mp inferred)]
    exact (recorded _ List.mem_cons_self).2

namespace Network

variable {network next : Network} {e : Edit} {id : TensorId}

/-- The dimensions of an input are representable, and so are those of a layer that a call adds. -/
structure Edit.Representable (e : Edit) : Prop where
  input : ∀ name dtype dims, e = .addInput name dtype dims → dims.Representable
  kind : ∀ kind, e.kind? = some kind → kind.Representable

theorem Edit.representable_of_kind? {kind : LayerKind} (adds : e.kind? = some kind)
    (layer : kind.Representable) : e.Representable where
  input := by
    rintro name dtype dims rfl
    cases adds
  kind := fun kind' adds' => by
    cases adds.symm.trans adds'
    exact layer

/-- All recorded dimensions are representable. -/
def Representable (network : Network) : Prop :=
  ∀ type ∈ network.types, type.dims.Representable

namespace Representable

theorem empty : Network.empty.Representable :=
  nofun

theorem of_tensor (h : network.Representable) {t : NetworkTensor} (known : network.tensor id = .ok t) :
    t.dims.Representable :=
  h t.type (List.mem_of_getElem? (types_getElem?_of_tensor known))

theorem push (h : network.Representable) {t : NetworkTensor} (dims : t.dims.Representable) :
    (network.push t).Representable := by
  intro type member
  rcases List.mem_append.mp (types_push _ ▸ member) with old | new
  · exact h type old
  · exact List.mem_singleton.mp new ▸ dims

/-- An accepted call keeps a network representable. -/
theorem step (h : network.Representable) (call : e.Representable) (taken : network.Step e id next) :
    next.Representable := by
  cases taken with
  | input fresh => exact h.push (call.input _ _ _ rfl)
  | layer adds known infers =>
    refine h.push (infers.representable (call.kind _ adds) fun operand member => ?_)
    obtain ⟨_, -, entry⟩ := forall₂_mem_right known member
    exact h operand (List.mem_of_getElem? entry)
  | output known unmarked fresh => exact fun type member => h type (types_rename _ _ ▸ member)

end Representable

/-! ### Refusals -/

theorem tensor_orderly (network : Network) (id : TensorId) :
    Ends (fun e => e.isOrderly) (fun t => network.tensor id = .ok t) (network.tensor id) := by
  unfold tensor
  split <;> simp_all [Ends, NetworkError.isOrderly]

theorem operands_orderly (network : Network) (lhs rhs : TensorId) :
    Ends (fun e => e.isOrderly) (fun _ => True) (network.operands lhs rhs) := by
  refine (network.tensor_orderly lhs).bind fun a _ _ => ?_
  refine (network.tensor_orderly rhs).bind fun b _ _ => ?_
  split
  · trivial
  · exact rfl

theorem checkFresh_orderly (network : Network) (name : String) :
    Ends (fun e => e.isOrderly) (fun _ => True) (network.checkFresh name) := by
  unfold checkFresh
  split
  · exact rfl
  · trivial

theorem checkUnmarked_orderly (network : Network) (id : TensorId) :
    Ends (fun e => e.isOrderly) (fun _ => True) (network.checkUnmarked id) := by
  refine (network.tensor_orderly id).bind fun existing _ _ => ?_
  split
  · exact rfl
  · trivial

/-- What is looked up first ends as it does on its own, or the rest decides. -/
theorem ends_look_bind {α β : Type} {fair : NetworkError → Prop} {post : α → Prop} {post' : β → Prop}
    {lookup : Network → Except NetworkError α} {later : α → Building β}
    (h : Ends fair post (lookup network)) (rest : ∀ a, Ends fair post' (later a network).1) :
    Ends fair post' ((Building.look lookup >>= later) network).1 := by
  simp only [Building.look, bind]
  cases found : lookup network with
  | ok a => exact rest a
  | error e =>
    rw [found] at h
    exact h

/-- A call that builds a network is accepted, or refused for a reason that is no fault. -/
theorem call_orderly (network : Network) (e : Edit) :
    Ends (fun e => e.isOrderly) (fun _ => True) (network.call e).1 := by
  cases e with
  | addInput name dtype dims =>
    exact ends_look_bind (network.checkFresh_orderly name) fun _ => trivial
  | addConstant name weights => trivial
  | addShuffle name input spec =>
    refine ends_look_bind (network.tensor_orderly input) fun source => ?_
    exact ends_look_bind (inferShuffle_orderly source.dims spec) fun _ => trivial
  | addMatrixMultiply name lhs op0 rhs op1 =>
    refine ends_look_bind (network.operands_orderly lhs rhs) ?_
    rintro ⟨a, b⟩
    exact ends_look_bind (inferMatrixMultiply_orderly a.dims b.dims op0 op1) fun _ => trivial
  | addElementWise name lhs rhs op =>
    refine ends_look_bind (network.operands_orderly lhs rhs) ?_
    rintro ⟨a, b⟩
    exact ends_look_bind (inferBroadcast_orderly a.dims b.dims) fun _ => trivial
  | markOutput output name =>
    refine ends_look_bind (network.checkUnmarked_orderly output) fun _ => ?_
    exact ends_look_bind (network.checkFresh_orderly name) fun _ => trivial

end Network

end TensorEngine
