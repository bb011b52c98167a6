import Mathlib.Data.List.Nodup
import TensorEngine.Network.Basic
import TensorEngine.Plan.Validity
import TensorEngine.Proofs.Network.Inference

/-!
# Calls on networks

A call looks things up before it changes anything, so that one that fails leaves the network as it was.
A call that adds a layer is accepted exactly if its operands are there and its kind infers a type from
theirs. The layer then has the next id, and nothing else of the network matters. An input needs a name
that no tensor has, and so does an output, which has to be neither input nor output before.

## Main definitions

* `LayerKind.Infers`: the type of a layer's output by the types of its operands
* `Building.KeepsOnError`: computations that change nothing when they fail
* `Network.Edit.kind?`, `Network.Edit.inputs`, `Network.Edit.name`: the layer that a call adds

## Main results

* `Network.eq_of_call_error`, `Network.apply_eq_error_iff`: a call that fails leaves the network as it
  was
* `Network.call_eq_ok_iff`: which calls that add layers are accepted, and their effect
* `Network.call_addInput_eq_ok_iff`, `Network.call_markOutput_eq_ok_iff`: the other calls
-/

namespace TensorEngine

/-- What a network records of a tensor besides its name. -/
structure TensorType where
  dtype : DType
  dims : Dims
  deriving DecidableEq

/-- The type of a tensor of a network. -/
def NetworkTensor.type (t : NetworkTensor) : TensorType :=
  ⟨t.dtype, t.dims⟩

/-- The type that a kind of layer gives its output, by the types of its operands. -/
inductive LayerKind.Infers : LayerKind → List TensorType → TensorType → Prop
  | constant (weights : Tensor) :
      Infers (.constant weights) [] ⟨weights.dtype, .ofShape weights.shape⟩
  | shuffle {spec : ShuffleSpec} {source : TensorType} {dims : Dims}
      (inferred : inferShuffle source.dims spec = .ok dims) :
      Infers (.shuffle spec) [source] ⟨source.dtype, dims⟩
  | matrixMultiply {op0 op1 : MatrixOp} {dtype : DType} {lhs rhs dims : Dims}
      (inferred : inferMatrixMultiply lhs op0 rhs op1 = .ok dims) :
      Infers (.matrixMultiply op0 op1) [⟨dtype, lhs⟩, ⟨dtype, rhs⟩] ⟨dtype, dims⟩
  | elementWise {op : ElementWiseOp} {dtype : DType} {lhs rhs dims : Dims}
      (inferred : inferBroadcast lhs rhs = .ok dims) :
      Infers (.elementWise op) [⟨dtype, lhs⟩, ⟨dtype, rhs⟩] ⟨dtype, dims⟩

theorem LayerKind.Infers.length_eq {kind : LayerKind} {operands : List TensorType}
    {type : TensorType} (h : kind.Infers operands type) : operands.length = kind.arity := by
  cases h <;> rfl

theorem LayerKind.infers_matrixMultiply_iff {op0 op1 : MatrixOp} {operands : List TensorType}
    {type : TensorType} : (LayerKind.matrixMultiply op0 op1).Infers operands type ↔
      ∃ dtype left right dims, inferMatrixMultiply left op0 right op1 = .ok dims ∧
        operands = [⟨dtype, left⟩, ⟨dtype, right⟩] ∧ type = ⟨dtype, dims⟩ := by
  constructor
  · rintro (_ | _ | inferred)
    exact ⟨_, _, _, _, inferred, rfl, rfl⟩
  · rintro ⟨dtype, left, right, dims, inferred, rfl, rfl⟩
    exact .matrixMultiply inferred

theorem LayerKind.infers_elementWise_iff {op : ElementWiseOp} {operands : List TensorType}
    {type : TensorType} : (LayerKind.elementWise op).Infers operands type ↔
      ∃ dtype left right dims, inferBroadcast left right = .ok dims ∧
        operands = [⟨dtype, left⟩, ⟨dtype, right⟩] ∧ type = ⟨dtype, dims⟩ := by
  constructor
  · rintro (_ | _ | _ | inferred)
    exact ⟨_, _, _, _, inferred, rfl, rfl⟩
  · rintro ⟨dtype, left, right, dims, inferred, rfl, rfl⟩
    exact .elementWise inferred

namespace Network

/-- The types of the tensors, in the order of their ids. -/
def types (network : Network) : List TensorType :=
  network.tensors.map NetworkTensor.type

/-- The kind of the layer that a call adds. -/
def Edit.kind? : Edit → Option LayerKind
  | .addInput _ _ _ | .markOutput _ _ => none
  | .addConstant _ weights => some (.constant weights)
  | .addShuffle _ _ spec => some (.shuffle spec)
  | .addMatrixMultiply _ _ op0 _ op1 => some (.matrixMultiply op0 op1)
  | .addElementWise _ _ _ op => some (.elementWise op)

/-- The tensors that the layer which a call adds reads. -/
def Edit.inputs : Edit → List TensorId
  | .addInput _ _ _ | .addConstant _ _ | .markOutput _ _ => []
  | .addShuffle _ input _ => [input]
  | .addMatrixMultiply _ lhs _ rhs _ | .addElementWise _ lhs rhs _ => [lhs, rhs]

/-- The name that a call gives. -/
def Edit.name : Edit → String
  | .addInput name _ _ | .addConstant name _ | .addShuffle name _ _ | .addMatrixMultiply name _ _ _ _
  | .addElementWise name _ _ _ | .markOutput _ name => name

variable {network next : Network} {e : Edit} {id : TensorId} {name : String} {kind : LayerKind}

theorem tensor_eq_ok_iff {t : NetworkTensor} :
    network.tensor id = .ok t ↔ network.tensors[id.index]? = some t := by
  unfold tensor
  split <;> simp_all

theorem types_getElem?_of_tensor {t : NetworkTensor} (h : network.tensor id = .ok t) :
    network.types[id.index]? = some t.type := by
  rw [types, List.getElem?_map, tensor_eq_ok_iff.mp h]
  rfl

theorem exists_tensor_of_types {type : TensorType} (h : network.types[id.index]? = some type) :
    ∃ t, network.tensor id = .ok t ∧ t.type = type := by
  rw [types, List.getElem?_map, Option.map_eq_some_iff] at h
  obtain ⟨t, found, same⟩ := h
  exact ⟨t, tensor_eq_ok_iff.mpr found, same⟩

/-- The types of operands are those that are recorded. -/
def OperandTypes (network : Network) (ids : List TensorId) (operands : List TensorType) : Prop :=
  List.Forall₂ (fun id type => network.types[id.index]? = some type) ids operands

theorem tensor_eq_ok_of_types {type : TensorType} (h : network.types[id.index]? = some type) :
    ∃ name, network.tensor id = .ok ⟨name, type.dtype, type.dims⟩ := by
  obtain ⟨t, known, rfl⟩ := exists_tensor_of_types h
  exact ⟨t.name, known⟩

/-- Operands are two tensors of the same element type. -/
theorem operands_eq_ok_iff {lhs rhs : TensorId} {a b : NetworkTensor} :
    network.operands lhs rhs = .ok (a, b) ↔
      network.tensor lhs = .ok a ∧ network.tensor rhs = .ok b ∧ a.dtype = b.dtype := by
  constructor
  · intro h
    obtain ⟨a', left, h⟩ := bind_eq_ok_iff.mp h
    obtain ⟨b', right, h⟩ := bind_eq_ok_iff.mp h
    split at h
    next same =>
      cases h
      exact ⟨left, right, same⟩
    next => cases h
  · rintro ⟨left, right, same⟩
    exact bind_eq_ok_iff.mpr ⟨a, left, bind_eq_ok_iff.mpr ⟨b, right, if_pos same⟩⟩

theorem checkFresh_eq_ok_iff {u : Unit} :
    network.checkFresh name = .ok u ↔ network.find? name = none := by
  unfold checkFresh
  cases network.find? name <;> simp

theorem checkUnmarked_eq_ok_iff {u : Unit} : network.checkUnmarked id = .ok u ↔
    id.index < network.tensors.length ∧ network.isMarked id = false := by
  have known_iff : (∃ t, network.tensor id = .ok t) ↔ id.index < network.tensors.length := by
    simp only [tensor_eq_ok_iff, List.getElem?_eq_some_iff]
    exact ⟨fun ⟨_, within, _⟩ => within, fun within => ⟨_, within, rfl⟩⟩
  simp only [checkUnmarked, bind_eq_ok_iff]
  cases network.isMarked id <;>
    simp [known_iff, pure, Except.pure, throw, throwThe, MonadExceptOf.throw]

end Network

/-! ### Computations on networks -/

namespace Building

variable {α β : Type} {network next : Network}

theorem change_eq_ok_iff {f : Network → α × Network} {a : α} :
    change f network = (.ok a, next) ↔ f network = (a, next) := by
  simp [change, Prod.ext_iff]

/-- What is looked up first has to be found. -/
theorem look_bind_eq_ok_iff {lookup : Network → Except NetworkError α} {later : α → Building β}
    {b : β} : (look lookup >>= later) network = (.ok b, next) ↔
      ∃ a, lookup network = .ok a ∧ later a network = (.ok b, next) := by
  simp only [look, bind]
  cases lookup network <;> simp

/-- What is changed first is what the rest starts from. -/
theorem change_bind_eq_ok_iff {f : Network → α × Network} {later : α → Building β} {b : β} :
    (change f >>= later) network = (.ok b, next) ↔
      later (f network).1 (f network).2 = (.ok b, next) :=
  Iff.rfl

/-- When it fails, the computation leaves the network as it was. -/
def KeepsOnError (building : Building α) : Prop :=
  ∀ network error next, building network = (.error error, next) → next = network

namespace KeepsOnError

/-- A change does not fail. -/
theorem change (f : Network → α × Network) : KeepsOnError (Building.change f) := by
  intro network error next h
  cases h

theorem change_bind_change {f : Network → α × Network} {g : α → Network → β × Network} :
    KeepsOnError (Building.change f >>= fun a => Building.change (g a)) := by
  intro network error next h
  cases h

/-- Nothing is changed by what is looked up before the changes. -/
theorem look_bind {lookup : Network → Except NetworkError α} {later : α → Building β}
    (h : ∀ a, KeepsOnError (later a)) : KeepsOnError (look lookup >>= later) := by
  intro network error next failed
  simp only [look, bind] at failed
  rcases found : lookup network with e | a <;> rw [found] at failed
  · cases failed
    rfl
  · exact h a network error next failed

end KeepsOnError

end Building

namespace Network

variable {network next : Network} {e : Edit} {id : TensorId} {name : String} {kind : LayerKind}

open Building

theorem Edit.keepsOnError (e : Edit) : e.building.KeepsOnError := by
  cases e with
  | addInput => exact .look_bind fun _ => .change_bind_change
  | addConstant => exact .change _
  | addShuffle => exact .look_bind fun _ => .look_bind fun _ => .change _
  | addMatrixMultiply | addElementWise =>
    refine .look_bind ?_
    rintro ⟨a, b⟩
    exact .look_bind fun _ => .change _
  | markOutput => exact .look_bind fun _ => .look_bind fun _ => .change_bind_change

/-- A call that fails leaves the network as it was. -/
theorem eq_of_call_error {error : NetworkError} (failed : network.call e = (.error error, next)) :
    next = network :=
  e.keepsOnError network error next failed

theorem apply_eq_error_iff {error : NetworkError} :
    network.apply e = .error error ↔ network.call e = (.error error, network) := by
  rcases called : network.call e with ⟨error' | id, next⟩
  · obtain rfl := eq_of_call_error called
    simp [apply, called]
  · simp [apply, called]

/-! ### Calls that are accepted -/

theorem addShuffle_eq_ok_iff {input : TensorId} {spec : ShuffleSpec} :
    addShuffle name input spec network = (.ok id, next) ↔
      ∃ operands type, network.OperandTypes [input] operands ∧
        (LayerKind.shuffle spec).Infers operands type ∧
        (id, next) = network.pushLayer name (.shuffle spec) [input] type.dtype type.dims := by
  simp only [addShuffle, look_bind_eq_ok_iff, change_eq_ok_iff]
  constructor
  · rintro ⟨source, known, dims, inferred, result⟩
    exact ⟨[source.type], ⟨source.dtype, dims⟩, .cons (types_getElem?_of_tensor known) .nil,
      .shuffle inferred, result.symm⟩
  · rintro ⟨operands, type, known, infers, result⟩
    obtain _ | inferred := infers
    obtain ⟨_, known⟩ := tensor_eq_ok_of_types (List.forall₂_cons.mp known).1
    exact ⟨_, known, _, inferred, result.symm⟩

/-- A layer of two operands is added if its kind infers a type from theirs by this rule. -/
theorem addBinary_eq_ok_iff {lhs rhs : TensorId} {infer : Dims → Dims → Except NetworkError Dims}
    (infers_iff : ∀ operands type, kind.Infers operands type ↔ ∃ dtype left right dims,
      infer left right = .ok dims ∧ operands = [⟨dtype, left⟩, ⟨dtype, right⟩] ∧
        type = ⟨dtype, dims⟩) :
    addBinary name kind lhs rhs infer network = (.ok id, next) ↔
      ∃ operands type, network.OperandTypes [lhs, rhs] operands ∧ kind.Infers operands type ∧
        (id, next) = network.pushLayer name kind [lhs, rhs] type.dtype type.dims := by
  simp only [addBinary, look_bind_eq_ok_iff, change_eq_ok_iff]
  constructor
  · rintro ⟨⟨a, b⟩, operands, dims, inferred, result⟩
    obtain ⟨left, right, same⟩ := operands_eq_ok_iff.mp operands
    have second := types_getElem?_of_tensor right
    rw [NetworkTensor.type, ← same] at second
    exact ⟨_, _, .cons (types_getElem?_of_tensor left) (.cons second .nil),
      (infers_iff _ _).mpr ⟨_, _, _, dims, inferred, rfl, rfl⟩, result.symm⟩
  · rintro ⟨operands, type, known, infers, result⟩
    obtain ⟨dtype, left, right, dims, inferred, rfl, rfl⟩ := (infers_iff _ _).mp infers
    obtain ⟨first, rest⟩ := List.forall₂_cons.mp known
    obtain ⟨_, first⟩ := tensor_eq_ok_of_types first
    obtain ⟨_, second⟩ := tensor_eq_ok_of_types (List.forall₂_cons.mp rest).1
    exact ⟨(_, _), operands_eq_ok_iff.mpr ⟨first, second, rfl⟩, dims, inferred, result.symm⟩

/-- A call that adds a layer is accepted if its kind infers a type from those of its operands. -/
theorem call_eq_ok_iff (adds : e.kind? = some kind) : network.call e = (.ok id, next) ↔
    ∃ operands type, network.OperandTypes e.inputs operands ∧ kind.Infers operands type ∧
      id = network.nextId ∧
      next = (network.pushLayer e.name kind e.inputs type.dtype type.dims).2 := by
  have result_iff : ∀ type : TensorType,
      (id, next) = network.pushLayer e.name kind e.inputs type.dtype type.dims ↔
        id = network.nextId ∧
          next = (network.pushLayer e.name kind e.inputs type.dtype type.dims).2 :=
    fun _ => Prod.ext_iff
  simp only [← result_iff]
  cases e with
  | addInput | markOutput => cases adds
  | addConstant name weights =>
    cases adds
    refine change_eq_ok_iff.trans ⟨fun result => ?_, ?_⟩
    · exact ⟨[], _, .nil, .constant weights, result.symm⟩
    · rintro ⟨operands, type, -, infers, result⟩
      cases infers
      exact result.symm
  | addShuffle =>
    cases adds
    exact addShuffle_eq_ok_iff
  | addMatrixMultiply =>
    cases adds
    exact addBinary_eq_ok_iff fun _ _ => LayerKind.infers_matrixMultiply_iff
  | addElementWise =>
    cases adds
    exact addBinary_eq_ok_iff fun _ _ => LayerKind.infers_elementWise_iff

/-- An input is added under a name of its own. -/
theorem call_addInput_eq_ok_iff {dtype : DType} {dims : Dims} :
    network.call (.addInput name dtype dims) = (.ok id, next) ↔
      network.find? name = none ∧ id = network.nextId ∧
        next = { network.push ⟨name, dtype, dims⟩ with
          inputs := network.inputs ++ [network.nextId] } := by
  simp only [call, Edit.building, addInput, look_bind_eq_ok_iff, checkFresh_eq_ok_iff,
    change_bind_eq_ok_iff, change_eq_ok_iff, Prod.mk.injEq]
  constructor
  · rintro ⟨-, fresh, rfl, rfl⟩
    exact ⟨fresh, rfl, rfl⟩
  · rintro ⟨fresh, rfl, rfl⟩
    exact ⟨(), fresh, rfl, rfl⟩

/-- A tensor that is neither input nor output is marked under a name of its own. -/
theorem call_markOutput_eq_ok_iff {output : TensorId} :
    network.call (.markOutput output name) = (.ok id, next) ↔
      output.index < network.tensors.length ∧ network.isMarked output = false ∧
        network.find? name = none ∧ id = output ∧
        next = { network.rename output name with outputs := network.outputs ++ [output] } := by
  simp only [call, Edit.building, markOutput, look_bind_eq_ok_iff, checkFresh_eq_ok_iff,
    checkUnmarked_eq_ok_iff, change_bind_eq_ok_iff, change_eq_ok_iff, Prod.mk.injEq]
  constructor
  · rintro ⟨-, ⟨known, unmarked⟩, -, fresh, rfl, rfl⟩
    exact ⟨known, unmarked, fresh, rfl, rfl⟩
  · rintro ⟨known, unmarked, fresh, rfl, rfl⟩
    exact ⟨(), ⟨known, unmarked⟩, (), fresh, rfl, rfl⟩

end Network

end TensorEngine
