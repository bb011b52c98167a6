import TensorEngine.Proofs.Execution.Models
import TensorEngine.Proofs.Graph.Meaning
import TensorEngine.Proofs.Lowering.Logic
import TensorEngine.Proofs.Tensor.Layout

/-!
# Steps of rules

Seen from values that satisfy the final network, every step of a rule computes: a layer that it adds
gives its output the value that its kernel computes from the values of its operands. A rule
implements an operation when it binds the output of a node only to a tensor whose value is what the
operation makes of the values of the arguments.

## Main definitions

* `Argument.Holds`: the value of an argument
* `Implements`: rules that implement an operation

## Main results

* `ensures_shuffle`, `ensures_reshape`, `ensures_expandRank`: the values of reshaped tensors
* `ensures_multiply`, `ensures_combine`, `ensures_constant`: the values of other layers
-/

namespace TensorEngine

namespace Values.Models

variable {values : Values} {final : Network} {layer : Layer} {x y : TensorId} {a b t : Tensor}

theorem compute (model : values.Models final) (member : layer ∈ final.layers) :
    ∃ t, values.get? layer.output = some t ∧ layer.compute values = .ok t ∧
      (layer.computes → t.dtype = .f32) := by
  obtain ⟨t, computed, value⟩ := model.computed layer member
  exact ⟨t, value, computed, fun computes => model.single layer member computes t value⟩

/-- The recorded dimensions of a tensor describe the shape of its value. -/
theorem describes (model : values.Models final) (value : values.get? x = some t)
    {dtype : DType} {dims : Dims} (recorded : final.types[x.index]? = some ⟨dtype, dims⟩) :
    Dims.describes dims t.shape := by
  obtain ⟨type, recorded', fits⟩ := model.agree x t value
  cases recorded.symm.trans recorded'
  exact fits.shape

/-- Recorded dimensions that are known are the extents of the value. -/
theorem dims_eq (model : values.Models final) (value : values.get? x = some t)
    {dtype : DType} {dims : Dims} (recorded : final.types[x.index]? = some ⟨dtype, dims⟩)
    (static : dims.isStatic) : dims = t.shape.toDims :=
  ((Dims.describes_iff_of_isStatic static).mp (model.describes value recorded)).symm

theorem rank_eq (model : values.Models final) (value : values.get? x = some t)
    {dtype : DType} {dims : Dims} (recorded : final.types[x.index]? = some ⟨dtype, dims⟩) :
    dims.rank = t.shape.rank :=
  List.Forall₂.length_eq (Dims.describes_iff.mp (model.describes value recorded))

end Values.Models

namespace Lowering

open Program

variable {final : Network} {values : Values} {Good : ValueId → TensorId → Prop}
  {node : Node} {x y : TensorId} {a b t : Tensor}

/-! ### Layers -/

/-- A shuffle layer gives the shuffled tensor. -/
theorem ensures_shuffle {ε : Type} {f : NetworkError → ε} (model : values.Models final)
    (value : values.get? x = some t) {name : String} {spec : ShuffleSpec} :
    Ensures final Good ((Program.perform (.addShuffle name x spec)).mapError f) fun y =>
      ∃ u, values.get? y = some u ∧ t.shuffle spec = .ok u ∧ u.dtype = .f32 := by
  refine (Ensures.edit rfl).mapError.mono ?_
  rintro _ ⟨layer, member, kind, inputs, rfl⟩
  obtain ⟨u, value', computed, single⟩ := model.compute member
  have operand : layer.operand values 0 = .ok t :=
    Layer.operand_eq_ok_iff.mpr ⟨x, by rw [inputs]; rfl, value⟩
  simp only [Layer.compute, kind, operand, ok_bind] at computed
  exact ⟨u, value', computed, single (by simp [Layer.computes, kind])⟩

theorem operands_eq_ok {layer : Layer} (inputs : layer.inputs = [x, y])
    (valueA : values.get? x = some a) (valueB : values.get? y = some b) :
    layer.operand values 0 = .ok a ∧ layer.operand values 1 = .ok b :=
  ⟨Layer.operand_eq_ok_iff.mpr ⟨x, by rw [inputs]; rfl, valueA⟩,
    Layer.operand_eq_ok_iff.mpr ⟨y, by rw [inputs]; rfl, valueB⟩⟩

/-- A layer of two operands gives what its kind computes from them. -/
theorem ensures_binary (model : values.Models final) (valueA : values.get? x = some a)
    (valueB : values.get? y = some b) {e : Network.Edit} {kind : LayerKind}
    {result : Except ExecutionFault Tensor} (adds : e.kind? = some kind) (inputs : e.inputs = [x, y])
    (computes : ∀ layer : Layer, layer.kind = kind → layer.operand values 0 = .ok a →
      layer.operand values 1 = .ok b → layer.compute values = result) :
    Ensures final Good (Lowering.perform e) fun z =>
      ∃ t, values.get? z = some t ∧ result = .ok t := by
  refine (Ensures.perform adds).mono ?_
  rintro _ ⟨layer, member, same, reads, rfl⟩
  obtain ⟨t, value, computed, -⟩ := model.compute member
  obtain ⟨first, second⟩ := operands_eq_ok (reads.trans inputs) valueA valueB
  exact ⟨t, value, (computes layer same first second).symm.trans computed⟩

/-- A matrix product layer gives the product. -/
theorem ensures_multiply (model : values.Models final) (valueA : values.get? x = some a)
    (valueB : values.get? y = some b) :
    Ensures final Good (multiply node x y) fun z =>
      ∃ t, values.get? z = some t ∧ a.matrixMultiply .none b .none = .ok t := by
  unfold multiply
  refine ensures_binary model valueA valueB rfl rfl fun layer kind first second => ?_
  simp only [Layer.compute, kind, first, second, ok_bind]

/-- An elementwise layer gives the combined tensor. -/
theorem ensures_combine (model : values.Models final) (valueA : values.get? x = some a)
    (valueB : values.get? y = some b) {op : ElementWiseOp} {part : String} :
    Ensures final Good (combine node x y op part) fun z =>
      ∃ t, values.get? z = some t ∧ a.elementWise b op = .ok t := by
  unfold combine
  refine ensures_binary model valueA valueB rfl rfl fun layer kind first second => ?_
  simp only [Layer.compute, kind, first, second, ok_bind]

theorem value_of_constant (model : values.Models final) {layer : Layer}
    (member : layer ∈ final.layers) {weights : Tensor} (kind : layer.kind = .constant weights) :
    values.get? layer.output = some weights ∧ weights.Stored := by
  obtain ⟨t, value, computed, -⟩ := model.compute member
  rw [Layer.compute, kind] at computed
  cases computed
  exact ⟨value, model.stored layer member weights kind⟩

/-- A constant layer gives its constant. -/
theorem ensures_constant (model : values.Models final) {name : String} {weights : Tensor} :
    Ensures final Good (Lowering.perform (.addConstant name weights)) fun y =>
      values.get? y = some weights ∧ weights.Stored := by
  refine (Ensures.perform rfl).mono ?_
  rintro _ ⟨layer, member, kind, -, rfl⟩
  exact value_of_constant model member kind

theorem ensures_frozen {ε : Type} (model : values.Models final) {weights : Tensor} :
    Ensures final Good (frozen weights : Program ε TensorId) fun y =>
      values.get? y = some weights ∧ weights.Stored := by
  refine (Ensures.frozen weights).mono ?_
  rintro _ ⟨layer, member, kind, rfl⟩
  exact value_of_constant model member kind

/-! ### Reshapes -/

theorem ensures_requireStatic {dims : Dims} {activity : String} :
    Ensures final Good (requireStatic dims activity) fun _ => dims.isStatic := by
  unfold requireStatic
  split
  next static => exact .done static
  next => exact .inspect fun _ _ _ => .refuse _

/-- A reshape to a target that a shape fills lays the tensor out under the shape. -/
theorem ensures_reshape (model : values.Models final) (value : values.get? x = some t)
    (compact : t.Compact) {target : Dims} {part : String} {shape : Shape}
    (fills : (∀ d ∈ target, d = -1 ∨ 0 ≤ d) → Shape.Fills t.shape 0 target shape)
    (sizes : shape.size = t.shape.size) :
    Ensures final Good (Lowering.reshape node x target part) fun y =>
      ∃ u, values.get? y = some u ∧ t.reshape shape = .ok u := by
  refine (ensures_shuffle model value).mono ?_
  rintro y ⟨u, value', shuffled, single⟩
  -- A shuffle that only reshapes has nothing to do in its other two stages.
  have laid : t.reshaped (some target) = .ok u := by
    obtain ⟨_, first, shuffled⟩ := bind_eq_ok_iff.mp shuffled
    cases first
    obtain ⟨_, laid, last⟩ := bind_eq_ok_iff.mp shuffled
    cases last
    exact laid
  obtain ⟨dtype, -, dims, reshapes, -⟩ := Tensor.reshaped_eq_ok_iff.mp laid
  exact ⟨u, value', Tensor.reshape_of_fills (compact.known (dtype.symm.trans single))
    (fills reshapes.mem_target) sizes laid⟩

/-- Prepending extents of one lays the tensor out under the padded shape. -/
theorem ensures_expandRank (model : values.Models final) (value : values.get? x = some t)
    (compact : t.Compact) {rank : Nat} {part : String} :
    Ensures final Good (expandRank node x rank part) fun y =>
      ∃ u, values.get? y = some u ∧ t.reshape (t.shape.padded rank) = .ok u := by
  refine (Ensures.dimsOf x).bind fun dims ⟨dtype, recorded⟩ => ?_
  have rank_eq := model.rank_eq value recorded
  split
  next high =>
    refine .pure ⟨t, value, ?_⟩
    have same : t.shape.padded rank = t.shape := by
      rw [rank_eq] at high
      rw [Shape.padded, Nat.sub_eq_zero_of_le high, List.replicate_zero, List.nil_append]
    rw [same]
    exact Tensor.reshape_self
  next low =>
    refine ensures_requireStatic.bind fun _ static => ?_
    refine (Ensures.ofExcept fun _ => id).bind fun target expanded => ?_
    obtain ⟨missing, difference, result⟩ := bind_eq_ok_iff.mp expanded
    cases result
    -- The subtraction succeeded, so it is that of natural numbers.
    have missing_eq : missing = rank - t.shape.rank := by
      unfold Unsigned.sub at difference
      split at difference
      · cases difference
        rw [rank_eq]
      · cases difference
    have target_eq : List.replicate missing 1 ++ dims = (t.shape.padded rank).toDims := by
      rw [model.dims_eq value recorded static, missing_eq]
      simp [Shape.padded, Shape.toDims]
    have sizes := Shape.size_padded rank t.shape
    rw [target_eq]
    refine ensures_reshape model value compact (fun _ => .literal ?_) sizes
    exact Shape.size_pos_iff.mp (sizes ▸ compact.positive)

/-! ### Arguments and outputs -/

/-- The value of an argument: a tensor that has elements, or a constant. -/
inductive Argument.Holds (values : Values) : Argument → Constant → Prop
  | tensor {x : TensorId} {t : Tensor} (value : values.get? x = some t) (compact : t.Compact) :
      Holds values (.tensor x) (.tensor t)
  | constant {c : Constant} (extents : ∀ t, c = .tensor t → 0 ∉ t.shape) :
      Holds values (.constant c) c

/-- On values that satisfy the final network, the rule binds the output of a node to nothing but
what the operation makes of the values of the arguments. -/
def Implements (rule : Rule) (operation : Operation) : Prop :=
  ∀ {final : Network} {values : Values} {Good : ValueId → TensorId → Prop} {node : Node}
    {arguments : List Argument} {constants : List Constant}, values.Models final →
    List.Forall₂ (Argument.Holds values) arguments constants →
    (∀ id rest y t, node.outputs = id :: rest → values.get? y = some t → t.Compact →
      operation constants = some t → Good id y) →
    Ensures final Good (rule node arguments) fun _ => True

variable {arguments : List Argument} {constants : List Constant} {position : Nat}

theorem holds_of_argumentAt (held : List.Forall₂ (Argument.Holds values) arguments constants)
    {argument : Argument} (h : argumentAt arguments position = .ok argument) :
    ∃ c, constants[position]? = some c ∧ argument.Holds values c := by
  unfold argumentAt at h
  split at h
  next entry =>
    cases h
    exact forall₂_getElem? held entry
  next => cases h

/-- An operand is a tensor of the network that has the value of the argument. -/
theorem ensures_operandAt (model : values.Models final)
    (held : List.Forall₂ (Argument.Holds values) arguments constants) :
    Ensures final Good (operandAt arguments position) fun x =>
      ∃ t, values.get? x = some t ∧ t.Compact ∧ Operation.operand? constants position = some t := by
  refine (Ensures.ofExcept fun _ => id).bind fun argument found => ?_
  obtain ⟨c, entry, holds⟩ := holds_of_argumentAt held found
  cases holds with
  | @tensor x t value compact =>
    exact .done ⟨t, value, compact, by rw [Operation.operand?, entry]; rfl⟩
  | constant extents =>
    cases c with
    | tensor t =>
      refine (ensures_frozen model).mono fun x frozen => ?_
      exact ⟨t, frozen.1, .of_stored frozen.2 (extents t rfl),
        by rw [Operation.operand?, entry]; rfl⟩
    | none | bool | int | double | ints => exact .refuse _

/-- An argument that is read as a list of integers is one. -/
theorem constants_of_ints (held : List.Forall₂ (Argument.Holds values) arguments constants)
    {is : List Int} (h : argumentAt arguments position >>= Argument.ints = .ok is) :
    (constants[position]?).bind Constant.ints? = some is := by
  obtain ⟨argument, found, read⟩ := bind_eq_ok_iff.mp h
  obtain ⟨c, entry, holds⟩ := holds_of_argumentAt held found
  rw [entry]
  cases holds with
  | tensor => cases read
  | constant =>
    cases c <;> cases read
    rfl

theorem constants_of_int (held : List.Forall₂ (Argument.Holds values) arguments constants)
    {argument : Argument} {i : Int} (found : argumentAt arguments position = .ok argument)
    (read : argument.int = .ok i) : (constants[position]?).bind Constant.int? = some i := by
  obtain ⟨c, entry, holds⟩ := holds_of_argumentAt held found
  rw [entry]
  cases holds with
  | tensor => cases read
  | constant =>
    cases c <;> cases read
    rfl

end Lowering

end TensorEngine
