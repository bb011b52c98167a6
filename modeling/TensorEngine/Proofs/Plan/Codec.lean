import TensorEngine.Proofs.Json.Record
import TensorEngine.Proofs.Words

/-!
# The text of a plan is faithful

Plans are written as records of records. The format of every part is faithful, from element types
and shapes up to networks and bindings, so the engine bytes of a plan determine the plan, and plans
whose numbers fit in words read back.

## Main results

* `Network.faithful`, `EnginePlan.faithful`: the formats of networks and plans
* `EnginePlan.parse?_bytes_eq_some_iff`: what engine bytes are read as
-/

namespace TensorEngine

open Json

/-! ### Tensors -/

theorem DType.faithful : Faithful DType.toJson DType.ofJson? fun _ => True :=
  faithful_name DType.ofName?_name

theorem Shape.faithful : Faithful Shape.toJson Shape.ofJson? Shape.InWords :=
  faithful_size.list

private theorem faithful_byte : Faithful (fun byte : UInt8 => ofNat byte.toNat)
    (fun value => (value.natBelow? 256).map UInt8.ofNat) fun _ => True where
  written byte := ⟨byte.toNat, rfl⟩
  read_eq_some_iff a b := by
    have small : 256 ≤ Unsigned.bound := by decide
    have number := (faithful_natBelow small).read_write a.toNat_lt
    simp [number, eq_comm]

theorem Bytes.faithful : Faithful Bytes.toJson Bytes.ofJson? fun _ => True where
  written := faithful_byte.list.written
  read_eq_some_iff a b := by
    have bytes := faithful_byte.list.read_eq_some_iff a b
    exact bytes.trans (and_congr_left' (by simp))

private theorem Tensor.fields_toJson (t : Tensor) : t.toJson.record? Tensor.fieldNames =
    some [some t.dtype.toJson, some (Shape.toJson t.shape), some (Bytes.toJson t.data)] :=
  record?_ofMembers _ (by simp)

theorem Tensor.faithful : Faithful Tensor.toJson Tensor.ofJson? Tensor.Stored where
  written t := isWritten_ofMembers (by
    simp [DType.faithful.written, Shape.faithful.written, Bytes.faithful.written])
  read_eq_some_iff t u := by
    have build : (Tensor.ofBytes t.dtype t.shape t.data).toOption = some u ↔
        Tensor.ofBytes t.dtype t.shape t.data = .ok u := by
      cases Tensor.ofBytes t.dtype t.shape t.data <;> simp [Except.toOption]
    simp only [Tensor.ofJson?, Tensor.fields_toJson, Option.bind_eq_bind, Option.bind_some,
      DType.faithful.required, Shape.faithful.required, Bytes.faithful.required, build,
      Tensor.ofBytes_eq_ok_iff, Tensor.stored_iff]
    constructor
    · rintro ⟨-, shape, -, fits, dtype, extents, bytes⟩
      exact ⟨⟨shape, fits⟩, Tensor.ext_data dtype extents bytes⟩
    · rintro ⟨⟨shape, fits⟩, rfl⟩
      exact ⟨trivial, shape, trivial, fits, rfl, rfl, rfl⟩

/-! ### Layers -/

theorem Dims.faithful : Faithful Dims.toJson Dims.ofJson? Dims.InWords :=
  faithful_int64.list

theorem TensorId.faithful : Faithful TensorId.toJson TensorId.ofJson? TensorId.InWords where
  written id := faithful_size.written id.index
  read_eq_some_iff a b := by
    simp only [TensorId.ofJson?, TensorId.toJson, Option.map_eq_some_iff,
      faithful_size.read_eq_some_iff]
    constructor
    · rintro ⟨_, ⟨small, rfl⟩, rfl⟩
      exact ⟨small, rfl⟩
    · rintro ⟨small, rfl⟩
      exact ⟨_, ⟨small, rfl⟩, rfl⟩

private theorem faithful_order : Faithful (ofOption (ofList ofNat)) (option? (list? size?))
    fun order => ∀ axes ∈ order, ∀ axis ∈ axes, axis < Unsigned.bound :=
  faithful_size.list.option fun _ => by simp [ofList]

private theorem faithful_target : Faithful (ofOption Dims.toJson) (option? Dims.ofJson?)
    fun target => ∀ dims ∈ target, Dims.InWords dims :=
  Dims.faithful.option fun _ => by simp [Dims.toJson, ofList]

private theorem ShuffleSpec.fields_toJson (spec : ShuffleSpec) :
    spec.toJson.record? ShuffleSpec.fieldNames =
      some [some (ofOption (ofList ofNat) spec.firstTranspose),
        some (ofOption Dims.toJson spec.reshape),
        some (ofOption (ofList ofNat) spec.secondTranspose)] :=
  record?_ofMembers _ (by simp)

theorem ShuffleSpec.faithful :
    Faithful ShuffleSpec.toJson ShuffleSpec.ofJson? ShuffleSpec.InWords where
  written spec := isWritten_ofMembers (by simp [faithful_order.written, faithful_target.written])
  read_eq_some_iff spec other := by
    simp only [ShuffleSpec.ofJson?, ShuffleSpec.fields_toJson, Option.bind_eq_bind,
      Option.bind_some, faithful_order.optional, faithful_target.optional, Option.pure_def,
      Option.some.injEq]
    constructor
    · rintro ⟨first, target, second, rfl⟩
      exact ⟨⟨first, target, second⟩, rfl⟩
    · rintro ⟨words, rfl⟩
      exact ⟨words.firstTranspose, words.reshape, words.secondTranspose, rfl⟩

theorem MatrixOp.faithful : Faithful MatrixOp.toJson MatrixOp.ofJson? fun _ => True :=
  faithful_name fun op => by cases op <;> rfl

theorem ElementWiseOp.faithful :
    Faithful ElementWiseOp.toJson ElementWiseOp.ofJson? fun _ => True :=
  faithful_name fun op => by cases op <;> rfl

namespace LayerKind

private theorem choice?_ofMembers (name : String) (content : Json) :
    (ofMembers [(name, content)]).choice? = some (name, some content) := by
  simp [ofMembers, choice?]

private theorem constantOfJson?_record (weights : Json) :
    constantOfJson? (ofMembers [("weights", weights)]) =
      (Tensor.ofJson? weights).map .constant := by
  have fields : (ofMembers [("weights", weights)]).record? ["weights"] = some [some weights] :=
    record?_ofMembers [("weights", weights)] (by simp)
  simp only [constantOfJson?, fields, requiredField?, Option.map_eq_bind, Option.bind_eq_bind,
    Option.bind_some]
  rfl

private theorem matrixMultiplyOfJson?_record (op0 op1 : MatrixOp) :
    matrixMultiplyOfJson? (ofMembers [("op0", op0.toJson), ("op1", op1.toJson)]) =
      some (.matrixMultiply op0 op1) := by
  have fields : (ofMembers [("op0", op0.toJson), ("op1", op1.toJson)]).record? ["op0", "op1"] =
      some [some op0.toJson, some op1.toJson] :=
    record?_ofMembers [("op0", op0.toJson), ("op1", op1.toJson)] (by simp)
  simp [matrixMultiplyOfJson?, fields, MatrixOp.faithful.required]

private theorem ofJson?_toJson (kind : LayerKind) : ofJson? kind.toJson =
    match kind with
    | .constant weights => (Tensor.ofJson? weights.toJson).map .constant
    | .shuffle spec => (ShuffleSpec.ofJson? spec.toJson).map .shuffle
    | .matrixMultiply op0 op1 => some (.matrixMultiply op0 op1)
    | .elementWise op => some (.elementWise op) := by
  cases kind with
  | constant weights => simp [ofJson?, toJson, choice?_ofMembers, constantOfJson?_record]
  | shuffle spec => simp [ofJson?, toJson, choice?_ofMembers]
  | matrixMultiply op0 op1 =>
    simp [ofJson?, toJson, choice?_ofMembers, matrixMultiplyOfJson?_record]
  | elementWise op =>
    simp [ofJson?, toJson, choice?_ofMembers, ElementWiseOp.faithful.read_write trivial]

theorem faithful : Faithful toJson ofJson? InWords where
  written
    | .constant weights =>
      isWritten_ofMembers (by simp [isWritten_ofMembers, Tensor.faithful.written])
    | .shuffle spec => isWritten_ofMembers (by simp [ShuffleSpec.faithful.written])
    | .matrixMultiply op0 op1 =>
      isWritten_ofMembers (by simp [isWritten_ofMembers, MatrixOp.faithful.written])
    | .elementWise op => isWritten_ofMembers (by simp [ElementWiseOp.faithful.written])
  read_eq_some_iff kind other := by
    rw [ofJson?_toJson]
    cases kind with
    | constant weights =>
      simp only [Option.map_eq_some_iff, Tensor.faithful.read_eq_some_iff]
      constructor
      · rintro ⟨_, ⟨stored, rfl⟩, rfl⟩
        exact ⟨stored, rfl⟩
      · rintro ⟨stored, rfl⟩
        exact ⟨_, ⟨stored, rfl⟩, rfl⟩
    | shuffle spec =>
      simp only [Option.map_eq_some_iff, ShuffleSpec.faithful.read_eq_some_iff]
      constructor
      · rintro ⟨_, ⟨words, rfl⟩, rfl⟩
        exact ⟨words, rfl⟩
      · rintro ⟨words, rfl⟩
        exact ⟨_, ⟨words, rfl⟩, rfl⟩
    | matrixMultiply op0 op1 => simp [InWords, eq_comm]
    | elementWise op => simp [InWords, eq_comm]

end LayerKind

private theorem Layer.fields_toJson (layer : Layer) :
    layer.toJson.record? ["name", "kind", "inputs", "output"] =
      some [some (.ofString layer.name), some layer.kind.toJson,
        some (.ofList TensorId.toJson layer.inputs), some layer.output.toJson] :=
  record?_ofMembers _ (by simp)

theorem Layer.faithful : Faithful Layer.toJson Layer.ofJson? Layer.InWords where
  written layer := isWritten_ofMembers (by
    simp [faithful_string.written, LayerKind.faithful.written, TensorId.faithful.written,
      TensorId.faithful.list.written])
  read_eq_some_iff layer other := by
    simp only [Layer.ofJson?, Layer.fields_toJson, Option.bind_eq_bind, Option.bind_some,
      faithful_string.required, LayerKind.faithful.required, TensorId.faithful.list.required,
      TensorId.faithful.required, Option.pure_def, Option.some.injEq]
    constructor
    · rintro ⟨-, kind, inputs, output, rfl⟩
      exact ⟨⟨kind, inputs, output⟩, rfl⟩
    · rintro ⟨words, rfl⟩
      exact ⟨trivial, words.kind, words.inputs, words.output, rfl⟩

/-! ### Networks and plans -/

private theorem NetworkTensor.fields_toJson (t : NetworkTensor) :
    t.toJson.record? ["name", "dtype", "dims"] =
      some [some (.ofString t.name), some t.dtype.toJson, some (Dims.toJson t.dims)] :=
  record?_ofMembers _ (by simp)

theorem NetworkTensor.faithful : Faithful NetworkTensor.toJson NetworkTensor.ofJson?
    fun t => Dims.InWords t.dims where
  written t := isWritten_ofMembers (by
    simp [faithful_string.written, DType.faithful.written, Dims.faithful.written])
  read_eq_some_iff t other := by
    simp only [NetworkTensor.ofJson?, NetworkTensor.fields_toJson, Option.bind_eq_bind,
      Option.bind_some, faithful_string.required, DType.faithful.required,
      Dims.faithful.required, Option.pure_def, Option.some.injEq]
    constructor
    · rintro ⟨-, -, dims, rfl⟩
      exact ⟨dims, rfl⟩
    · rintro ⟨dims, rfl⟩
      exact ⟨trivial, trivial, dims, rfl⟩

private theorem Network.fields_toJson (network : Network) :
    network.toJson.record? ["tensors", "layers", "inputs", "outputs"] =
      some [some (.ofList NetworkTensor.toJson network.tensors),
        some (.ofList Layer.toJson network.layers),
        some (.ofList TensorId.toJson network.inputs),
        some (.ofList TensorId.toJson network.outputs)] :=
  record?_ofMembers _ (by simp)

/-- The format of networks loses and confuses nothing. -/
theorem Network.faithful : Faithful Network.toJson Network.ofJson? Network.InWords where
  written network := isWritten_ofMembers (by
    simp [NetworkTensor.faithful.list.written, Layer.faithful.list.written,
      TensorId.faithful.list.written])
  read_eq_some_iff network other := by
    simp only [Network.ofJson?, Network.fields_toJson, Option.bind_eq_bind, Option.bind_some,
      NetworkTensor.faithful.list.required, Layer.faithful.list.required,
      TensorId.faithful.list.required, Option.pure_def, Option.some.injEq]
    constructor
    · rintro ⟨tensors, layers, inputs, outputs, rfl⟩
      exact ⟨⟨tensors, layers, inputs, outputs⟩, rfl⟩
    · rintro ⟨words, rfl⟩
      exact ⟨words.tensors, words.layers, words.inputs, words.outputs, rfl⟩

private theorem Capability.fields_toJson (c : Capability) :
    c.toJson.record? ["major", "minor"] =
      some [some (.ofInt c.major.toInt), some (.ofInt c.minor.toInt)] :=
  record?_ofMembers _ (by simp)

theorem Capability.faithful : Faithful Capability.toJson Capability.ofJson? fun _ => True where
  written c := isWritten_ofMembers (by
    simp [faithful_int32.written c.major, faithful_int32.written c.minor])
  read_eq_some_iff c other := by
    simp only [Capability.ofJson?, Capability.fields_toJson, Option.bind_eq_bind,
      Option.bind_some, faithful_int32.required, Option.pure_def, Option.some.injEq]
    simp only [true_and]
    exact eq_comm

private theorem BindingSpec.fields_toJson (spec : BindingSpec) :
    spec.toJson.record? ["name", "is_input", "dtype", "dims"] =
      some [some (.ofString spec.name.text), some (.bool spec.isInput), some spec.dtype.toJson,
        some (Dims.toJson spec.dims)] :=
  record?_ofMembers _ (by simp)

theorem BindingSpec.faithful : Faithful BindingSpec.toJson BindingSpec.ofJson?
    fun spec => Dims.InWords spec.dims where
  written spec := isWritten_ofMembers (by
    simp [faithful_string.written, faithful_bool.written, DType.faithful.written,
      Dims.faithful.written])
  read_eq_some_iff spec other := by
    simp only [BindingSpec.ofJson?, BindingSpec.fields_toJson, Option.bind_eq_bind,
      Option.bind_some, faithful_string.required, faithful_bool.required, DType.faithful.required,
      Dims.faithful.required, Option.pure_def, Option.some.injEq]
    constructor
    · rintro ⟨-, -, -, dims, rfl⟩
      exact ⟨dims, rfl⟩
    · rintro ⟨dims, rfl⟩
      exact ⟨trivial, trivial, trivial, dims, rfl⟩

private theorem PlanBinding.fields_toJson (binding : PlanBinding) :
    binding.toJson.record? ["spec", "tensor"] =
      some [some binding.spec.toJson, some binding.tensor.toJson] :=
  record?_ofMembers _ (by simp)

theorem PlanBinding.faithful : Faithful PlanBinding.toJson PlanBinding.ofJson?
    fun b => Dims.InWords b.spec.dims ∧ b.tensor.InWords where
  written binding := isWritten_ofMembers (by
    simp [BindingSpec.faithful.written, TensorId.faithful.written])
  read_eq_some_iff binding other := by
    simp only [PlanBinding.ofJson?, PlanBinding.fields_toJson, Option.bind_eq_bind,
      Option.bind_some, BindingSpec.faithful.required, TensorId.faithful.required,
      Option.pure_def, Option.some.injEq]
    constructor
    · rintro ⟨dims, tensor, rfl⟩
      exact ⟨⟨dims, tensor⟩, rfl⟩
    · rintro ⟨⟨dims, tensor⟩, rfl⟩
      exact ⟨dims, tensor, rfl⟩

namespace EnginePlan

private theorem fields_toJson (plan : EnginePlan) : plan.toJson.record? fieldNames =
    some [some (.ofNat plan.formatVersion), some (.ofString plan.engineName),
      some plan.builtFor.toJson, some plan.network.toJson,
      some (.ofList PlanBinding.toJson plan.bindings)] :=
  record?_ofMembers _ (by simp)

private theorem faithful_version :
    Faithful ofNat (natBelow? 0x100000000) (· < 0x100000000) :=
  faithful_natBelow (by decide)

/-- The format of plans loses and confuses nothing. -/
theorem faithful : Faithful toJson ofJson? InWords where
  written plan := isWritten_ofMembers (by
    simp [faithful_version.written, faithful_string.written, Capability.faithful.written,
      Network.faithful.written, PlanBinding.faithful.list.written])
  read_eq_some_iff plan other := by
    simp only [ofJson?, fields_toJson, Option.bind_eq_bind, Option.bind_some,
      faithful_version.required, faithful_string.required, Capability.faithful.required,
      Network.faithful.required, PlanBinding.faithful.list.required, Option.pure_def,
      Option.some.injEq]
    constructor
    · rintro ⟨version, -, -, network, bindings, rfl⟩
      exact ⟨⟨version, network, bindings⟩, rfl⟩
    · rintro ⟨words, rfl⟩
      exact ⟨words.formatVersion, trivial, trivial, words.network, words.bindings, rfl⟩

/-- The engine bytes of a plan are read as that plan if its numbers fit in words, and refused if
they do not. -/
theorem parse?_bytes_eq_some_iff {plan other : EnginePlan} :
    parse? plan.bytes = some other ↔ plan.InWords ∧ other = plan := by
  rw [parse?, bytes, Json.parse?_bytes (faithful.written plan), Option.bind_some,
    faithful.read_eq_some_iff]

end EnginePlan

end TensorEngine
