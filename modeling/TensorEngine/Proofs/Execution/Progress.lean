import TensorEngine.Proofs.Execution.Agreement
import TensorEngine.Proofs.Execution.Numbers

/-!
# Static networks run

Where every recorded extent is known, nothing is left to find out at run time: the shapes of the
values are the recorded dimensions, so that every kernel infers again what the network has
inferred, and every layer computes a value. A run whose inputs fit their bindings therefore
succeeds.

## Main results

* `Tensor.shuffle_progress`, `Tensor.matrixMultiply_progress`, `Tensor.elementWise_progress`:
  kernels succeed on known operands
* `Layer.Coherent.compute_ok`: a layer over known values computes a value
* `static_network_runs`: a run of a static network succeeds
-/

namespace TensorEngine

namespace TensorType.Fits

variable {type : TensorType} {t : Tensor}

theorem dims_eq (h : type.Fits t) (words : type.dims.InWords) (static : type.dims.isStatic) :
    type.dims = t.dims :=
  (Dims.admits_ofShape words h.shape).eq_of_isStatic static

/-- A tensor of known dimensions has them as its shape. -/
theorem known (h : type.Fits t) (words : type.dims.InWords) (static : type.dims.isStatic) :
    t.Known :=
  (h.dims_eq words static).symm.trans ((Dims.describes_iff_of_isStatic static).mp h.shape).symm

end TensorType.Fits

namespace Tensor

variable {a b t : Tensor}

theorem transposed_progress {order? : Option (List Nat)} {dims out : Dims}
    (described : Dims.describes dims t.shape) (moved : Transposes order? dims out) :
    ∃ u, t.transposed order? = .ok u := by
  cases order? with
  | none => exact ⟨t, rfl⟩
  | some order =>
    have rank : dims.length = t.rank := List.Forall₂.length_eq (Dims.describes_iff.mp described)
    obtain ⟨u, accepted, -⟩ := exists_permuted (t := t) (rank ▸ moved.1)
    exact ⟨u, mapError_eq_ok_iff.mpr accepted⟩

theorem reshaped_progress {target? : Option Dims} {out : Dims} (known : t.Known)
    (reshapes : Reshapes target? t.dims out) : ∃ u, t.reshaped target? = .ok u := by
  cases target? with
  | none => exact ⟨t, rfl⟩
  | some target =>
    obtain ⟨static, counts⟩ := reshapes.prod_eq (known ▸ Dims.isStatic_toDims _)
    obtain ⟨shape, rfl⟩ := Dims.exists_toDims static
    have sizes : shape.size = t.shape.size := by
      rw [known, Dims.prod_toDims, Dims.prod_toDims] at counts
      exact_mod_cast counts
    refine ⟨⟨t.dtype, shape, t.data, sizes ▸ t.length_data⟩, reshaped_eq_ok_iff.mpr ?_⟩
    exact ⟨rfl, rfl, _, reshapes, Dims.toShape?_eq_some_iff.mpr rfl⟩

/-- A shuffle that is accepted for known dimensions succeeds on a tensor that has them. -/
theorem shuffle_progress {dtype : DType} {spec : ShuffleSpec} {source dims : Dims}
    (words : source.InWords) (static : source.isStatic)
    (fits : TensorType.Fits ⟨dtype, source⟩ t) (inferred : inferShuffle source spec = .ok dims) :
    ∃ u, t.shuffle spec = .ok u := by
  obtain ⟨first, second, moved, reshapes, moved'⟩ := inferShuffle_eq_ok_iff.mp inferred
  obtain ⟨t1, stage1⟩ := transposed_progress fits.shape moved
  have fits1 := transposed_fits fits moved stage1
  have words1 := moved.inWords words
  have static1 := moved.isStatic static
  have reshapes1 : Reshapes spec.reshape t1.dims second :=
    fits1.dims_eq words1 static1 ▸ reshapes
  obtain ⟨t2, stage2⟩ := reshaped_progress (fits1.known words1 static1) reshapes1
  have fits2 := reshaped_fits words1 fits1 reshapes stage2
  obtain ⟨u, stage3⟩ := transposed_progress fits2.shape moved'
  exact ⟨u, bind_eq_ok_iff.mpr ⟨t1, stage1, bind_eq_ok_iff.mpr ⟨t2, stage2, stage3⟩⟩⟩

theorem elementWise_progress {op : ElementWiseOp} {dims : Dims} (knownA : a.Known)
    (knownB : b.Known) (singleA : a.dtype = .f32) (singleB : b.dtype = .f32)
    (inferred : inferBroadcast a.dims b.dims = .ok dims)
    (fits : ∀ shape, dims = Shape.toDims shape → (Unsigned.product? 4 shape).isSome) :
    ∃ t, a.elementWise b op = .ok t := by
  have outer := inferBroadcast_eq_ok_iff.mp inferred
  rw [knownA, knownB] at outer
  obtain ⟨shape, rfl, -, -⟩ := stretches_of_broadcastExtents? outer
  rw [elementWise_eq knownA knownB singleA singleB inferred]
  simp only [mapError_eq_ok_iff]
  exact exists_ofFloats (fits shape rfl) (by simp)

theorem matrixMultiply_progress {op0 op1 : MatrixOp} {dims : Dims} (knownA : a.Known)
    (knownB : b.Known) (singleA : a.dtype = .f32) (singleB : b.dtype = .f32)
    (inferred : inferMatrixMultiply a.dims op0 b.dims op1 = .ok dims)
    (fits : ∀ shape, dims = Shape.toDims shape → (Unsigned.product? 4 shape).isSome) :
    ∃ t, a.matrixMultiply op0 b op1 = .ok t := by
  obtain ⟨stack0, rows0, columns0, stack1, rows1, columns1, stack, left, right, agree, outer, rfl⟩ :=
    inferMatrixMultiply_eq_ok_iff.mp inferred
  obtain ⟨stackA, rowsA, columnsA, shapeA, rfl, rfl, rfl⟩ :=
    Shape.toDims_eq_append_pair (knownA.symm.trans left)
  obtain ⟨stackB, rowsB, columnsB, shapeB, rfl, rfl, rfl⟩ :=
    Shape.toDims_eq_append_pair (knownB.symm.trans right)
  obtain ⟨shape, rfl, stretchA, stretchB⟩ := stretches_of_broadcastExtents? outer
  obtain ⟨a', orientA, dtypeA, orientedA⟩ := oriented_ok op0 shapeA
  obtain ⟨b', orientB, dtypeB, orientedB⟩ := oriented_ok op1 shapeB
  have inner : (op0.orient rowsA columnsA).2 = (op1.orient rowsB columnsB).1 := by
    cases op0 <;> cases op1 <;> simp only [MatrixOp.orient] at agree ⊢ <;> omega
  have result : shape.toDims ++ [(op0.orient (rowsA : Int) columnsA).1,
      (op1.orient (rowsB : Int) columnsB).2] =
      Shape.toDims (shape ++ [(op0.orient rowsA columnsA).1, (op1.orient rowsB columnsB).2]) := by
    cases op0 <;> cases op1 <;> simp [Shape.toDims, MatrixOp.orient]
  rw [result] at inferred fits
  rw [matrixMultiply_eq inferred orientA orientB (dtypeA.trans singleA) (dtypeB.trans singleB)
    orientedA (inner ▸ orientedB) stretchA stretchB]
  simp only [mapError_eq_ok_iff]
  exact exists_ofFloats (fits _ rfl) (by simp)

end Tensor

/-- All extents are known, and the number of bytes is a word. -/
structure TensorType.Static (type : TensorType) : Prop where
  known : type.dims.isStatic
  bytes : (Unsigned.product? type.dtype.size (type.dims.map Int.toNat)).isSome

theorem TensorType.Static.bytes_of_eq {type : TensorType} (static : type.Static) {shape : Shape}
    (same : type.dims = shape.toDims) : (Unsigned.product? type.dtype.size shape).isSome := by
  have extents : type.dims.map Int.toNat = shape := by
    rw [same, Shape.toDims, List.map_map]
    exact List.map_id' shape
  exact extents ▸ static.bytes

namespace Layer

variable {layer : Layer} {values : Values} {types : List TensorType}

theorem operand_progress (position : Nat) {operands : List TensorType} {type : TensorType}
    (known : List.Forall₂ (fun id type => types[id.index]? = some type) layer.inputs operands)
    (agree : values.Agree types) (given : ∀ id ∈ layer.inputs, (values.get? id).isSome)
    (operand : operands[position]? = some type) :
    ∃ t, layer.operand values position = .ok t ∧ type.Fits t := by
  obtain ⟨id, read, -⟩ := forall₂_getElem? known.flip operand
  obtain ⟨t, found⟩ := Option.isSome_iff_exists.mp (given id (List.mem_of_getElem? read))
  have accepted := operand_eq_ok_iff.mpr ⟨id, read, found⟩
  exact ⟨t, accepted, operand_fits known agree operand accepted⟩

/-- A layer that reads known values of static types computes a value. -/
theorem Coherent.compute_ok (coherent : layer.Coherent types)
    (words : ∀ type ∈ types, type.dims.InWords) (static : ∀ type ∈ types, type.Static)
    (single : layer.computes → ∀ type, types[layer.output.index]? = some type → type.dtype = .f32)
    (agree : values.Agree types) (given : ∀ id ∈ layer.inputs, (values.get? id).isSome) :
    ∃ t, layer.compute values = .ok t := by
  obtain ⟨operands, type, known, infers, output⟩ := coherent.typed
  have recorded : ∀ operand ∈ operands, operand ∈ types := by
    intro operand member
    obtain ⟨_, -, entry⟩ := forall₂_mem_right known member
    exact List.mem_of_getElem? entry
  have typeStatic := static type (List.mem_of_getElem? output)
  have typeSingle := fun computes => single computes type output
  unfold computes at typeSingle
  unfold compute
  generalize layer.kind = kind at infers typeSingle
  cases infers with
  | constant => exact ⟨_, rfl⟩
  | @shuffle spec source dims inferred =>
    obtain ⟨a, first, fits⟩ := operand_progress 0 known agree given rfl
    have member := recorded source List.mem_cons_self
    obtain ⟨t, shuffled⟩ :=
      Tensor.shuffle_progress (words _ member) (static _ member).known fits inferred
    exact ⟨t, bind_eq_ok_iff.mpr ⟨a, first, shuffled⟩⟩
  | @matrixMultiply op0 op1 dtype lhs rhs dims inferred =>
    obtain ⟨a, first, fitsA⟩ := operand_progress 0 known agree given rfl
    obtain ⟨b, second, fitsB⟩ := operand_progress 1 known agree given rfl
    have memberA := recorded ⟨dtype, lhs⟩ List.mem_cons_self
    have memberB := recorded ⟨dtype, rhs⟩ (List.mem_cons_of_mem _ List.mem_cons_self)
    obtain rfl : dtype = .f32 := typeSingle rfl
    have inferred' : inferMatrixMultiply a.dims op0 b.dims op1 = .ok dims :=
      fitsA.dims_eq (words _ memberA) (static _ memberA).known ▸
        fitsB.dims_eq (words _ memberB) (static _ memberB).known ▸ inferred
    obtain ⟨t, product⟩ := Tensor.matrixMultiply_progress
      (fitsA.known (words _ memberA) (static _ memberA).known)
      (fitsB.known (words _ memberB) (static _ memberB).known) fitsA.dtype fitsB.dtype inferred'
      fun shape => typeStatic.bytes_of_eq
    exact ⟨t, bind_eq_ok_iff.mpr ⟨a, first, bind_eq_ok_iff.mpr ⟨b, second, product⟩⟩⟩
  | @elementWise op dtype lhs rhs dims inferred =>
    obtain ⟨a, first, fitsA⟩ := operand_progress 0 known agree given rfl
    obtain ⟨b, second, fitsB⟩ := operand_progress 1 known agree given rfl
    have memberA := recorded ⟨dtype, lhs⟩ List.mem_cons_self
    have memberB := recorded ⟨dtype, rhs⟩ (List.mem_cons_of_mem _ List.mem_cons_self)
    obtain rfl : dtype = .f32 := typeSingle rfl
    have inferred' : inferBroadcast a.dims b.dims = .ok dims :=
      fitsA.dims_eq (words _ memberA) (static _ memberA).known ▸
        fitsB.dims_eq (words _ memberB) (static _ memberB).known ▸ inferred
    obtain ⟨t, combined⟩ := Tensor.elementWise_progress
      (fitsA.known (words _ memberA) (static _ memberA).known)
      (fitsB.known (words _ memberB) (static _ memberB).known) fitsA.dtype fitsB.dtype inferred'
      fun shape => typeStatic.bytes_of_eq
    exact ⟨t, bind_eq_ok_iff.mpr ⟨a, first, bind_eq_ok_iff.mpr ⟨b, second, combined⟩⟩⟩

end Layer

namespace EnginePlan.IsFor

variable {network : Network} {config : BuildConfig} {plan : EnginePlan} {slots : Slots}

/-- Taking the inputs leaves every input of the network known. -/
theorem known_of_takeInputs (h : plan.IsFor network config) (coherent : network.Coherent)
    {emptied : Slots} {values : Values} (count : slots.length = plan.bindings.length)
    (taken : takeInputs plan.bindings slots plan.noValues = (emptied, values, .ok ())) :
    values.length = network.tensors.length ∧ ∀ id ∈ network.inputs, (values.get? id).isSome := by
  constructor
  · rw [length_values_of_takeInputs taken, noValues, List.length_replicate, h.planned]
  · intro id input
    obtain ⟨b, member, isInput, rfl⟩ := h.exists_input input
    obtain ⟨slot, bound⟩ := List.mem_iff_getElem?.mp member
    obtain ⟨t, -, -, value⟩ :=
      get?_of_takeInputs count (h.inputTensors_nodup coherent) taken bound isInput
    rw [value]
    rfl

/-- Layers that find the inputs and all earlier outputs known all compute, and leave every tensor of
the network known. -/
theorem runLayers_ok (h : plan.IsFor network config) (single : config.allowHalf = false)
    (reached : network.Reached Network.Edit.InWords)
    (static : ∀ type ∈ network.types, type.Static) {before after : List Layer} {values : Values}
    (split : network.layers = before ++ after) (count : values.length = network.tensors.length)
    (agree : values.Agree network.types) (inputs : ∀ id ∈ network.inputs, (values.get? id).isSome)
    (outputs : ∀ layer ∈ before, (values.get? layer.output).isSome) :
    ∃ next, runLayers after values = (next, .ok ()) ∧
      ∀ id : TensorId, id.index < network.tensors.length → (next.get? id).isSome := by
  have coherent := reached.coherent
  have words := reached.dims_inWords fun _ call => call
  -- The induction is on the layers to come. What has run has left every earlier output known, and a
  -- layer reads nothing else besides inputs.
  induction after generalizing before values with
  | nil =>
    refine ⟨values, rfl, fun id within => ?_⟩
    rcases coherent.source id within with input | ⟨layer, member, rfl⟩
    · exact inputs id input
    · exact outputs layer (by rwa [split, List.append_nil] at member)
  | cons layer after ih =>
    have member : layer ∈ network.layers := split ▸ List.mem_append_right _ List.mem_cons_self
    have given : ∀ id ∈ layer.inputs, (values.get? id).isSome := by
      intro id read
      rcases coherent.available split read with input | ⟨earlier, ran, rfl⟩
      · exact inputs id input
      · exact outputs earlier ran
    obtain ⟨t, computed⟩ := (coherent.layers layer member).compute_ok
      words static (fun computes type => h.dtype_of_computes single member computes) agree given
    have within : layer.output.index < values.length := count ▸ coherent.output_lt member
    obtain ⟨middle, stored⟩ : ∃ middle : Values, values.store layer.output t = .ok middle :=
      ⟨_, Values.store_eq_ok_iff.mpr ⟨within, rfl⟩⟩
    have agree' : middle.Agree network.types := by
      have ran : runLayers [layer] values = (middle, .ok ()) :=
        runLayers_cons_eq_ok_iff.mpr ⟨t, middle, computed, stored, rfl⟩
      have kept := coherent.agree_runLayers words reached.hasWords
        (List.cons_subset.mpr ⟨member, List.nil_subset _⟩) agree
      rwa [ran] at kept
    have kept : ∀ id : TensorId, (values.get? id).isSome → (middle.get? id).isSome := by
      intro id known
      rw [Values.get?_of_store stored]
      split
      · rfl
      · exact known
    have split' : network.layers = (before ++ [layer]) ++ after := by
      rw [split, List.append_assoc, List.singleton_append]
    have count' : middle.length = network.tensors.length := by
      rw [Values.length_of_store stored, count]
    obtain ⟨next, ran, known⟩ := ih split' count' agree'
      (fun id input => kept id (inputs id input))
      (by
        intro earlier done
        rcases List.mem_append.mp done with old | new
        · exact kept _ (outputs earlier old)
        · rw [List.mem_singleton.mp new, Values.get?_of_store stored, if_pos rfl]
          rfl)
    exact ⟨next, runLayers_cons_eq_ok_iff.mpr ⟨t, middle, computed, stored, ran⟩, known⟩

end EnginePlan.IsFor

/-- Slots that hold tensors of the types and shapes of their bindings fit them. -/
theorem BindingSpec.fits_iff_of_isStatic {spec : BindingSpec} {t : Tensor}
    (static : spec.dims.isStatic) :
    spec.fits t ↔ t.dtype = spec.dtype ∧ t.shape.toDims = spec.dims := by
  rw [fits, Bool.and_eq_true, decide_eq_true_eq, Dims.describes_iff_of_isStatic static]

/-- A run of a network without unknown extents succeeds when its inputs have the types and the
shapes of their slots: it empties the slots of the inputs and fills those of the outputs with tensors
of their types and shapes. -/
theorem static_network_runs {edits : List Network.Edit} {config : BuildConfig}
    {capability : Capability} {plan : EnginePlan} {slots : Slots}
    (words : ∀ e ∈ edits, e.InWords)
    (static : ∀ t ∈ (Network.built edits).tensors, t.type.Static)
    (single : config.allowHalf = false)
    (planned : EnginePlan.ofNetwork (.built edits) config capability = .ok plan)
    (count : slots.length = plan.bindings.length)
    (given : ∀ (slot : Nat) b, plan.bindings[slot]? = some b → b.spec.isInput →
      ∃ t, slots[slot]? = some (some t) ∧ t.dtype = b.spec.dtype ∧ t.shape.toDims = b.spec.dims) :
    ∃ filled, plan.execute slots = (filled, .ok ()) ∧
      ∀ (slot : Nat) b, plan.bindings[slot]? = some b →
        if b.spec.isInput then filled[slot]? = some none
        else ∃ t, filled[slot]? = some (some t) ∧ t.dtype = b.spec.dtype ∧
          t.shape.toDims = b.spec.dims := by
  have isFor := EnginePlan.isFor_of_ofNetwork planned
  have reached : (Network.built edits).Reached Network.Edit.InWords := .of_built words
  have staticTypes : ∀ type ∈ (Network.built edits).types, type.Static := by
    intro type member
    obtain ⟨t, listed, rfl⟩ := List.mem_map.mp member
    exact static t listed
  have within : ∀ b ∈ plan.bindings, b.tensor.index < plan.noValues.length := by
    intro b member
    rw [EnginePlan.noValues, List.length_replicate, isFor.planned]
    exact (List.getElem?_eq_some_iff.mp (Network.tensor_eq_ok_iff.mp (isFor.binds member).2)).1
  have known : ∀ b ∈ plan.bindings, b.spec.dims.isStatic := by
    intro b member
    have recorded := Network.types_getElem?_of_tensor (isFor.binds member).2
    exact (staticTypes _ (List.mem_of_getElem? recorded)).known
  have fitting : ∀ (slot : Nat) b, plan.bindings[slot]? = some b → b.spec.isInput →
      ∃ t, slots[slot]? = some (some t) ∧ b.spec.fits t := by
    intro slot b bound isInput
    obtain ⟨t, held, same⟩ := given slot b bound isInput
    exact ⟨t, held, (BindingSpec.fits_iff_of_isStatic (known b (List.mem_of_getElem? bound))).mpr same⟩
  -- The three stages, each from what the one before it leaves: the inputs known, then every tensor
  -- known, then every output filled.
  have accepted : (takeInputs plan.bindings slots plan.noValues).2.2 = .ok () :=
    takeInputs_ok count within fitting
  have agree : (takeInputs plan.bindings slots plan.noValues).2.1.Agree (Network.built edits).types :=
    isFor.agree_takeInputs (List.Subset.refl _) (.replicate _)
  rcases taken : takeInputs plan.bindings slots plan.noValues with ⟨emptied, values, result⟩
  rw [taken] at accepted agree
  cases accepted
  obtain ⟨length, inputs⟩ := isFor.known_of_takeInputs reached.coherent count taken
  have start : (Network.built edits).layers = [] ++ (Network.built edits).layers := rfl
  obtain ⟨final, ran, computed⟩ := isFor.runLayers_ok single reached staticTypes start length agree
    inputs nofun
  have outputs : ∀ b ∈ plan.bindings, b.spec.isInput = false → (final.get? b.tensor).isSome := by
    intro b member _
    refine computed _ ?_
    simpa [EnginePlan.noValues, isFor.planned] using within b member
  have filled : (fillOutputs final plan.bindings emptied).2 = .ok () := fillOutputs_ok outputs
  rcases filling : fillOutputs final plan.bindings emptied with ⟨slots', result⟩
  rw [filling] at filled
  cases filled
  have ok : plan.execute slots = (slots', .ok ()) := EnginePlan.execute_eq_ok_iff.mpr
    ⟨count, emptied, values, final, taken, isFor.planned ▸ ran, filling⟩
  refine ⟨slots', ok, fun slot b bound => ?_⟩
  have emptiedCount := length_eq_of_takeInputs count taken
  split
  next isInput =>
    have kept := getElem?_of_fillOutputs emptiedCount filling bound
    rw [if_pos isInput, getElem?_of_takeInputs count taken bound, if_pos isInput] at kept
    exact kept
  next isOutput =>
    -- That an output has its recorded type holds of every run, so of this one.
    obtain ⟨t, held, fits⟩ := (values_fit_records words planned slots).2 slots' ok slot b bound
      (by simpa using isOutput)
    exact ⟨t, held, (BindingSpec.fits_iff_of_isStatic (known b (List.mem_of_getElem? bound))).mp fits⟩

/-- Calls for a network that multiplies a matrix by the transpose of a constant one, and lays the
product out as a vector. -/
def gramEdits : List Network.Edit :=
  [.addInput "input_0" .f32 [1, 2],
    .addConstant "factor" ⟨.f32, [2, 2], List.replicate 16 0, rfl⟩,
    .addMatrixMultiply "product" ⟨0⟩ .none ⟨1⟩ .transpose,
    .addShuffle "flat" ⟨2⟩ (.reshaping [-1]), .markOutput ⟨3⟩ "output_0"]

/-- The plan of that network. -/
def gramPlan : EnginePlan where
  formatVersion := 1
  engineName := "engine"
  builtFor := ⟨8, 6⟩
  network := .built gramEdits
  bindings := [⟨⟨⟨"input_0"⟩, true, .f32, [1, 2]⟩, ⟨0⟩⟩, ⟨⟨⟨"output_0"⟩, false, .f32, [2]⟩, ⟨3⟩⟩]

theorem ofNetwork_gramEdits :
    EnginePlan.ofNetwork (.built gramEdits) .standard ⟨8, 6⟩ = .ok gramPlan := by
  rfl

theorem gramEdits_inWords : ∀ e ∈ gramEdits, e.InWords := by
  decide

theorem gramEdits_static : ∀ t ∈ (Network.built gramEdits).tensors, t.type.Static := by
  have records : (Network.built gramEdits).tensors.map NetworkTensor.type =
      [⟨.f32, [1, 2]⟩, ⟨.f32, [2, 2]⟩, ⟨.f32, [1, 2]⟩, ⟨.f32, [2]⟩] := by rfl
  intro t member
  have listed := records ▸ List.mem_map_of_mem (f := NetworkTensor.type) member
  simp only [List.mem_cons, List.not_mem_nil, or_false] at listed
  rcases listed with same | same | same | same <;> rw [same] <;> constructor <;> decide

/-- A run on two numbers computes two numbers. -/
theorem static_network_runs_gram : ∃ filled,
    gramPlan.execute [some ⟨.f32, [1, 2], [0, 0, 0, 64, 0, 0, 64, 64], rfl⟩, none] =
      (filled, .ok ()) ∧ filled[0]? = some none ∧
      ∃ t, filled[1]? = some (some t) ∧ t.dtype = .f32 ∧ t.shape.toDims = [2] := by
  have count : ([some ⟨.f32, [1, 2], [0, 0, 0, 64, 0, 0, 64, 64], rfl⟩, none] : Slots).length =
      gramPlan.bindings.length := rfl
  obtain ⟨filled, ran, slots⟩ := static_network_runs gramEdits_inWords gramEdits_static rfl
    ofNetwork_gramEdits count (by
      intro slot b bound isInput
      match slot, bound with
      | 0, rfl => exact ⟨_, rfl, rfl, rfl⟩
      | 1, rfl => cases isInput)
  exact ⟨filled, ran, slots 0 _ rfl, slots 1 _ rfl⟩

end TensorEngine
