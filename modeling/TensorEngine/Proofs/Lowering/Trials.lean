import TensorEngine.Proofs.Execution.Meanings
import TensorEngine.Proofs.Execution.Progress
import TensorEngine.Proofs.Lowering.Outcomes
import TensorEngine.Proofs.Tensor.Layout

/-!
# Trials of added layers

The layers that a part of a lowering adds can be run on their own, on values that the tensors from
before are given. A trial fixes the state that the part starts in and the values that are given. What
is known of a tensor is its recorded type and its value after a run of the added layers, and it stays
known as more layers are added. Such a run succeeds if the results of the layers fit in memory.

## Main definitions

* `Trial`, `Trial.added`, `Trial.Runs`: the layers that were added, and runs of them
* `Trial.Reaches`: states that only add layers, all of which run
* `Trial.Holds`, `Trial.Makes`: what is known of a tensor, and of one that a step adds

## Main results

* `Trial.makes_push`: a layer that is added gives its output what its kind computes
* `Trial.ends_laid`: a reshape lays a tensor out under another shape
-/

namespace TensorEngine

theorem runLayers_append_eq_ok_iff {layers layers' : List Layer} {values next : Values} :
    runLayers (layers ++ layers') values = (next, .ok ()) ↔
      ∃ middle, runLayers layers values = (middle, .ok ()) ∧
        runLayers layers' middle = (next, .ok ()) := by
  induction layers generalizing values with
  | nil => simp [runLayers]
  | cons layer layers ih =>
    simp only [List.cons_append, runLayers_cons_eq_ok_iff, ih]
    constructor
    · rintro ⟨t, first, computed, stored, middle, ran, later⟩
      exact ⟨middle, ⟨t, first, computed, stored, ran⟩, later⟩
    · rintro ⟨middle, ⟨t, first, computed, stored, ran⟩, later⟩
      exact ⟨t, first, computed, stored, middle, ran, later⟩

theorem length_of_runLayers {layers : List Layer} {values next : Values}
    (ran : runLayers layers values = (next, .ok ())) : next.length = values.length := by
  have kept : (runLayers layers values).1.length = values.length :=
    runLayers_induction (P := fun after => after.length = values.length) rfl
      fun _ _ _ _ _ _ stored same => (Values.length_of_store stored).trans same
  rwa [ran] at kept

namespace Lowering

/-- The state that a part of a lowering starts in, the values on which the layers that it adds are
run, and whether the results of these layers fit in memory. -/
structure Trial where
  start : State
  Given : Values → Prop
  fits : Prop

namespace Trial

variable (trial : Trial) {state next last : State} {x y z : TensorId}
  {type : TensorType} {P Q : Values → Tensor → Prop}

/-- The layers that were added since the start. -/
def added (state : State) : List Layer :=
  state.network.layers.drop trial.start.network.layers.length

/-- The added layers run on values that are given and have room for every tensor. -/
structure Runs (state : State) (values final : Values) : Prop where
  given : trial.Given values
  room : state.network.tensors.length ≤ values.length
  ran : runLayers (trial.added state) values = (final, .ok ())

/-- Nothing but tensors and layers was added since the start, and the added layers run if their
results fit. -/
structure Reaches (state : State) : Prop where
  settings : state.settings = trial.start.settings
  bindings : state.bindings = trial.start.bindings
  layers : trial.start.network.layers <+: state.network.layers
  runs : trial.fits → ∀ values, trial.Given values →
    state.network.tensors.length ≤ values.length → ∃ final, trial.Runs state values final

/-- The recorded type of a tensor, and what its value after a run of the added layers satisfies. -/
structure Holds (state : State) (x : TensorId) (type : TensorType)
    (P : Values → Tensor → Prop) : Prop where
  recorded : state.network.types[x.index]? = some type
  value : ∀ values final, trial.Runs state values final → ∃ t, final.get? x = some t ∧ P values t

/-- What is known in one state is known in another one. -/
def Keeps (state next : State) : Prop :=
  ∀ x type P, trial.Holds state x type P → trial.Holds next x type P

/-- A state that is reached with a tensor of which something is known, besides all that was known
before. -/
structure Makes (state : State) (type : TensorType) (P : Values → Tensor → Prop) (z : TensorId)
    (next : State) : Prop where
  reaches : trial.Reaches next
  keeps : trial.Keeps state next
  holds : trial.Holds next z type P

variable {trial}

theorem Holds.mono (h : trial.Holds state x type P)
    (weaker : ∀ values t, trial.Given values → P values t → Q values t) :
    trial.Holds state x type Q where
  recorded := h.recorded
  value values final runs :=
    let ⟨t, value, known⟩ := h.value values final runs
    ⟨t, value, weaker values t runs.given known⟩

theorem Keeps.refl (state : State) : trial.Keeps state state :=
  fun _ _ _ => id

theorem Keeps.trans (h : trial.Keeps state next) (h' : trial.Keeps next last) :
    trial.Keeps state last :=
  fun x type P known => h' x type P (h x type P known)

theorem Makes.mono (h : trial.Makes state type P z next)
    (weaker : ∀ values t, trial.Given values → P values t → Q values t) :
    trial.Makes state type Q z next :=
  ⟨h.reaches, h.keeps, h.holds.mono weaker⟩

/-- A tensor that is made by a later step is made. -/
theorem Makes.of_keeps (h : trial.Makes next type P z last) (keeps : trial.Keeps state next) :
    trial.Makes state type P z last :=
  ⟨h.reaches, keeps.trans h.keeps, h.holds⟩

/-- A tensor of which something is known already. -/
theorem Makes.of_holds (reaches : trial.Reaches state) (holds : trial.Holds state z type P) :
    trial.Makes state type P z state :=
  ⟨reaches, .refl state, holds⟩

theorem added_start : trial.added trial.start = [] :=
  List.drop_length

theorem reaches_start : trial.Reaches trial.start where
  settings := rfl
  bindings := rfl
  layers := List.prefix_rfl
  runs _ values given room := ⟨values, given, room, by rw [added_start]; rfl⟩

/-- Before a layer is added, tensors have the values that are given. -/
theorem holds_start (recorded : trial.start.network.types[x.index]? = some type)
    (value : ∀ values, trial.Given values → ∃ t, values.get? x = some t ∧ P values t) :
    trial.Holds trial.start x type P where
  recorded := recorded
  value values final runs := by
    have ran := runs.ran
    rw [added_start] at ran
    cases ran
    exact value values runs.given

theorem Reaches.layers_eq (h : trial.Reaches state) :
    state.network.layers = trial.start.network.layers ++ trial.added state := by
  obtain ⟨layers, split⟩ := h.layers
  rw [added, ← split, List.drop_left]

/-! ### One more layer -/

section Push

variable {name : String} {kind : LayerKind} {inputs : List TensorId}
  (reaches : trial.Reaches state)
  (network : next.network = (state.network.pushLayer name kind inputs type.dtype type.dims).2)

include reaches network

omit reaches in
theorem length_push : next.network.tensors.length = state.network.tensors.length + 1 := by
  rw [network]
  exact List.length_append

theorem added_push : trial.added next =
    trial.added state ++ [⟨name, kind, inputs, state.network.nextId⟩] := by
  have within := reaches.layers.length_le
  rw [added, added, network]
  exact List.drop_append_of_le_length within

/-- A run of one layer more is a run that the layer computes a value after. -/
theorem runs_push_iff {values final : Values} : trial.Runs next values final ↔
    state.network.tensors.length < values.length ∧ ∃ middle t,
      trial.Runs state values middle ∧
      kind.compute? (fun k => (inputs[k]?).bind middle.get?) = some t ∧
      middle.store state.network.nextId t = .ok final := by
  have room := length_push network
  constructor
  · rintro ⟨given, enough, ran⟩
    rw [room] at enough
    rw [added_push reaches network, runLayers_append_eq_ok_iff] at ran
    obtain ⟨middle, ran, last⟩ := ran
    obtain ⟨t, _, computed, stored, result⟩ := runLayers_cons_eq_ok_iff.mp last
    cases result
    exact ⟨enough, middle, t, ⟨given, Nat.le_of_lt enough, ran⟩,
      Layer.compute_eq_ok_iff.mp computed, stored⟩
  · rintro ⟨enough, middle, t, ⟨given, -, ran⟩, computed, stored⟩
    refine ⟨given, room ▸ enough, ?_⟩
    rw [added_push reaches network, runLayers_append_eq_ok_iff]
    exact ⟨middle, ran, runLayers_cons_eq_ok_iff.mpr
      ⟨t, final, Layer.compute_eq_ok_iff.mpr computed, stored, rfl⟩⟩

theorem keeps_push : trial.Keeps state next := by
  rintro x xType P ⟨recorded, value⟩
  refine ⟨?_, fun values final runs => ?_⟩
  · rw [network]
    exact getElem?_of_isPrefix ⟨_, (List.map_append ..).symm⟩ recorded
  · obtain ⟨-, middle, t, before, -, stored⟩ := (runs_push_iff reaches network).mp runs
    obtain ⟨u, found, known⟩ := value values middle before
    have older : x.index < state.network.tensors.length := by
      simpa [Network.types] using (List.getElem?_eq_some_iff.mp recorded).1
    -- The layer stores behind all tensors from before.
    have other : x ≠ state.network.nextId := by
      rintro rfl
      exact Nat.lt_irrefl _ older
    exact ⟨u, by rw [Values.get?_of_store stored, if_neg other, found], known⟩

/-- A layer that is added makes a tensor of what its kind computes after a run. -/
theorem makes_push (settings : next.settings = state.settings)
    (bindings : next.bindings = state.bindings)
    (computes : trial.fits → ∀ values middle, trial.Runs state values middle →
      ∃ t, kind.compute? (fun k => (inputs[k]?).bind middle.get?) = some t)
    (value : ∀ values middle t, trial.Runs state values middle →
      kind.compute? (fun k => (inputs[k]?).bind middle.get?) = some t → P values t) :
    trial.Makes state type P state.network.nextId next where
  keeps := keeps_push reaches network
  reaches :=
    { settings := settings.trans reaches.settings
      bindings := bindings.trans reaches.bindings
      layers := by
        rw [network]
        exact reaches.layers.trans (List.prefix_append _ _)
      runs := fun fits values given room => by
        have enough : state.network.tensors.length < values.length := by
          rwa [length_push network] at room
        obtain ⟨middle, before⟩ := reaches.runs fits values given (Nat.le_of_lt enough)
        obtain ⟨t, computed⟩ := computes fits values middle before
        have stored : middle.store state.network.nextId t =
            .ok (middle.set state.network.nextId.index (some t)) :=
          Values.store_eq_ok_iff.mpr ⟨(length_of_runLayers before.ran).symm ▸ enough, rfl⟩
        exact ⟨_, (runs_push_iff reaches network).mpr ⟨enough, middle, t, before, computed, stored⟩⟩ }
  holds :=
    { recorded := by
        rw [network]
        exact (List.getElem?_map ..).trans
          (congrArg (Option.map NetworkTensor.type) List.getElem?_concat_length)
      value := fun values final runs => by
        obtain ⟨-, middle, t, before, computed, stored⟩ := (runs_push_iff reaches network).mp runs
        exact ⟨t, by rw [Values.get?_of_store stored, if_pos rfl],
          value values middle t before computed⟩ }

end Push

/-! ### Steps -/

section Steps

variable {ε : Type} (reaches : trial.Reaches state)
include reaches

/-- A constant that is frozen is itself. -/
theorem ends_frozen {fair : ε → Prop} (weights : Tensor) :
    (Program.frozen weights : Program ε TensorId).EndsFrom state fair
      (trial.Makes state ⟨weights.dtype, weights.dims⟩ fun _ t => t = weights) := by
  have made : trial.Makes state ⟨weights.dtype, weights.dims⟩ (fun _ t => t = weights)
      (state.freeze weights).1 (state.freeze weights).2 :=
    makes_push reaches rfl rfl rfl (fun _ _ _ _ => ⟨weights, rfl⟩)
      fun _ _ _ _ computed => (Option.some.inj computed).symm
  exact made

variable {fair : RuleError → Prop}

/-- A constant layer gives its constant. -/
theorem ends_constant {name : String} (weights : Tensor) :
    (Lowering.perform (.addConstant name weights)).EndsFrom state fair
      (trial.Makes state ⟨weights.dtype, weights.dims⟩ fun _ t => t = weights) := by
  have infers : (LayerKind.constant weights).Infers [] ⟨weights.dtype, weights.dims⟩ :=
    .constant weights
  refine .perform rfl .nil infers ?_
  exact makes_push reaches rfl rfl rfl (fun _ _ _ _ => ⟨weights, rfl⟩)
    fun _ _ _ _ computed => (Option.some.inj computed).symm

/-- A shuffle layer is added if the shuffle infers dimensions, and gives the shuffled tensor. -/
theorem ends_shuffle {name : String} {spec : ShuffleSpec} {dims : Dims}
    (holds : trial.Holds state x type P) (inferred : inferShuffle type.dims spec = .ok dims)
    (shuffles : ∀ values t, trial.Given values → P values t → ∃ u, t.shuffle spec = .ok u) :
    (Lowering.perform (.addShuffle name x spec)).EndsFrom state fair
      (trial.Makes state ⟨type.dtype, dims⟩ fun values u => ∃ t, P values t ∧
        t.shuffle spec = .ok u) := by
  have infers : (LayerKind.shuffle spec).Infers [type] ⟨type.dtype, dims⟩ := .shuffle inferred
  refine .perform rfl (.cons holds.recorded .nil) infers ?_
  refine makes_push reaches rfl rfl rfl (fun _ values middle runs => ?_)
    fun values middle u runs computed => ?_
  · obtain ⟨t, value, known⟩ := holds.value values middle runs
    obtain ⟨u, shuffled⟩ := shuffles values t runs.given known
    refine ⟨u, ?_⟩
    simp [LayerKind.compute?, Network.Edit.inputs, value, shuffled, Except.toOption]
  · obtain ⟨t, value, known⟩ := holds.value values middle runs
    refine ⟨t, known, toOption_eq_some_iff.mp ?_⟩
    simpa [LayerKind.compute?, Network.Edit.inputs, value] using computed

/-- A reshape layer is added if the target means dimensions, and lays the tensor out as the target is
read for its value. -/
theorem ends_laid {node : Node} {target : Dims} {part : String} (shape : Tensor → Shape)
    (holds : trial.Holds state x type P)
    (refusal : (∀ out, ¬Reshapes (some target) type.dims out) → ∀ e, fair (.network e))
    (lays : ∀ out, Reshapes (some target) type.dims out → ∀ values t, trial.Given values →
      P values t → ∃ u, t.shuffle (.reshaping target) = .ok u ∧ t.reshape (shape t) = .ok u) :
    (Lowering.reshape node x target part).EndsFrom state fair fun z next =>
      ∃ out, Reshapes (some target) type.dims out ∧
        trial.Makes state ⟨type.dtype, out⟩ (fun values u => ∃ t, P values t ∧
          t.reshape (shape t) = .ok u) z next := by
  cases inferred : inferShuffle type.dims (.reshaping target) with
  | ok out =>
    have reshapes := Tensor.inferShuffle_reshaping.mp inferred
    refine (ends_shuffle reaches holds inferred fun values t given known => ?_).mono
      fun z next made => ⟨out, reshapes, made.mono ?_⟩
    · obtain ⟨u, shuffled, -⟩ := lays out reshapes values t given known
      exact ⟨u, shuffled⟩
    · rintro values u given ⟨t, known, shuffled⟩
      obtain ⟨u', shuffled', laid⟩ := lays out reshapes values t given known
      cases shuffled'.symm.trans shuffled
      exact ⟨t, known, laid⟩
  | error e =>
    refine .perform_refused rfl (fun operands outType known infers => ?_)
      (refusal fun out reshapes => ?_)
    · obtain ⟨first, rest, recorded, -, rfl⟩ := List.forall₂_cons_left_iff.mp known
      cases holds.recorded.symm.trans recorded
      cases infers with | shuffle accepted => ?_
      cases inferred.symm.trans accepted
    · cases inferred.symm.trans (Tensor.inferShuffle_reshaping.mpr reshapes)

/-- A layer over two tensors is added if its kind infers a type, and gives what it computes. -/
theorem ends_pair {e : Network.Edit} {kind : LayerKind} {typeX typeY : TensorType}
    {f : Tensor → Tensor → Except ExecutionFault Tensor} (adds : e.kind? = some kind)
    (inputs : e.inputs = [x, y]) (holdsX : trial.Holds state x typeX P)
    (holdsY : trial.Holds state y typeY Q) (infers : kind.Infers [typeX, typeY] type)
    (computes : ∀ operand a b, operand 0 = some a → operand 1 = some b →
      kind.compute? operand = (f a b).toOption)
    (succeeds : trial.fits → ∀ values a b, P values a → Q values b → ∃ t, f a b = .ok t) :
    (Lowering.perform e).EndsFrom state fair
      (trial.Makes state type fun values t => ∃ a b, P values a ∧ Q values b ∧ f a b = .ok t) := by
  have known : state.network.OperandTypes e.inputs [typeX, typeY] :=
    inputs ▸ .cons holdsX.recorded (.cons holdsY.recorded .nil)
  refine .perform adds known infers ?_
  rw [inputs]
  have operands : ∀ values middle, trial.Runs state values middle → ∃ a b, P values a ∧ Q values b ∧
      kind.compute? (fun k => ([x, y][k]?).bind middle.get?) = (f a b).toOption := by
    intro values middle runs
    obtain ⟨a, valueA, knownA⟩ := holdsX.value values middle runs
    obtain ⟨b, valueB, knownB⟩ := holdsY.value values middle runs
    exact ⟨a, b, knownA, knownB, computes _ a b valueA valueB⟩
  refine makes_push reaches rfl rfl rfl (fun fits values middle runs => ?_)
    fun values middle t runs computed => ?_
  · obtain ⟨a, b, knownA, knownB, same⟩ := operands values middle runs
    obtain ⟨t, result⟩ := succeeds fits values a b knownA knownB
    exact ⟨t, by rw [same, result]; rfl⟩
  · obtain ⟨a, b, knownA, knownB, same⟩ := operands values middle runs
    exact ⟨a, b, knownA, knownB, toOption_eq_some_iff.mp (same.symm.trans computed)⟩

omit reaches in
/-- A layer over two tensors is refused if its kind infers no type from theirs. -/
theorem refused_pair {e : Network.Edit} {kind : LayerKind} {typeX typeY : TensorType}
    {post : TensorId → State → Prop} (adds : e.kind? = some kind) (inputs : e.inputs = [x, y])
    (holdsX : trial.Holds state x typeX P) (holdsY : trial.Holds state y typeY Q)
    (refused : ∀ type, ¬kind.Infers [typeX, typeY] type) (h : ∀ e, fair (.network e)) :
    (Lowering.perform e).EndsFrom state fair post := by
  refine .perform_refused adds (fun operands type known => ?_) h
  have recorded : state.network.OperandTypes e.inputs [typeX, typeY] :=
    inputs ▸ .cons holdsX.recorded (.cons holdsY.recorded .nil)
  have unique : Relator.RightUnique fun (id : TensorId) type =>
      state.network.types[id.index]? = some type :=
    fun _ _ _ left right => Option.some.inj (left.symm.trans right)
  exact unique.forall₂ known recorded ▸ refused type

end Steps

end Trial

end Lowering

end TensorEngine
