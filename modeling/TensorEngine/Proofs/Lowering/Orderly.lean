import TensorEngine.Proofs.Lowering.Arithmetic

/-!
# Rules only refuse

A rule of the library reads dimensions that the network records, computes with them and with constants of
the graph, and adds layers. If all these numbers are representable, its computations run into no fault,
and what its layers record is representable again. A check that a computation relies on may have been
made by a layer: the result of a product has rows and columns, so they can be dropped.

## Main definitions

* `EndsOrderly`: programs that keep a network representable, and only refuse
* `State.HasMatrix`: tensors with rows and columns
* `Rule.IsOrderly`: rules that do so whatever representable arguments they are given

## Main results

* `orderly_edit`: calls of a rule are accepted or refused
* `isOrderly_builtin`: the rules of the library are orderly
-/

namespace TensorEngine

theorem Network.types_push_self (network : Network) (t : NetworkTensor) :
    (network.push t).types[network.nextId.index]? = some t.type := by
  rw [types_push]
  simp [nextId, types]

namespace Lowering

open Program

variable {ε α β : Type} {state : State} {node : Node} {arguments : List Argument} {x y : TensorId}
  {dims target : Dims} {fair : ε → Prop} {post : α → State → Prop}

/-- From the state, the program ends as promised and with a representable network, or with an error that
is fair. -/
abbrev EndsOrderly (fair : ε → Prop) (program : Program ε α) (state : State)
    (post : α → State → Prop := fun _ _ => True) : Prop :=
  program.EndsFrom state fair fun a next => next.network.Representable ∧ post a next

/-- The error of a rule is no fault. -/
abbrev Refusal (e : RuleError) : Prop :=
  e.isOrderly

/-- The tensor has at least two axes. -/
def State.HasMatrix (state : State) (x : TensorId) : Prop :=
  ∃ type, state.network.types[x.index]? = some type ∧ 2 ≤ type.dims.rank

theorem rank_max_le {dims dims' : Dims} (words : dims.Representable) (words' : dims'.Representable) :
    ((max dims.rank dims'.rank : Nat) : Int) ≤ Signed.greatest := by
  rcases le_total dims.rank dims'.rank with lower | lower
  · rw [max_eq_right lower]
    exact words'.2
  · rw [max_eq_left lower]
    exact words.2

/-- What else is known about the result may be forgotten. -/
theorem EndsOrderly.kept {program : Program ε α} (h : EndsOrderly fair program state post) :
    EndsOrderly fair program state :=
  h.mono fun _ _ held => ⟨held.1, trivial⟩

/-! ### Steps -/

section Steps

variable (representable : state.network.Representable)
include representable

theorem orderly_ofExcept {x : Except ε α} {post : α → Prop} (ends : Ends fair post x) :
    EndsOrderly fair (Program.ofExcept x) state fun a _ => post a := by
  cases x with
  | ok a => exact .done ⟨representable, ends⟩
  | error e => exact ends

theorem orderly_tensorOf (x : TensorId) :
    EndsOrderly Refusal (tensorOf x) state fun t _ => t.dims.Representable := by
  have found := (state.network.tensor_orderly x).mono fun t known => representable.of_tensor known
  exact .inspect (orderly_ofExcept representable (found.mapError fun _ h => h))

theorem orderly_dimsOf (x : TensorId) :
    EndsOrderly Refusal (dimsOf x) state fun dims _ => dims.Representable :=
  (orderly_tensorOf representable x).bind fun _ _ held => .done held

/-- An edit of the network is accepted with the type that a layer of its kind infers, or it is
refused. -/
theorem orderly_edit {e : Network.Edit} (call : e.Representable) :
    EndsOrderly (fun e => e.isOrderly) (Program.perform e) state fun id next =>
      ∀ kind, e.kind? = some kind → ∃ operands type, kind.Infers operands type ∧
        next.network.types[id.index]? = some type := by
  rcases edited : state.edit e with ⟨error | id, next⟩
  · have orderly := state.network.call_orderly e
    rw [(State.edit_eq_error edited).2] at orderly
    simp only [EndsOrderly, EndsFrom, Program.perform, run, edited]
    exact orderly
  · obtain ⟨network, applied, rfl⟩ := State.edit_eq_ok_iff.mp edited
    -- The layer computes the last tensor that the network has recorded.
    rw [EndsOrderly, EndsFrom, run_perform_eq_ok_iff.mpr edited]
    refine ⟨representable.step call (Network.step_of_call applied), fun kind adds => ?_⟩
    obtain ⟨operands, type, -, infers, rfl, rfl⟩ := (Network.call_eq_ok_iff adds).mp applied
    exact ⟨operands, type, infers, state.network.types_push_self _⟩

theorem orderly_perform {e : Network.Edit} {kind : LayerKind} (adds : e.kind? = some kind)
    (layer : kind.Representable) :
    EndsOrderly Refusal (Lowering.perform e) state fun id next => ∃ operands type,
      kind.Infers operands type ∧ next.network.types[id.index]? = some type :=
  EndsFrom.mapError <| (orderly_edit representable (Network.Edit.representable_of_kind? adds layer)).mono
    fun _ _ ⟨kept, typed⟩ => ⟨kept, typed kind adds⟩

theorem orderly_associate (value : ValueId) (x : TensorId) :
    EndsOrderly Refusal (Program.associate value x) state := by
  simp only [EndsOrderly, EndsFrom, Program.associate, run]
  rcases bound : state.bind value x with ⟨e | y, next⟩
  · unfold State.bind at bound
    split at bound
    next e' found =>
      cases bound
      have known := state.network.tensor_orderly x
      rwa [found] at known
    next =>
      split at bound <;> cases bound
      exact rfl
  · obtain ⟨-, -, -, rfl⟩ := State.binds_iff.mp bound
    exact ⟨representable, trivial⟩

theorem orderly_bindOutput (node : Node) (x : TensorId) :
    EndsOrderly Refusal (bindOutput node x) state := by
  unfold bindOutput
  split
  next => exact rfl
  next value _ _ =>
    exact (orderly_associate representable value x).bind fun _ _ held => .done held

theorem orderly_frozen {weights : Tensor} (bounded : (weights.rank : Int) ≤ Signed.greatest) :
    EndsOrderly fair (Program.frozen weights : Program ε TensorId) state := by
  refine ⟨?_, trivial⟩
  have layer : (LayerKind.constant weights).Representable := bounded
  have taken : state.network.Step (.addConstant s!"[Freeze Tensor {state.frozen}]" weights) _
      (state.freeze weights).2.network := Network.step_of_call rfl
  exact representable.step (Network.Edit.representable_of_kind? rfl layer) taken

theorem orderly_requireStatic (dims : Dims) (activity : String) :
    EndsOrderly Refusal (requireStatic dims activity) state := by
  unfold requireStatic
  split
  next => exact .done ⟨representable, trivial⟩
  next =>
    refine .inspect ?_
    dsimp only
    split <;> exact rfl

theorem orderly_reshape (words : target.Representable) {part : String} :
    EndsOrderly Refusal (reshape node x target part) state fun z next =>
      2 ≤ target.rank → next.HasMatrix z := by
  have layer : (LayerKind.shuffle (.reshaping target)).Representable :=
    fun _ given => Option.some.inj given ▸ words
  refine (orderly_perform representable rfl layer).mono fun z next held => ⟨held.1, fun axes => ?_⟩
  obtain ⟨operands, type, infers, recorded⟩ := held.2
  -- The reshape has as many axes as its target, and no transposition changes their number.
  obtain _ | inferred := infers
  obtain ⟨first, second, -, reshapes, moved⟩ := inferShuffle_eq_ok_iff.mp inferred
  exact ⟨_, recorded, by rw [moved.rank_eq, reshapes.rank_eq]; exact axes⟩

theorem orderly_multiply :
    EndsOrderly Refusal (multiply node x y) state fun z next => next.HasMatrix z := by
  have layer : (LayerKind.matrixMultiply .none .none).Representable := trivial
  refine (orderly_perform representable rfl layer).mono fun z next held => ⟨held.1, ?_⟩
  obtain ⟨operands, type, infers, recorded⟩ := held.2
  obtain _ | _ | inferred := infers
  exact ⟨_, recorded, (rank_of_inferMatrixMultiply inferred).2⟩

theorem orderly_expandRank {rank : Nat} (bounded : (rank : Int) ≤ Signed.greatest) {part : String} :
    EndsOrderly Refusal (expandRank node x rank part) state := by
  refine (orderly_dimsOf representable x).bind fun dims next ⟨kept, words⟩ => ?_
  split
  next => exact .done ⟨kept, trivial⟩
  next lower =>
    refine (orderly_requireStatic kept _ _).bind fun _ next ⟨kept, _⟩ => ?_
    have lower := Nat.le_of_not_le lower
    refine .ofExcept_bind (expandedDims_eq_ok lower) ?_
    exact (orderly_reshape kept (representable_expanded words lower bounded)).kept

end Steps

/-! ### Operands -/

section Operands

variable (representable : state.network.Representable)
  (given : ∀ argument ∈ arguments, argument.Representable)
include representable

theorem orderly_tensorOrFreeze {argument : Argument} (held : argument.Representable)
    {ofRule : RuleError → ε} (refusal : ∀ e, Refusal e → fair (ofRule e)) :
    EndsOrderly fair (argument.tensorOrFreeze ofRule) state := by
  unfold Argument.tensorOrFreeze
  split
  next => exact .done ⟨representable, trivial⟩
  next t => exact orderly_frozen representable (held _ rfl).2
  next => exact refusal _ rfl

include given

theorem orderly_operandAt (position : Nat) :
    EndsOrderly Refusal (operandAt arguments position) state :=
  (orderly_ofExcept representable (argumentAt_orderly given)).bind fun _ _ ⟨kept, held⟩ =>
    orderly_tensorOrFreeze kept held fun _ h => h

theorem orderly_factors : EndsOrderly Refusal (factors arguments) state := by
  have floating : ∀ {state : State} (x : TensorId), state.network.Representable →
      EndsOrderly Refusal (requireFloatingPoint x) state := by
    intro state x representable
    refine (orderly_tensorOf representable x).bind fun record _ ⟨kept, _⟩ => ?_
    dsimp only
    split
    next => exact .done ⟨kept, trivial⟩
    next => exact rfl
  refine (orderly_operandAt representable given 0).bind fun x _ ⟨kept, _⟩ => ?_
  refine (orderly_operandAt kept given 1).bind fun y _ ⟨kept, _⟩ => ?_
  refine (floating x kept).bind fun _ _ ⟨kept, _⟩ => ?_
  exact (floating y kept).bind fun _ _ held => .done held

theorem orderly_broadcastOperands :
    EndsOrderly Refusal (broadcastOperands node arguments) state := by
  refine (orderly_operandAt representable given 0).bind fun x _ ⟨kept, _⟩ => ?_
  refine (orderly_operandAt kept given 1).bind fun y _ ⟨kept, _⟩ => ?_
  refine (orderly_dimsOf kept x).bind fun dimsA _ ⟨kept, wordsA⟩ => ?_
  refine (orderly_dimsOf kept y).bind fun dimsB _ ⟨kept, wordsB⟩ => ?_
  have bounded : ((max dimsA.rank dimsB.rank : Nat) : Int) ≤ Signed.greatest :=
    rank_max_le wordsA wordsB
  refine (orderly_expandRank kept bounded).bind fun _ _ ⟨kept, _⟩ => ?_
  exact (orderly_expandRank kept bounded).bind fun _ _ held => .done held

end Operands

/-- Whatever representable arguments it is given, the rule keeps the network representable and only
refuses. -/
def Rule.IsOrderly (rule : Rule) : Prop :=
  ∀ (state : State) (node : Node) (arguments : List Argument), state.network.Representable →
    (∀ argument ∈ arguments, argument.Representable) → EndsOrderly Refusal (rule node arguments) state

/-! ### Products -/

section Products

variable (representable : state.network.Representable)
include representable

theorem orderly_foldedProduct (words : dims.Representable) (axes : 2 ≤ dims.length) :
    EndsOrderly Refusal (foldedProduct node x dims y) state fun z next => next.HasMatrix z := by
  refine (orderly_requireStatic representable _ _).bind fun _ _ ⟨kept, _⟩ => ?_
  refine (orderly_ofExcept kept (folding_orderly words axes)).bind
    fun plan _ ⟨kept, folded, unfolded, matrix⟩ => ?_
  refine (orderly_reshape kept folded).bind fun _ _ ⟨kept, _⟩ => ?_
  refine (orderly_multiply kept).bind fun _ _ ⟨kept, _⟩ => ?_
  exact (orderly_reshape kept unfolded).mono fun _ _ ⟨kept, ranked⟩ => ⟨kept, ranked matrix⟩

/-- A product of stacks has rows and columns. -/
theorem orderly_stackedProduct :
    EndsOrderly Refusal (stackedProduct node x y) state fun z next => next.HasMatrix z := by
  refine (orderly_dimsOf representable x).bind fun dimsA _ ⟨kept, wordsA⟩ => ?_
  refine (orderly_dimsOf kept y).bind fun dimsB _ ⟨kept, wordsB⟩ => ?_
  split
  next stacked => exact orderly_foldedProduct kept wordsA stacked.1.le
  next =>
    have bounded := rank_max_le wordsA wordsB
    refine (orderly_expandRank kept bounded).bind fun _ _ ⟨kept, _⟩ => ?_
    refine (orderly_expandRank kept bounded).bind fun _ _ ⟨kept, _⟩ => ?_
    exact orderly_multiply kept

theorem orderly_lift (words : target.Representable) {part : String} :
    EndsOrderly Refusal (lift node x dims target part) state :=
  (orderly_requireStatic representable _ _).bind fun _ _ ⟨kept, _⟩ =>
    (orderly_reshape kept words).kept

/-- What lifting has added is dropped from a product, whose last two axes are there to be dropped. -/
theorem orderly_squeeze (matrix : state.HasMatrix x) (liftedLhs liftedRhs : Bool) :
    EndsOrderly Refusal (do
      let dims ← dimsOf x
      requireStatic dims "squeezing a lifted vector"
      let target ← (squeezedDims dims liftedLhs liftedRhs : Except RuleError Dims)
      let squeezed ← reshape node x target "squeeze"
      bindOutput node squeezed) state := by
  obtain ⟨type, recorded, axes⟩ := matrix
  have words := representable type (List.mem_of_getElem? recorded)
  -- The dimensions that are read are those of the product.
  refine .dimsOf_bind recorded ?_
  refine (orderly_requireStatic representable _ _).bind fun _ _ ⟨kept, _⟩ => ?_
  obtain ⟨target, squeezed, words⟩ := exists_squeezed words axes liftedLhs liftedRhs
  refine .ofExcept_bind squeezed ?_
  exact (orderly_reshape kept words).bind fun _ _ ⟨kept, _⟩ => orderly_bindOutput kept node _

end Products

theorem isOrderly_matmul : Rule.IsOrderly matmul := by
  intro state node arguments representable given
  refine (orderly_factors representable given).bind fun (x, y) _ ⟨kept, _⟩ => ?_
  refine (orderly_dimsOf kept x).bind fun dimsA _ ⟨kept, _⟩ => ?_
  refine (orderly_dimsOf kept y).bind fun dimsB _ ⟨kept, _⟩ => ?_
  split
  next => exact rfl
  next =>
    -- Only vectors are lifted, and to a target that is representable whatever their extent is.
    have lifted : ∀ {state : State} {c : Prop} [Decidable c] {x : TensorId} {dims target : Dims}
        {part : String}, target.Representable → state.network.Representable →
        EndsOrderly Refusal (if c then lift node x dims target part else pure x) state := by
      intro state c _ x dims target part words kept
      split
      next => exact orderly_lift kept words
      next => exact .pure ⟨kept, trivial⟩
    refine .ite_bind (lifted (by decide) kept) fun x' _ ⟨kept, _⟩ => ?_
    refine .ite_bind (lifted (by decide) kept) fun y' _ ⟨kept, _⟩ => ?_
    refine (orderly_stackedProduct kept).bind fun z _ ⟨kept, matrix⟩ => ?_
    split
    next => exact orderly_squeeze kept matrix _ _
    next => exact orderly_bindOutput kept node z

theorem isOrderly_productOfRank (operation : String) (rank : Nat) :
    Rule.IsOrderly (productOfRank operation rank) := by
  intro state node arguments representable given
  have ranked : ∀ {state : State} (x : TensorId), state.network.Representable →
      EndsOrderly Refusal (requireRank operation rank x) state := by
    intro state x representable
    refine (orderly_dimsOf representable x).bind fun dims _ ⟨kept, _⟩ => ?_
    split
    next => exact .done ⟨kept, trivial⟩
    next => exact rfl
  refine (orderly_factors representable given).bind fun (x, y) _ ⟨kept, _⟩ => ?_
  refine (ranked x kept).bind fun _ _ ⟨kept, _⟩ => (ranked y kept).bind fun _ _ ⟨kept, _⟩ => ?_
  exact (orderly_multiply kept).bind fun z _ ⟨kept, _⟩ => orderly_bindOutput kept node z

/-! ### Elementwise operations -/

theorem orderly_combine (representable : state.network.Representable) {op : ElementWiseOp}
    {part : String} : EndsOrderly Refusal (combine node x y op part) state := by
  have layer : (LayerKind.elementWise op).Representable := trivial
  exact (orderly_perform representable rfl layer).kept

theorem orderly_constant (representable : state.network.Representable) {name : String}
    {weights : Tensor} (bounded : (weights.rank : Int) ≤ Signed.greatest) :
    EndsOrderly Refusal (Lowering.perform (.addConstant name weights)) state := by
  have layer : (LayerKind.constant weights).Representable := bounded
  exact (orderly_perform representable rfl layer).kept

theorem orderly_scale (representable : state.network.Representable) (factor : UInt64) :
    EndsOrderly Refusal (scale node x factor) state := by
  unfold scale
  split
  next => exact .done ⟨representable, trivial⟩
  next =>
    refine (orderly_tensorOf representable x).bind fun record _ ⟨kept, words⟩ => ?_
    split
    next => exact rfl
    next =>
      refine (orderly_ofExcept kept (scalarTensor_orderly _ _)).bind fun weights _ ⟨kept, rank⟩ => ?_
      refine (orderly_constant kept (rank ▸ words.2)).bind fun _ _ ⟨kept, _⟩ => ?_
      exact orderly_combine kept

theorem isOrderly_scaled (op : ElementWiseOp) : Rule.IsOrderly (scaled op) := by
  intro state node arguments representable given
  refine (orderly_broadcastOperands representable given).bind fun (x, y) _ ⟨kept, _⟩ => ?_
  refine (orderly_ofExcept kept (scaleFactor_orderly arguments)).bind fun factor _ ⟨kept, _⟩ => ?_
  refine (orderly_scale kept factor).bind fun y' _ ⟨kept, _⟩ => ?_
  exact (orderly_combine kept).bind fun z _ ⟨kept, _⟩ => orderly_bindOutput kept node z

theorem isOrderly_elementProduct : Rule.IsOrderly elementProduct := by
  intro state node arguments representable given
  refine (orderly_broadcastOperands representable given).bind fun (x, y) _ ⟨kept, _⟩ => ?_
  exact (orderly_combine kept).bind fun z _ ⟨kept, _⟩ => orderly_bindOutput kept node z

/-! ### Shuffles and constants -/

theorem orderly_reshapeOutput (representable : state.network.Representable)
    (words : target.Representable) :
    EndsOrderly Refusal (do
      let output ← reshape node x target ""
      bindOutput node output) state :=
  (orderly_reshape representable words).bind fun z _ ⟨kept, _⟩ => orderly_bindOutput kept node z

theorem isOrderly_flatten : Rule.IsOrderly flatten := by
  intro state node arguments representable given
  refine (orderly_operandAt representable given 0).bind fun x _ ⟨kept, _⟩ => ?_
  refine (orderly_dimsOf kept x).bind fun dims _ ⟨kept, words⟩ => ?_
  split
  next => exact orderly_reshapeOutput kept (by decide)
  next =>
    refine (orderly_ofExcept kept (axisAt_orderly given words.2)).bind fun first _ ⟨kept, _⟩ => ?_
    refine (orderly_ofExcept kept (axisAt_orderly given words.2)).bind
      fun last _ ⟨kept, within⟩ => ?_
    split
    next => exact rfl
    -- Nothing but this check keeps the range from being reversed.
    next order =>
      refine .gets_bind ?_
      refine (orderly_ofExcept kept
        (flattenTarget_orderly words (Nat.le_of_not_lt order) within)).bind
          fun target _ ⟨kept, words⟩ => ?_
      exact orderly_reshapeOutput kept words

theorem isOrderly_reshapeTo : Rule.IsOrderly reshapeTo := by
  intro state node arguments representable given
  refine (orderly_operandAt representable given 0).bind fun x _ ⟨kept, _⟩ => ?_
  have requests : Ends Refusal Dims.Representable
      (do (← argumentAt arguments 1).ints : Except RuleError (List Int)) :=
    (argumentAt_orderly given).bind fun _ _ held => held.ints
  refine (orderly_ofExcept kept requests).bind fun requested _ ⟨kept, sizes⟩ => ?_
  refine .gets_bind ?_
  split
  next => exact rfl
  next =>
    refine (orderly_dimsOf kept x).bind fun dims _ ⟨kept, _⟩ => ?_
    refine (orderly_requireStatic kept _ _).bind fun _ _ ⟨kept, _⟩ => ?_
    refine (orderly_ofExcept kept (requestedShape_orderly sizes)).bind
      fun target _ ⟨kept, words⟩ => ?_
    exact orderly_reshapeOutput kept words

theorem orderly_transpose (representable : state.network.Representable) {name : String}
    {order : List Nat} :
    EndsOrderly Refusal (Lowering.perform (.addShuffle name x (.transposing order))) state := by
  have layer : (LayerKind.shuffle (.transposing order)).Representable := nofun
  exact (orderly_perform representable rfl layer).kept

theorem isOrderly_permuteAxes : Rule.IsOrderly permuteAxes := by
  intro state node arguments representable given
  refine (orderly_operandAt representable given 0).bind fun x _ ⟨kept, _⟩ => ?_
  refine (orderly_dimsOf kept x).bind fun dims _ ⟨kept, words⟩ => ?_
  have ordered : Ends Refusal (IsPermutation · dims.rank)
      (do axisOrder (← (← argumentAt arguments 1).ints) dims.rank : Except RuleError (List Nat)) :=
    (argumentAt_orderly given).bind fun _ _ held => held.ints.bind fun _ _ axes =>
      axisOrder_orderly axes words.2
  refine (orderly_ofExcept kept ordered).bind fun order _ ⟨kept, _⟩ => ?_
  exact (orderly_transpose kept).bind fun z _ ⟨kept, _⟩ => orderly_bindOutput kept node z

theorem isOrderly_transposeAll : Rule.IsOrderly transposeAll := by
  intro state node arguments representable given
  refine (orderly_ofExcept representable (argumentAt_orderly given)).bind
    fun argument _ ⟨kept, held⟩ => ?_
  cases argument with
  | constant c =>
    refine (orderly_ofExcept kept held.constantTensor).bind fun weights _ ⟨kept, bounded⟩ => ?_
    have moved : Ends Refusal (fun u => (u.rank : Int) ≤ Signed.greatest)
        ((weights.permute (reversal weights.rank)).mapError RuleError.tensor) :=
      Ends.mapError ((permute_orderly weights _).mono fun u rank => rank ▸ bounded) fun _ h => h
    refine (orderly_ofExcept kept moved).bind fun transposed _ ⟨kept, bounded⟩ => ?_
    exact (orderly_constant kept bounded).bind fun z _ ⟨kept, _⟩ => orderly_bindOutput kept node z
  | tensor x =>
    refine (orderly_dimsOf kept x).bind fun dims _ ⟨kept, _⟩ => ?_
    exact (orderly_transpose kept).bind fun z _ ⟨kept, _⟩ => orderly_bindOutput kept node z

theorem isOrderly_constantTensor : Rule.IsOrderly constantTensor := by
  intro state node arguments representable given
  have read : Ends Refusal (fun t => (t.rank : Int) ≤ Signed.greatest)
      (do (← argumentAt arguments 0).constantTensor : Except RuleError Tensor) :=
    (argumentAt_orderly given).bind fun _ _ held => held.constantTensor
  refine (orderly_ofExcept representable read).bind fun weights _ ⟨kept, bounded⟩ => ?_
  exact (orderly_constant kept bounded).bind fun z _ ⟨kept, _⟩ => orderly_bindOutput kept node z

/-- Every rule of the library is orderly. -/
theorem isOrderly_builtin {signature : Signature} {rule : Rule}
    (found : RuleTable.builtin.find? signature = some rule) : rule.IsOrderly := by
  -- One rule after the other, in the order of the table.
  have all : ∀ entry ∈ builtinRules, Rule.IsOrderly entry.2 := by
    simp only [builtinRules, List.forall_mem_cons]
    exact ⟨isOrderly_matmul, isOrderly_productOfRank _ _, isOrderly_productOfRank _ _,
      isOrderly_flatten, isOrderly_reshapeTo, isOrderly_reshapeTo, isOrderly_permuteAxes,
      isOrderly_transposeAll, isOrderly_scaled _, isOrderly_scaled _, isOrderly_scaled _,
      isOrderly_elementProduct, isOrderly_constantTensor, List.forall_mem_nil _⟩
  exact all (signature, rule) (mem_of_lookup found)

end Lowering

end TensorEngine
