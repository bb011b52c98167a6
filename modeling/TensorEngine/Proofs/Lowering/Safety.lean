import TensorEngine.Proofs.Graph.Cycles
import TensorEngine.Proofs.Lowering.Orderly
import TensorEngine.Proofs.Lowering.Support

/-!
# Lowering computes with words

What a graph declares and its constants are numbers that anyone may choose, from the least word to the
greatest. From the first input to the last output such a graph is lowered or refused: no result of a
computation leaves its word, nothing is divided by zero, and nothing is read or written outside of a list.
The rules see to it by their checks and the network by the dimensions that it records; what goes on
between them, finding the order of the nodes, passing arguments and marking outputs, computes nothing.

## Main definitions

* `GraphError.isOrderly`, `LoweringError.isOrderly`: errors that are no faults
* `Graph.Representable`: graphs whose numbers a machine can represent
* `Lowering.KeepsToWords`: computations of a lowering that a machine can carry out

## Main results

* `orderly_lowerNode`: a node is lowered or refused
* `orderly_lowering`: so is a graph
* `moved_within`: a constant is permuted within its cells
* `lowering_keeps_to_words`: every computation of a lowering can be carried out
-/

namespace TensorEngine

/-- The error is a refusal, and not a fault of the computation. -/
def GraphError.isOrderly : GraphError → Bool
  | .unknownValue _ | .undefined _ _ | .multipleProducers _ | .notAnInput _ | .cycle _ => true
  | .fault _ => false

/-- The error is a refusal, and not a fault of the computation. -/
def LoweringError.isOrderly : LoweringError → Bool
  | .unsupportedOperation _ => true
  | .rule _ cause => cause.isOrderly
  | .graph error => error.isOrderly
  | .network error => error.isOrderly

namespace Graph

variable {graph : Graph}

/-- The dimensions of inputs are representable, and so are constants. -/
structure Representable (graph : Graph) : Prop where
  inputs : ∀ value ∈ graph.values, ∀ dtype dims, value.kind = .input dtype dims → dims.Representable
  constants : ∀ value ∈ graph.values, ∀ c, value.constant? = some c → c.Representable

theorem value_orderly (graph : Graph) (id : ValueId) :
    Ends (fun e => e.isOrderly) (· ∈ graph.values) (graph.value id) := by
  unfold Graph.value
  split
  next value entry => exact List.mem_of_getElem? entry
  next => exact rfl

/-- A graph has an order of execution, of places of its nodes, or it is refused. -/
theorem order_orderly (graph : Graph) : Ends (fun e => e.isOrderly)
    (fun order => ∀ position ∈ order, position < graph.nodes.length) graph.order := by
  rcases graph.order_cases with ⟨-, -, order, ordered⟩ | ⟨-, -, cycle⟩ | ⟨-, e, refused, refusal⟩
  · rw [ordered]
    exact Lowering.lt_of_order ordered
  · rw [cycle]
    exact rfl
  · rw [refused]
    cases e with
    | unknownValue | undefined | multipleProducers | notAnInput => exact rfl
    | cycle | fault => cases refusal

end Graph

namespace Lowering

open Program

/-- The error of a lowering is no fault. -/
abbrev Rejection (e : LoweringError) : Prop :=
  e.isOrderly

variable {graph : Graph} {state : State} {node : Node}

/-! ### Parts of a lowering -/

theorem orderly_rule {α : Type} {post : α → State → Prop} {program : Program RuleError α}
    (h : EndsOrderly Refusal program state post) (site : Site) :
    EndsOrderly Rejection (program.mapError (.rule site)) state post :=
  .mapError h

theorem orderly_ofGraph {α : Type} {post : α → Prop} {result : Except GraphError α}
    (representable : state.network.Representable) (ends : Ends (fun e => e.isOrderly) post result) :
    EndsOrderly Rejection (ofGraph result) state fun a _ => post a :=
  orderly_ofExcept representable (ends.mapError fun _ h => h)

theorem orderly_editNetwork {e : Network.Edit} (representable : state.network.Representable)
    (call : e.Representable) : EndsOrderly Rejection (editNetwork e) state :=
  EndsFrom.mapError (orderly_edit representable call).kept

theorem orderly_lowerInputs (declared : graph.Representable) {position : Nat} {ids : List ValueId}
    (representable : state.network.Representable) :
    EndsOrderly Rejection (lowerInputs graph position ids) state := by
  induction ids generalizing position state with
  | nil => exact .done ⟨representable, trivial⟩
  | cons id ids ih =>
    refine (orderly_ofGraph representable (graph.value_orderly id)).bind
      fun value _ ⟨kept, member⟩ => ?_
    split
    -- An input of the network has the dimensions that the graph declares.
    next dtype dims input =>
      have words := declared.inputs value member dtype dims input
      have call : (Network.Edit.addInput (BindingName.input position).text dtype dims).Representable :=
        { input := fun _ _ _ same => by cases same; exact words
          kind := nofun }
      refine (orderly_editNetwork kept call).bind fun x _ ⟨kept, _⟩ => ?_
      exact (orderly_rule (orderly_associate kept id x) _).bind fun _ _ ⟨kept, _⟩ => ih kept
    next => exact ih kept
    next => exact ih kept

theorem orderly_argumentOf (declared : graph.Representable) (id : ValueId)
    (representable : state.network.Representable) :
    EndsOrderly Rejection (argumentOf graph node id) state fun argument _ =>
      argument.Representable := by
  refine (orderly_ofGraph representable (graph.value_orderly id)).bind
    fun value _ ⟨kept, member⟩ => ?_
  split
  -- A constant is passed on as it is; a tensor of the network comes without numbers.
  next c constant =>
    refine .pure ⟨kept, fun c' same => ?_⟩
    cases same
    exact declared.constants value member c constant
  next =>
    refine .gets_bind ?_
    split
    next => exact .pure ⟨kept, nofun⟩
    next => exact rfl

theorem orderly_argumentsOf (declared : graph.Representable) (ids : List ValueId)
    (representable : state.network.Representable) :
    EndsOrderly Rejection (argumentsOf graph node ids) state fun arguments _ =>
      ∀ argument ∈ arguments, argument.Representable := by
  induction ids generalizing state with
  | nil => exact .done ⟨representable, nofun⟩
  | cons id ids ih =>
    refine (orderly_argumentOf declared id representable).bind fun argument _ ⟨kept, first⟩ => ?_
    refine (ih kept).bind fun arguments _ ⟨kept, later⟩ => ?_
    exact .pure ⟨kept, List.forall_mem_cons.mpr ⟨first, later⟩⟩

theorem orderly_checkBound (ids : List ValueId) (representable : state.network.Representable) :
    EndsOrderly Rejection (checkBound node ids) state := by
  induction ids generalizing state with
  | nil => exact .done ⟨representable, trivial⟩
  | cons id ids ih =>
    refine .gets_bind ?_
    split
    next => exact rfl
    next x _ =>
      refine .gets_bind ?_
      have read : Ends Rejection (fun _ => True) ((state.network.dims x).mapError .network) :=
        Ends.mapError ((state.network.tensor_orderly x).bind fun _ _ _ => trivial) fun _ h => h
      exact (orderly_ofExcept representable read).bind fun _ _ ⟨kept, _⟩ => ih kept

/-- A node is lowered with the network kept representable, or it is refused. -/
theorem orderly_lowerNode (declared : graph.Representable) (node : Node)
    (representable : state.network.Representable) :
    EndsOrderly Rejection (lowerNode .builtin graph node) state := by
  unfold lowerNode
  split
  next => exact rfl
  next rule found =>
    refine (orderly_argumentsOf declared _ representable).bind fun arguments _ ⟨kept, given⟩ => ?_
    exact (orderly_rule (isOrderly_builtin found _ node arguments kept given) _).bind
      fun _ _ ⟨kept, _⟩ => orderly_checkBound _ kept

theorem orderly_lowerNodes (declared : graph.Representable) {order : List Nat}
    (within : ∀ position ∈ order, position < graph.nodes.length)
    (representable : state.network.Representable) :
    EndsOrderly Rejection (lowerNodes .builtin graph order) state := by
  induction order generalizing state with
  | nil => exact .done ⟨representable, trivial⟩
  | cons position order ih =>
    obtain ⟨first, later⟩ := List.forall_mem_cons.mp within
    have ends : Ends (fun e : GraphError => e.isOrderly) (fun _ => True)
        (entry graph.nodes position) := by
      rw [entry_eq_ok_iff.mpr (List.getElem?_eq_getElem first)]
      trivial
    refine (orderly_ofGraph representable ends).bind fun node _ ⟨kept, _⟩ => ?_
    exact (orderly_lowerNode declared node kept).bind fun _ _ ⟨kept, _⟩ => ih later kept

theorem orderly_outputTensor (declared : graph.Representable) (id : ValueId)
    (representable : state.network.Representable) :
    EndsOrderly Rejection (outputTensor graph id) state := by
  refine (orderly_ofGraph representable (graph.value_orderly id)).bind
    fun value _ ⟨kept, member⟩ => .gets_bind ?_
  split
  next => exact .pure ⟨kept, trivial⟩
  next c _ constant =>
    have given : (Argument.constant c).Representable := fun c' same => by
      cases same
      exact declared.constants value member c constant
    refine orderly_rule ((orderly_tensorOrFreeze kept given fun _ h => h).bind
      fun x _ ⟨kept, _⟩ => ?_) _
    exact orderly_associate kept id x
  next => exact rfl

theorem orderly_exportable (name : BindingName) (x : TensorId)
    (representable : state.network.Representable) :
    EndsOrderly Rejection (exportable name x) state := by
  refine .gets_bind ?_
  split
  next =>
    have layer : (LayerKind.shuffle .identity).Representable := nofun
    exact orderly_editNetwork representable (Network.Edit.representable_of_kind? rfl layer)
  next => exact .pure ⟨representable, trivial⟩

theorem orderly_lowerOutputs (declared : graph.Representable) {position : Nat} {ids : List ValueId}
    (representable : state.network.Representable) :
    EndsOrderly Rejection (lowerOutputs graph position ids) state := by
  induction ids generalizing position state with
  | nil => exact .done ⟨representable, trivial⟩
  | cons id ids ih =>
    refine (orderly_outputTensor declared id representable).bind fun x _ ⟨kept, _⟩ => ?_
    refine (orderly_exportable _ x kept).bind fun y _ ⟨kept, _⟩ => ?_
    have call : (Network.Edit.markOutput y (BindingName.output position).text).Representable :=
      ⟨nofun, nofun⟩
    exact (orderly_editNetwork kept call).bind fun _ _ ⟨kept, _⟩ => ih kept

/-- A graph is lowered with the network kept representable, or it is refused. -/
theorem orderly_lowering (declared : graph.Representable)
    (representable : state.network.Representable) :
    EndsOrderly Rejection (lowering .builtin graph) state := by
  refine (orderly_ofGraph representable graph.order_orderly).bind fun order _ ⟨kept, within⟩ => ?_
  refine (orderly_lowerInputs declared kept).bind fun _ _ ⟨kept, _⟩ => ?_
  refine (orderly_lowerNodes declared within kept).bind fun _ _ ⟨kept, _⟩ => ?_
  exact orderly_lowerOutputs declared kept

/-! ### Divisors -/

/-- The entry that is inferred is one of the target, and if the product of the others is not zero, it is
positive. -/
theorem inferred_entry {source target copied : Dims} {place : Nat}
    (copies : copyExtents source 0 none target = .ok (copied, some place)) :
    place < copied.length ∧ ∀ known, Dims.isStatic (copied.eraseIdx place) →
      Signed.product? (copied.eraseIdx place) = some known → known ≠ 0 → 0 < known := by
  obtain ⟨k, at?, -, entry⟩ := (Copies.iff_copyExtents.mpr copies).getElem?_inferred rfl
  rw [Nat.zero_add] at at?
  subst at?
  refine ⟨(List.getElem?_eq_some_iff.mp entry).1, fun known static product nonzero => ?_⟩
  have counted := (Signed.product?_eq_some product).1
  have nonneg := Dims.prod_nonneg static
  omega

/-- The product of the requested sizes is positive, and a size that is left to be inferred is one of
them. -/
theorem requested_entry {requested : List Int} {place? : Option Nat} {known : Int}
    (scanned : scanRequest 0 none 1 requested = .ok (place?, known)) :
    0 < known ∧ ∀ place ∈ place?, place < requested.length := by
  obtain ⟨sizes, rfl, inferred⟩ := scanRequest_eq_ok scanned
  refine ⟨Int.mul_pos (by decide) (prod_given_pos sizes), fun place found => ?_⟩
  rcases inferred with ⟨rfl, -⟩ | ⟨-, k, at?, entry, -⟩
  · cases found
  · cases at?.symm.trans found
    rw [Nat.zero_add]
    exact (List.getElem?_eq_some_iff.mp entry).1

/-! ### Places -/

/-- At least two axes end in rows and columns. -/
theorem matrixParts?_of_rank {dims : Dims} (axes : 2 ≤ dims.rank) :
    ∃ rows columns, dims[dims.rank - 2]? = some rows ∧ dims[dims.rank - 1]? = some columns ∧
      matrixParts? dims = some (dims.take (dims.rank - 2), rows, columns) := by
  have two : (dims.drop (dims.rank - 2)).length = 2 := by
    rw [List.length_drop]
    exact Nat.sub_sub_self axes
  obtain ⟨rows, columns, last⟩ := List.length_eq_two.mp two
  have split : dims = dims.take (dims.rank - 2) ++ [rows, columns] := by
    rw [← last, List.take_append_drop]
  have behind : dims.rank - 2 + 1 = dims.rank - 1 := by omega
  refine ⟨rows, columns, ?_, ?_, matrixParts?_eq_some_iff.mpr split⟩
  · have entry := congrArg (·[0]?) last
    simpa [List.getElem?_drop] using entry
  · have entry := congrArg (·[1]?) last
    simpa [List.getElem?_drop, behind] using entry

theorem dot_take_le (k : Nat) (xs ys : List Nat) :
    Shape.dot (xs.take k) (ys.take k) ≤ Shape.dot xs ys := by
  induction k generalizing xs ys with
  | zero => exact Nat.zero_le _
  | succ k ih =>
    cases xs with
    | nil => simp [Shape.dot]
    | cons x xs =>
      cases ys with
      | nil => simp [Shape.dot]
      | cons y ys => exact Nat.add_le_add_left (ih xs ys) _

/-- A tensor whose counts are words is permuted within its bytes: the steps lead to multi-indices of the
moved shape only, the sums of their products with the strides stay below the number of elements, and each
element ends within the data. -/
theorem moved_within {t : Tensor} (counts : t.shape.Counts) {order shape strides : List Nat}
    (permutation : IsPermutation order t.rank) (extents : Arranged order t.shape shape)
    (steps : Arranged order t.shape.strides strides) :
    t.size < Unsigned.bound ∧ (∀ stride ∈ strides, stride < Unsigned.bound) ∧
      ∀ index ∈ Shape.walk shape t.size (List.replicate t.rank 0), Shape.Within index shape ∧
        (∀ k, Shape.dot (index.take k) (strides.take k) < t.size) ∧
        (Shape.dot index strides + 1) * t.dtype.size ≤ t.data.length := by
  have size := counts.sizes t.shape.length le_rfl
  rw [List.take_length] at size
  refine ⟨size, fun stride member => counts.strides stride (steps.mem member), fun index walked => ?_⟩
  rw [Tensor.walk_of_arranged permutation extents] at walked
  obtain ⟨position, listed, rfl⟩ := List.mem_map.mp walked
  -- Each step of the walk is the multi-index of a position, and the strides lead to the position of the
  -- same element before the permutation.
  have within := Shape.within_index (List.mem_range.mp listed)
  obtain ⟨source, -, inside, offset⟩ :=
    Shape.exists_index_of_arranged permutation extents steps within
  have below : Shape.dot (Shape.index shape position) strides < t.size :=
    offset ▸ Shape.offset_lt inside
  refine ⟨within, fun k => Nat.lt_of_le_of_lt (dot_take_le k _ _) below, ?_⟩
  rw [t.length_data, Nat.mul_comm]
  exact Nat.mul_le_mul_left _ below

/-! ### Graphs -/

/-- What the computations of a lowering do with words. A sum, difference, quotient or remainder that is no
word, and an entry or a stretch that is not there, would be a fault; a product that is no word is refused
where it is computed. -/
structure KeepsToWords (settings : Settings) (graph : Graph) : Prop where
  /-- An axis may be any word: it is found, or it is out of range. -/
  axis : ∀ axis (rank : Nat), Signed.InRange axis → (rank : Int) ≤ Signed.greatest →
    normalizeAxis axis rank = (axis? rank axis).elim (.error (.invalid (.axisOutOfRange axis rank))) .ok
  order : ∀ axes (rank : Nat), Dims.Representable axes → (rank : Int) ≤ Signed.greatest →
    Ends Refusal (IsPermutation · rank) (axisOrder axes rank)
  /-- Axes that are not reversed are joined, unless their product is no word or extents are unknown. -/
  joined : ∀ dims dynamicShape first last, dims.Representable → first ≤ last → last < dims.rank →
    Ends (FlattenRefusal dims first last) Dims.Representable (flattenTarget dynamicShape dims first last)
  /-- Requested sizes may be any words: a shape is found with them, or there is a reason to refuse them.
  What is divided by is positive. -/
  requested : ∀ dims requested, Dims.Representable requested →
    Ends (fun e => ∃ reason, e = .invalid (.reshape dims requested reason)) Dims.Representable
      (requestedShape dims requested)
  scanned : ∀ requested place? known, scanRequest 0 none 1 requested = .ok (place?, known) →
    0 < known ∧ ∀ place ∈ place?, place < requested.length
  /-- A stack of matrices is folded, unless the product of its leading extents is no word. -/
  folded : ∀ dims, dims.Representable → 2 ≤ dims.rank →
    Ends (fun e => e = .invalid (.foldOverflows dims) ∧
        Signed.product? (dims.take (dims.rank - 1)) = none)
      (fun plan => plan.folded.Representable ∧ plan.unfolded.Representable ∧ 2 ≤ plan.unfolded.rank)
      (folding dims)
  /-- From a product, what lifting has added is always dropped. -/
  squeezed : ∀ dims liftedLhs liftedRhs, dims.Representable → 2 ≤ dims.rank →
    ∃ target, squeezedDims dims liftedLhs liftedRhs = .ok target ∧ target.Representable
  /-- A lower rank is always expanded. -/
  expanded : ∀ dims (rank : Nat), dims.Representable → dims.rank ≤ rank → (rank : Int) ≤ Signed.greatest →
    expandedDims dims rank = .ok (List.replicate (rank - dims.rank) 1 ++ dims) ∧
      Dims.Representable (List.replicate (rank - dims.rank) 1 ++ dims)
  /-- Inference refuses operands, or has a result; what it divides by is positive, and rows and columns are
  where it looks for them. -/
  shuffled : ∀ dims spec, InfersOrRefuses (inferShuffle dims spec)
  divided : ∀ source target copied place,
    copyExtents source 0 none target = .ok (copied, some place) →
      place < copied.length ∧ ∀ known, Dims.isStatic (copied.eraseIdx place) →
        Signed.product? (copied.eraseIdx place) = some known → known ≠ 0 → 0 < known
  broadcast : ∀ lhs rhs, InfersOrRefuses (inferBroadcast lhs rhs)
  multiplied : ∀ lhs op0 rhs op1, InfersOrRefuses (inferMatrixMultiply lhs op0 rhs op1)
  parts : ∀ dims : Dims, 2 ≤ dims.rank →
    ∃ rows columns, dims[dims.rank - 2]? = some rows ∧ dims[dims.rank - 1]? = some columns ∧
      matrixParts? dims = some (dims.take (dims.rank - 2), rows, columns)
  /-- Constants of the graph are permuted within their bytes. -/
  moved : ∀ value ∈ graph.values, ∀ t, value.kind = .constant (.tensor t) →
    ∀ order shape strides, IsPermutation order t.rank → Arranged order t.shape shape →
      Arranged order t.shape.strides strides →
        t.size < Unsigned.bound ∧ (∀ stride ∈ strides, stride < Unsigned.bound) ∧
          ∀ index ∈ Shape.walk shape t.size (List.replicate t.rank 0), Shape.Within index shape ∧
            (∀ k, Shape.dot (index.take k) (strides.take k) < t.size) ∧
            (Shape.dot index strides + 1) * t.dtype.size ≤ t.data.length
  /-- The graph is lowered, with representable dimensions only, or refused, but not for a fault. -/
  outcome : (∃ lowered, lower .builtin settings graph = .ok lowered ∧
      lowered.network.Representable) ∨
    ∃ e, lower .builtin settings graph = .error e ∧ e.isOrderly

/-- Whatever words a graph declares and holds, in both modes of extents: a machine can carry out every
computation of its lowering. -/
theorem lowering_keeps_to_words (settings : Settings) (declared : graph.Representable) :
    KeepsToWords settings graph where
  axis _ _ range bounded := normalizeAxis_eq range bounded
  order _ _ words bounded := axisOrder_orderly words bounded
  joined _ dynamicShape _ _ words order within := flattenTarget_ends words dynamicShape order within
  requested _ _ words := requestedShape_ends words
  scanned _ _ _ := requested_entry
  folded _ words axes := folding_ends words axes
  squeezed _ liftedLhs liftedRhs words axes := exists_squeezed words axes liftedLhs liftedRhs
  expanded _ _ words lower bounded :=
    ⟨expandedDims_eq_ok lower, representable_expanded words lower bounded⟩
  shuffled := inferShuffle_orderly
  divided _ _ _ _ := inferred_entry
  broadcast := inferBroadcast_orderly
  multiplied lhs op0 rhs op1 := inferMatrixMultiply_orderly lhs rhs op0 op1
  parts _ := matrixParts?_of_rank
  moved value member t constant order shape strides := by
    have given : value.constant? = some (.tensor t) := by
      rw [Value.constant?, constant]
    exact moved_within (declared.constants value member _ given).1
  outcome := by
    have empty : (State.start settings).network.Representable := Network.Representable.empty
    have ends := orderly_lowering declared empty
    rcases ran : (lowering .builtin graph).run (.start settings) with ⟨e | _, last⟩
    · exact .inr ⟨e, lower_eq_error_iff.mpr ⟨last, ran⟩, ends.error ran⟩
    · exact .inl ⟨_, lower_eq_ok_iff.mpr ⟨last, ran, rfl⟩, (ends.result ran).1⟩

/-- Joins the axes of a tensor, from the least word on. -/
def joiningNode : Node :=
  ⟨⟨"aten::flatten.using_ints(Tensor self, int start_dim=0, int end_dim=-1) -> (Tensor)"⟩,
    [⟨0⟩, ⟨1⟩, ⟨2⟩], [⟨4⟩]⟩

/-- Transposes a constant, and joins the axes of an input whose number of elements is no word. -/
def extremeGraph : Graph where
  values := [⟨"x", .input .f32 [2, Signed.greatest]⟩, ⟨"first", .constant (.int Signed.least)⟩,
    ⟨"last", .constant (.int (-1))⟩, ⟨"weights", .constant (.tensor ⟨.u8, [1, 2], [0, 1], rfl⟩)⟩,
    ⟨"joined", .tensor⟩, ⟨"transposed", .tensor⟩]
  nodes := [⟨⟨"aten::t(Tensor self) -> (Tensor)"⟩, [⟨3⟩], [⟨5⟩]⟩, joiningNode]
  inputs := [⟨0⟩]
  outputs := [⟨4⟩, ⟨5⟩]

theorem representable_extremeGraph : extremeGraph.Representable where
  inputs := by
    have words : Dims.Representable [2, Signed.greatest] := by decide
    simp [extremeGraph, words]
  constants := by
    have least : Signed.InRange Signed.least := by decide
    have last : Signed.InRange (-1) := by decide
    have weights : Constant.Representable (.tensor ⟨.u8, [1, 2], [0, 1], rfl⟩) :=
      ⟨⟨by decide, by decide⟩, by decide⟩
    intro value member c constant
    simp only [extremeGraph, List.mem_cons, List.not_mem_nil, or_false] at member
    rcases member with rfl | rfl | rfl | rfl | rfl | rfl <;> cases constant
    · exact least
    · exact last
    · exact weights

theorem lowering_keeps_to_words_extreme :
    extremeGraph.Representable ∧ KeepsToWords ⟨false, ⟨0, 8, 6⟩⟩ extremeGraph ∧
      lower .builtin ⟨false, ⟨0, 8, 6⟩⟩ extremeGraph = .error
        (.rule (.node joiningNode) (.invalid (.axisOutOfRange Signed.least 2))) :=
  ⟨representable_extremeGraph, lowering_keeps_to_words _ representable_extremeGraph, rfl⟩

end Lowering

end TensorEngine
