import TensorEngine.Proofs.Lowering.Operands
import TensorEngine.Proofs.Lowering.Reshaping
import TensorEngine.Proofs.Lowering.Shuffles

/-!
# Nodes that join axes

Joining a range of axes becomes one reshape. Where extents are unknown, those in front are copied, and
at most one extent can be left to be inferred: the joined one, or one behind. If it can be said at all,
the reshape means the shape with the axes joined, on every tensor that the dimensions describe.

## Main definitions

* `BlocksJoining`: unknown extents that no single inferred extent makes up for
* `Argument.Matches`: operands that unknown dimensions describe
* `Joins`: nodes that join axes

## Main results

* `ends_flattenTarget`: what the target is refused for
* `Joins.ends`: how lowering such a node ends
* `flatten_node_joins`: what its layers compute, and when it is refused
-/

namespace TensorEngine

namespace Lowering

open Program

variable {graph : Graph} {state : State} {node : Node} {v : ValueId} {operand : Argument}
  {dims : Dims} {first last : Nat} {dynamicShape : Bool}

/-- An extent behind the range is unknown, and so is another one that is behind it or within. -/
def BlocksJoining (dims : Dims) (first last : Nat) : Prop :=
  0 < (dims.drop (last + 1)).countP (· < 0) ∧ 1 < (dims.drop first).countP (· < 0)

instance : Decidable (BlocksJoining dims first last) :=
  inferInstanceAs (Decidable (_ ∧ _))

theorem slice_to_end {ε α : Type} [HasFault ε] {xs : List α} {start : Nat}
    (within : start ≤ xs.length) :
    (slice xs start xs.length : Except ε (List α)) = .ok (xs.drop start) := by
  rw [slice_eq_ok_iff, List.take_of_length_le (by rw [List.length_drop])]
  exact ⟨⟨within, le_rfl⟩, rfl⟩

/-- Joining extents is refused only if their product overflows. -/
theorem collapsedExtent_cases (order : first ≤ last) (within : last < dims.length) :
    (∃ extent, collapsedExtent dims first last = .ok extent) ∨
      collapsedExtent dims first last = .error (.invalid (.flattenOverflows first last dims)) := by
  have cut : (slice dims first (last + 1) : Except RuleError Dims) =
      .ok ((dims.drop first).take (last + 1 - first)) :=
    slice_eq_ok_iff.mpr ⟨by omega, rfl⟩
  rw [collapsedExtent, cut, ok_bind]
  split
  next extent _ => exact .inl ⟨extent, rfl⟩
  next => exact .inr rfl

/-- The extents from the first joined one on are those that are joined and those behind. -/
theorem countP_drop_first (order : first ≤ last) (dims : Dims) :
    (dims.drop first).countP (· < 0) =
      ((dims.drop first).take (last + 1 - first)).countP (· < 0) +
        (dims.drop (last + 1)).countP (· < 0) := by
  conv_lhs => rw [← List.take_append_drop (last + 1 - first) (dims.drop first)]
  rw [List.countP_append, List.drop_drop, Nat.add_sub_cancel' (by omega)]

/-- A target that needs the joined extent is refused at most for an overflow, which is no limit of
dynamic shapes. -/
theorem ends_collapsed {target : Int → Dims} (order : first ≤ last) (within : last < dims.length)
    (clear : ¬BlocksJoining dims first last) :
    Ends (fun e => (∃ objection, e = .dynamicShape objection) ↔ BlocksJoining dims first last)
      (fun _ => ¬BlocksJoining dims first last)
      (collapsedExtent dims first last >>= fun extent => pure (target extent)) := by
  obtain ⟨extent, collapsed⟩ | overflows := collapsedExtent_cases order within
  · rw [collapsed]
    exact clear
  · rw [overflows]
    exact iff_of_false nofun clear

/-- Extents may be unknown if at most one is left to be inferred. -/
theorem ends_flattenDynamic (order : first ≤ last) (within : last < dims.length) :
    Ends (fun e => (∃ objection, e = .dynamicShape objection) ↔ BlocksJoining dims first last)
      (fun _ => ¬BlocksJoining dims first last) (flattenDynamic dims first last) := by
  have cutJoined : (slice dims first (last + 1) : Except RuleError Dims) =
      .ok ((dims.drop first).take (last + 1 - first)) := slice_eq_ok_iff.mpr ⟨by omega, rfl⟩
  have cutTrailing : (slice dims (last + 1) dims.rank : Except RuleError Dims) =
      .ok (dims.drop (last + 1)) := slice_to_end within
  have known_iff : (((dims.drop first).take (last + 1 - first)).all (0 ≤ ·)) = true ↔
      ((dims.drop first).take (last + 1 - first)).countP (· < 0) = 0 := by
    simp [List.countP_eq_zero]
  have blocks_iff : BlocksJoining dims first last ↔ 0 < (dims.drop (last + 1)).countP (· < 0) ∧
      1 < ((dims.drop first).take (last + 1 - first)).countP (· < 0) +
        (dims.drop (last + 1)).countP (· < 0) := by
    rw [BlocksJoining, countP_drop_first order]
  rw [flattenDynamic, cutTrailing, ok_bind, cutJoined, ok_bind]
  dsimp only
  split
  next none => exact fun blocks => Nat.lt_irrefl 0 (none ▸ blocks.1)
  next some =>
    split
    next single =>
      rw [known_iff] at single
      exact ends_collapsed order within (by rw [blocks_iff]; omega)
    next several =>
      rw [known_iff] at several
      exact iff_of_true ⟨_, rfl⟩ (by rw [blocks_iff]; omega)

/-- Where all extents are known, none is in the way. -/
theorem ends_flattenStatic (order : first ≤ last) (within : last < dims.length)
    (static : dims.isStatic) :
    Ends (fun e => (∃ objection, e = .dynamicShape objection) ↔ BlocksJoining dims first last)
      (fun _ => ¬BlocksJoining dims first last) (flattenStatic dims first last) := by
  have clear : ¬BlocksJoining dims first last := by
    have known : (dims.drop (last + 1)).countP (· < 0) = 0 :=
      List.countP_eq_zero.mpr fun d member => by
        simpa using Dims.isStatic_iff.mp static d (List.mem_of_mem_drop member)
    exact fun blocks => Nat.lt_irrefl 0 (known ▸ blocks.1)
  have cutLeading : (slice dims 0 first : Except RuleError Dims) = .ok (dims.take first) :=
    slice_eq_ok_iff.mpr ⟨by omega, by simp⟩
  have cutTrailing : (slice dims (last + 1) dims.rank : Except RuleError Dims) =
      .ok (dims.drop (last + 1)) := slice_to_end within
  rw [flattenStatic, cutLeading, ok_bind]
  simp only [cutTrailing, ok_bind]
  exact ends_collapsed order within clear

/-- The target is refused as a limit of dynamic shapes exactly if unknown extents are in the way. -/
theorem ends_flattenTarget (order : first ≤ last) (within : last < dims.length) :
    Ends (fun e => (∃ objection, e = .dynamicShape objection) ↔ BlocksJoining dims first last)
      (fun _ => ¬BlocksJoining dims first last) (flattenTarget dynamicShape dims first last) := by
  unfold flattenTarget
  split
  next => exact ends_flattenDynamic order within
  next static =>
    refine ends_flattenStatic order within ?_
    have known : dynamicShape = false ∧ dims.isStatic = true := by simpa using static
    exact known.2

/-! ### The rule -/

theorem lt_of_axis? {axis : Int} {rank k : Nat} (named : axis? rank axis = some k) : k < rank := by
  simp only [axis?, Option.ite_none_right_eq_some, Option.some.injEq] at named
  obtain ⟨⟨low, high⟩, rfl⟩ := named
  omega

/-- An axis in range is normalized. -/
theorem normalizeAxis_of_axis? {axis : Int} {rank k : Nat} (named : axis? rank axis = some k)
    (bounded : (rank : Int) ≤ Signed.greatest) : normalizeAxis axis rank = .ok k := by
  obtain ⟨wrapped, counted, within, rfl⟩ : ∃ wrapped : Int,
      (if axis < 0 then axis + rank else axis) = wrapped ∧ (0 ≤ wrapped ∧ wrapped < rank) ∧
        wrapped.toNat = k := by
    simp only [axis?, Option.ite_none_right_eq_some, Option.some.injEq] at named
    exact ⟨_, rfl, named⟩
  unfold normalizeAxis
  split
  next negative =>
    rw [if_pos negative] at counted
    have sum : (Signed.add axis rank : Except RuleError Int) = .ok wrapped := by
      rw [Signed.add, counted, if_pos]
      simp only [Signed.InRange, Signed.least]
      omega
    rw [sum]
    exact if_pos within
  next nonneg =>
    rw [if_neg nonneg] at counted
    rw [counted]
    exact if_pos within

/-- The operand has a value that its dimensions describe, without empty axes, whose number of elements
is a signed word. -/
structure Argument.Matches (values : Values) (operand : Argument) (dims : Dims) (t : Tensor) :
    Prop where
  value : operand.value? values = some t
  described : dims.describes t.shape
  positive : ∀ n ∈ t.shape, 0 < n
  fits : (t.shape.size : Int) ≤ Signed.greatest

/-- Layers for a node with one operand, run on values that its dimensions describe. -/
def Trial.ofOperand (state : State) (operand : Argument) (dims : Dims) : Trial where
  start := state
  Given values := ∃ t, operand.Matches values dims t
  fits := True

theorem axisAt_eq_ok {arguments : List Argument} {position rank k : Nat} {axis : Int}
    (entry : arguments[position]? = some (.constant (.int axis))) (named : axis? rank axis = some k)
    (bounded : (rank : Int) ≤ Signed.greatest) : axisAt arguments position rank = .ok k := by
  have found : argumentAt arguments position = .ok (.constant (.int axis)) := by
    rw [argumentAt, entry]
  rw [axisAt, found]
  exact normalizeAxis_of_axis? named bounded

/-- The node joins the axes of an operand from `first` to `last`, which two constants name, and has one
output that is not bound yet. The axes are counted by a signed word, as every list in memory is. -/
structure Joins (graph : Graph) (state : State) (node : Node) (operand : Argument) (v : ValueId)
    (type : TensorType) (first last : Nat) : Prop where
  signature : node.signature =
    ⟨"aten::flatten.using_ints(Tensor self, int start_dim=0, int end_dim=-1) -> (Tensor)"⟩
  inputs : ∃ a b, List.Forall₂ (fun id argument => argument? graph state id = some argument)
    node.inputs [operand, .constant (.int a), .constant (.int b)] ∧
      axis? type.dims.rank a = some first ∧ axis? type.dims.rank b = some last
  outputs : node.outputs = [v]
  fresh : state.binding? v = none
  typed : operand.type? state.network = some type
  axes : 1 ≤ type.dims.rank
  bounded : (type.dims.rank : Int) ≤ Signed.greatest
  order : first ≤ last

namespace Joins

variable {dtype : DType} (joins : Joins graph state node operand v ⟨dtype, dims⟩ first last)
include joins

/-- The node is refused for unknown extents only if they are in the way. Otherwise its output is the
operand under the shape with the axes joined, recorded with the dimensions that the reshape target
means. -/
theorem ends : (lowerNode .builtin graph node).EndsFrom state
    (fun e => (∃ objection, e = .rule (.node node) (.dynamicShape objection)) ↔
      BlocksJoining dims first last)
    fun _ next => ¬BlocksJoining dims first last ∧ ∃ target out,
      flattenTarget state.settings.dynamicShape dims first last = .ok target ∧
        Reshapes (some target) dims out ∧
        (Trial.ofOperand state operand dims).Binds v ⟨dtype, out⟩
          (fun values u => ∃ t, operand.Matches values dims t ∧
            t.reshape (t.shape.joined first last) = .ok u) next := by
  obtain ⟨a, b, given, firstAxis, lastAxis⟩ := joins.inputs
  have order := joins.order
  have within : last < dims.length := lt_of_axis? lastAxis
  have found : RuleTable.builtin.find? node.signature = some flatten := joins.signature ▸ rfl
  have reaches : (Trial.ofOperand state operand dims).Reaches state := Trial.reaches_start
  refine ends_lowerNode found given joins.outputs ?_
  refine (Trial.ends_operandAt reaches (.refl _) rfl joins.typed
    fun values ⟨t, known⟩ => ⟨t, known.value, known⟩).bind fun x s1 made => ?_
  refine .dimsOf_bind made.holds.recorded ?_
  rw [if_neg (Nat.ne_of_gt joins.axes)]
  refine .ofExcept_bind (axisAt_eq_ok rfl firstAxis joins.bounded) ?_
  refine .ofExcept_bind (axisAt_eq_ok rfl lastAxis joins.bounded) ?_
  rw [if_neg (Nat.not_lt.mpr order)]
  refine .gets_bind ?_
  rw [show s1.settings = state.settings from made.reaches.settings]
  have ends : Ends _ _ (flattenTarget state.settings.dynamicShape dims first last) :=
    ends_flattenTarget order within
  cases asked : flattenTarget state.settings.dynamicShape dims first last with
  | error e =>
    rw [asked] at ends
    have fair : (∃ objection, e = .dynamicShape objection) ↔ BlocksJoining dims first last := ends
    show (∃ objection, LoweringError.rule (.node node) e = .rule (.node node)
      (.dynamicShape objection)) ↔ BlocksJoining dims first last
    simpa using fair
  | ok target =>
    rw [asked] at ends
    refine .ofExcept_bind rfl ?_
    refine (Trial.ends_laid made.reaches (fun t => t.shape.joined first last) made.holds
      (fun _ e => iff_of_false ?_ ends) ?_).bind ?_
    · rintro ⟨_, same⟩
      cases same
    · -- What the target means as dimensions, it means for every value that they describe.
      rintro out reshapes values t - ⟨-, described, positive, fits⟩
      have rank : dims.length = t.shape.length := (Dims.describes_iff.mp described).length_eq
      exact Tensor.shuffle_of_fills
        (fills_of_flattenTarget order (rank ▸ within) described positive asked reshapes.mem_target)
        reshapes.count_inferred (size_joined order) positive fits
    · rintro z s2 ⟨out, reshapes, laid⟩
      refine (Trial.ends_bindOutput laid.reaches laid.holds joins.outputs joins.fresh).mono
        fun _ next binds => ⟨⟨ends, target, out, rfl, reshapes, binds⟩, binds.exists_type joins.fresh⟩

end Joins

/-- A node that joins a range of axes of an operand, whose extents may be unknown, emits layers that
give every value that the dimensions describe under the shape with the axes joined, with the same data.
It is refused as a limit of dynamic shapes exactly if unknown extents are in the way: one behind the
range and another one that is behind it or within. -/
theorem flatten_node_joins {dtype : DType}
    (joins : Joins graph state node operand v ⟨dtype, dims⟩ first last) :
    (∀ next, (lowerNode .builtin graph node).run state = (.ok (), next) →
      ∃ layers z type, state.Emits next layers v z type ∧ ∀ values t, operand.Matches values dims t →
        next.network.tensors.length ≤ values.length →
        ∃ final u, runLayers layers values = (final, .ok ()) ∧ final.get? z = some u ∧
          u.dtype = t.dtype ∧ u.shape = t.shape.joined first last ∧ u.data = t.data) ∧
    ((∃ objection next, (lowerNode .builtin graph node).run state =
        (.error (.rule (.node node) (.dynamicShape objection)), next)) ↔
      BlocksJoining dims first last) := by
  constructor
  · intro next ran
    obtain ⟨-, target, out, -, -, binds⟩ := joins.ends.result ran
    obtain ⟨layers, z, emits, runs⟩ := binds.emits joins.fresh
    refine ⟨layers, z, _, emits, fun values t known room => ?_⟩
    obtain ⟨succeeds, computed⟩ := runs values ⟨t, known⟩ room
    obtain ⟨final, finished⟩ := succeeds trivial
    obtain ⟨u, value, t', known', laid⟩ := computed final finished
    cases known.value.symm.trans known'.value
    obtain ⟨dtype', shape, data⟩ := Tensor.reshape_eq_ok_iff.mp laid
    exact ⟨final, u, finished, value, dtype', shape, data⟩
  · rcases ran : (lowerNode .builtin graph node).run state with ⟨e | _, next⟩
    · rw [← joins.ends.error ran]
      simp
    · exact iff_of_false nofun (joins.ends.result ran).1

/-! ### Joining all axes but the last one -/

/-- Joins all axes but the last one. -/
def rowingNode : Node :=
  ⟨⟨"aten::flatten.using_ints(Tensor self, int start_dim=0, int end_dim=-1) -> (Tensor)"⟩,
    [⟨0⟩, ⟨1⟩, ⟨2⟩], [⟨3⟩]⟩

/-- The graph of that node. -/
def rowingGraph (dims : Dims) : Graph where
  values := [⟨"stack", .input .i32 dims⟩, ⟨"start_dim", .constant (.int 0)⟩,
    ⟨"end_dim", .constant (.int (-2))⟩, ⟨"rows", .tensor⟩]
  nodes := [rowingNode]
  inputs := [⟨0⟩]
  outputs := [⟨3⟩]

/-- The state in which the node is lowered. -/
def rowingState (dims : Dims) : State where
  settings := ⟨false, ⟨0, 8, 6⟩⟩
  network := ⟨[⟨"input_0", .i32, dims⟩], [], [⟨0⟩], []⟩
  bindings := [(⟨0⟩, ⟨0⟩)]
  frozen := 0
  journal := []

theorem joins_rowing (stack rows columns : Int) :
    Joins (rowingGraph [stack, rows, columns]) (rowingState [stack, rows, columns]) rowingNode
      (.tensor ⟨0⟩) ⟨3⟩ ⟨.i32, [stack, rows, columns]⟩ 0 1 where
  signature := rfl
  inputs := ⟨0, -2, .cons rfl (.cons rfl (.cons rfl .nil)), rfl, rfl⟩
  outputs := rfl
  fresh := rfl
  typed := rfl
  axes := Nat.le_add_left 1 2
  bounded := show ((3 : Nat) : Int) ≤ Signed.greatest by decide
  order := Nat.zero_le 1

/-- Two matrices of two rows, with one number in a row. -/
def rowedStack : Tensor :=
  ⟨.i32, [2, 2, 1], [1, 0, 0, 0, 2, 0, 0, 0, 3, 0, 0, 0, 4, 0, 0, 0], rfl⟩

/-- Two matrices of two rows give four rows, of any length. If the number of matrices is unknown too,
the node is refused. -/
theorem flatten_node_joins_rows :
    (∃ next layers z type, (lowerNode .builtin (rowingGraph [2, 2, -1]) rowingNode).run
        (rowingState [2, 2, -1]) = (.ok (), next) ∧
      (rowingState [2, 2, -1]).Emits next layers ⟨3⟩ z type ∧
      ∃ values final u, runLayers layers values = (final, .ok ()) ∧ final.get? z = some u ∧
        u.shape = [4, 1] ∧ u.data = rowedStack.data) ∧
    ∃ objection next, (lowerNode .builtin (rowingGraph [-1, 2, -1]) rowingNode).run
      (rowingState [-1, 2, -1]) =
        (.error (.rule (.node rowingNode) (.dynamicShape objection)), next) := by
  constructor
  · have accepted : ∃ next, (lowerNode .builtin (rowingGraph [2, 2, -1]) rowingNode).run
      (rowingState [2, 2, -1]) = (.ok (), next) := ⟨_, rfl⟩
    obtain ⟨next, ran⟩ := accepted
    obtain ⟨layers, z, type, emits, runs⟩ := (flatten_node_joins (joins_rowing 2 2 (-1))).1 next ran
    obtain ⟨final, u, finished, value, -, shape, data⟩ := runs
      (some rowedStack :: List.replicate next.network.tensors.length none) rowedStack
      ⟨rfl, by decide, by decide, by decide⟩ (by simp)
    exact ⟨next, layers, z, type, ran, emits, _, final, u, finished, value, shape, data⟩
  · exact (flatten_node_joins (joins_rowing (-1) 2 (-1))).2.mpr (by decide)

end Lowering

end TensorEngine
