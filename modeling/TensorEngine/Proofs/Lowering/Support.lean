import Mathlib.Data.String.Basic
import TensorEngine.Proofs.Graph.Built
import TensorEngine.Proofs.Lowering.Contract
import TensorEngine.Proofs.Lowering.Outcomes
import TensorEngine.Proofs.Network.Names

/-!
# Unsupported operations

Which operations of a graph have no rule can be asked beforehand: the nodes are looked at in the order
in which they were added, and their schemas are listed. A lowering goes through the nodes in an order of
execution, and may end at any of them, because a rule may be a program of anyone. Both speak about the
same operations. A lowering that succeeds has found a rule for every node, one that reports an operation
as unsupported has reached the first node without a rule, and nothing but an error of an earlier node
keeps it from getting there: neither the inputs nor the outputs of a graph, and no rule, end it with such
a report.

## Main definitions

* `RuleTable.Registers`: the table has a rule for a signature
* `Lowering.Converts`: the inputs of a graph and some of its nodes are lowered
* `Lowering.IsFirstMissing`, `Lowering.FailsAt`: the first node without a rule, and the node that ends a
  lowering
* `Lowering.FailsClosed`: what a lowering says about unsupported operations

## Main results

* `Graph.nodup_inputs_built`: the declared inputs of a graph are different
* `exists_run_lowerInputs`: the inputs of a graph are always lowered
* `run_lowerNodes_cases`: nodes are all lowered, or one of them ends the lowering
* `lowering_fails_closed`: lowering fails closed on unsupported operations
-/

namespace TensorEngine

/-! ### Schemas without repetition -/

theorem nodup_eraseDups {α : Type} [BEq α] [LawfulBEq α] (xs : List α) : xs.eraseDups.Nodup := by
  -- What is left of the tail is shorter, but not a part of the list.
  induction count : xs.length using Nat.strong_induction_on generalizing xs with
  | _ count ih =>
    cases xs with
    | nil => simp
    | cons x xs =>
      rw [List.eraseDups_cons, List.nodup_cons]
      refine ⟨by simp [List.mem_eraseDups], ih _ ?_ _ rfl⟩
      rw [← count]
      exact Nat.lt_succ_of_le (List.length_filter_le _ xs)

namespace Lowering

/-- The table has a rule for the signature. -/
def RuleTable.Registers (table : RuleTable) (signature : Signature) : Prop :=
  ∃ rule, (signature, rule) ∈ table.rules

theorem RuleTable.contains_iff {table : RuleTable} {signature : Signature} :
    table.contains signature ↔ table.Registers signature := by
  rw [RuleTable.contains, RuleTable.find?, lookup_isSome_iff_mem]
  simp [Registers]

theorem RuleTable.find?_eq_none_iff {table : RuleTable} {signature : Signature} :
    table.find? signature = none ↔ ¬ table.Registers signature := by
  rw [← RuleTable.contains_iff, RuleTable.contains, Bool.not_eq_true, Option.isSome_eq_false_iff,
    Option.isNone_iff_eq_none]

section Unsupported

variable {table : RuleTable} {graph : Graph} {schema : String}

theorem mem_unsupported_iff : schema ∈ unsupported table graph ↔
    ∃ node ∈ graph.nodes, node.signature.schema = schema ∧ ¬ table.Registers node.signature := by
  simp only [unsupported, mem_sorted, List.mem_eraseDups, List.mem_map, List.mem_filter,
    ← RuleTable.contains_iff, Bool.not_eq_true', Bool.not_eq_true]
  exact exists_congr fun node => and_right_comm.trans and_assoc

/-- The schemas ascend, and none of them is listed twice. -/
theorem pairwise_unsupported (table : RuleTable) (graph : Graph) :
    (unsupported table graph).Pairwise (· < ·) := by
  have ascending : (unsupported table graph).Pairwise (decide <| · ≤ ·) :=
    sorted_pairwise (fun a b c ab bc => by simp at *; exact le_trans ab bc)
      (fun a b => by simpa using le_total a b) _
  have distinct : (unsupported table graph).Nodup :=
    (sorted_perm _ _).nodup_iff.mpr (nodup_eraseDups _)
  exact (ascending.and distinct).imp fun ⟨le, ne⟩ => lt_of_le_of_ne (by simpa using le) ne

end Unsupported

end Lowering

/-! ### Inputs -/

namespace Graph

theorem inputs_declareMany (graph : Graph) (count : Nat) :
    (graph.declareMany count).2.inputs = graph.inputs := by
  induction count generalizing graph with
  | zero => rfl
  | succ count ih => exact ih _

/-- The declared inputs of a graph that calls build are different. -/
theorem nodup_inputs_built (calls : List Call) : (built calls).inputs.Nodup := by
  have kept : ∀ (calls : List Call) (graph : Graph), graph.ListsInputs → graph.inputs.Nodup →
      (calls.foldl Graph.after graph).inputs.Nodup := by
    intro calls
    induction calls with
    | nil => exact fun _ _ distinct => distinct
    | cons call calls ih =>
      refine fun graph lists distinct => ih _ (lists.after call) ?_
      cases call with
      | addInput name dtype dims =>
        -- A declared input is a value already, so the next id is none of them.
        have fresh : graph.nextId ∉ graph.inputs := fun listed => by
          obtain ⟨_, _, _, known⟩ := (lists _).mp listed
          simp [value_eq_ok_iff, nextId] at known
        have concat := distinct.concat fresh
        rwa [List.concat_eq_append] at concat
      | addOp signature inputs count =>
        have same : (graph.addOp signature inputs count).2.inputs = graph.inputs :=
          graph.inputs_declareMany count
        rwa [Graph.after, same]
      | addConstant | declare | addNode | markOutput => exact distinct
  exact kept calls .empty .empty List.nodup_nil

end Graph

/-- Inputs at different positions have different names. -/
theorem BindingName.input_injective : Function.Injective BindingName.input := by
  intro i j same
  have digits : Nat.toDigits 10 i = Nat.toDigits 10 j := by
    have text := congrArg (·.text.toList) same
    simpa [BindingName.input, BindingName.toList_labelled] using text
  rw [← Nat.ofDigitChars_toDigits (b := 10) (n := i) (by decide) (by decide), digits,
    Nat.ofDigitChars_toDigits (by decide) (by decide)]

namespace Lowering

open Program

variable {table : RuleTable} {graph : Graph} {settings : Settings} {state : State}

/-- Inputs that are different and not bound yet are lowered, if their names are free. -/
theorem exists_run_lowerInputs {position : Nat} {ids : List ValueId}
    (kinds : ∀ id ∈ ids, ∃ name dtype dims, graph.value id = .ok ⟨name, .input dtype dims⟩)
    (distinct : ids.Nodup) (unbound : ∀ id ∈ ids, state.binding? id = none)
    (free : ∀ k, position ≤ k → state.network.find? (BindingName.input k).text = none) :
    ∃ next, (lowerInputs graph position ids).run state = (.ok (), next) := by
  induction ids generalizing position state with
  | nil => exact ⟨state, rfl⟩
  | cons id ids ih =>
    obtain ⟨⟨name, dtype, dims, known⟩, kinds⟩ := List.forall_mem_cons.mp kinds
    obtain ⟨absent, distinct⟩ := List.nodup_cons.mp distinct
    obtain ⟨fresh, unbound⟩ := List.forall_mem_cons.mp unbound
    let tensor : NetworkTensor := ⟨(BindingName.input position).text, dtype, dims⟩
    let network : Network :=
      { state.network.push tensor with inputs := state.network.inputs ++ [state.network.nextId] }
    let bindings := state.bindings ++ [(id, state.network.nextId)]
    have added : state.edit (.addInput tensor.name dtype dims) =
        (.ok state.network.nextId, { state with network := network }) :=
      State.edit_eq_ok_iff.mpr
        ⟨_, Network.call_addInput_eq_ok_iff.mpr ⟨free _ le_rfl, rfl, rfl⟩, rfl⟩
    have recorded : network.tensor state.network.nextId = .ok tensor :=
      Network.tensor_eq_ok_iff.mpr List.getElem?_concat_length
    have bound : ({ state with network := network } : State).bind id state.network.nextId =
        (.ok state.network.nextId, { state with network := network, bindings := bindings }) :=
      State.binds_iff.mpr ⟨⟨tensor, recorded⟩, fresh, rfl, rfl⟩
    -- The other inputs are as before: neither their ids nor their names were used up.
    have unbound' : ∀ other ∈ ids, bindings.lookup other = none := fun other member => by
      have different : other ≠ id := fun same => absent (same ▸ member)
      have unbound := unbound other member
      rw [State.binding?] at unbound
      simp [bindings, List.lookup_append, unbound, different]
    have free' : ∀ k, position + 1 ≤ k → network.find? (BindingName.input k).text = none := by
      intro k later
      have others := Network.find?_eq_none_iff.mp (free k (Nat.le_of_succ_le later))
      refine Network.find?_eq_none_iff.mpr fun t member => ?_
      rcases List.mem_append.mp member with old | new
      · exact others t old
      · rw [List.mem_singleton.mp new]
        intro same
        have := BindingName.input_injective (congrArg BindingName.mk same)
        omega
    obtain ⟨last, ran⟩ : ∃ last, (lowerInputs graph (position + 1) ids).run
        { state with network := network, bindings := bindings } = (.ok (), last) :=
      ih kinds distinct unbound' free'
    refine ⟨last, run_bind_eq_ok_iff.mpr ⟨_, state, run_ofExcept_eq_ok_iff.mpr
      ⟨mapError_eq_ok_iff.mpr known, rfl⟩, ?_⟩⟩
    refine run_bind_eq_ok_iff.mpr ⟨_, _, run_mapError_eq_ok_iff.mpr
      (run_perform_eq_ok_iff.mpr added), ?_⟩
    exact run_bind_eq_ok_iff.mpr ⟨_, _, run_mapError_eq_ok_iff.mpr
      (run_associate_eq_ok_iff.mpr bound), ran⟩

/-- The inputs of a graph that calls build are lowered if the graph has an order of execution. -/
theorem exists_run_inputs (settings : Settings) (calls : List Graph.Call) {order : List Nat}
    (ordered : (Graph.built calls).order = .ok order) :
    ∃ first, (lowerInputs (.built calls) 0 (Graph.built calls).inputs).run (.start settings) =
      (.ok (), first) :=
  exists_run_lowerInputs (Graph.inputs_of_order ordered) (Graph.nodup_inputs_built calls)
    (fun _ _ => rfl) fun _ _ => rfl

/-! ### Reports -/

/-- Whatever state it starts from, the program does not report an operation as unsupported. -/
def Program.Supported {α : Type} (program : Program LoweringError α) : Prop :=
  ∀ state, program.EndsFrom state (fun e => ∀ signature, e ≠ .unsupportedOperation signature)
    fun _ _ => True

namespace Program.Supported

variable {ε α β : Type} {program : Program LoweringError α}

theorem done (a : α) : (Program.done a).Supported :=
  fun _ => .done trivial

theorem bind {next : α → Program LoweringError β} (first : program.Supported)
    (later : ∀ a, (next a).Supported) : (program >>= next).Supported :=
  fun state => (first state).bind fun a middle _ => later a middle

/-- Errors that are replaced by others are no reports. -/
theorem mapError {f : ε → LoweringError} (program : Program ε α)
    (others : ∀ e signature, f e ≠ .unsupportedOperation signature) :
    (program.mapError f).Supported :=
  fun _ => .mapError (.of_outcomes (fun _ _ _ => trivial) fun e _ _ => others e)

theorem ofExcept {f : ε → LoweringError} (result : Except ε α)
    (others : ∀ e signature, f e ≠ .unsupportedOperation signature) :
    (ofExcept (result.mapError f)).Supported := by
  intro state
  cases result with
  | ok a => exact .done trivial
  | error e => exact others e

theorem refuse {e : LoweringError} (other : ∀ signature, e ≠ .unsupportedOperation signature) :
    (refuse e : Program LoweringError α).Supported :=
  fun _ => other

theorem gets_bind {f : State → α} {next : α → Program LoweringError β}
    (later : ∀ a, (next a).Supported) : (gets f >>= next).Supported :=
  fun state => .gets_bind (later (f state) state)

end Program.Supported

variable {node : Node}

theorem supported_argumentOf (id : ValueId) : (argumentOf graph node id).Supported := by
  refine (Supported.ofExcept _ nofun).bind fun value => ?_
  split
  next => exact .done _
  next =>
    refine .gets_bind fun bound => ?_
    split
    next => exact .done _
    next => exact .refuse nofun

theorem supported_argumentsOf (ids : List ValueId) : (argumentsOf graph node ids).Supported := by
  induction ids with
  | nil => exact .done _
  | cons id ids ih => exact (supported_argumentOf id).bind fun _ => ih.bind fun _ => .done _

theorem supported_checkBound (ids : List ValueId) : (checkBound node ids).Supported := by
  induction ids with
  | nil => exact .done _
  | cons id ids ih =>
    refine .gets_bind fun bound => ?_
    split
    next => exact .refuse nofun
    next => exact .gets_bind fun _ => (Supported.ofExcept _ nofun).bind fun _ => ih

/-- A node is reported as unsupported if there is no rule for it, and for no other reason. -/
theorem supported_lowerNode (registered : table.Registers node.signature) :
    (lowerNode table graph node).Supported := by
  unfold lowerNode
  split
  next missing => exact absurd registered (RuleTable.find?_eq_none_iff.mp missing)
  next rule _ =>
    refine (supported_argumentsOf _).bind fun arguments => ?_
    exact (Supported.mapError _ nofun).bind fun _ => supported_checkBound _

theorem run_lowerNode_of_not_registered (missing : ¬ table.Registers node.signature) :
    (lowerNode table graph node).run state = (.error (.unsupportedOperation node.signature), state) := by
  rw [lowerNode, RuleTable.find?_eq_none_iff.mpr missing]
  rfl

theorem supported_outputTensor (id : ValueId) : (outputTensor graph id).Supported := by
  refine (Supported.ofExcept _ nofun).bind fun value => .gets_bind fun bound => ?_
  split
  next => exact .done _
  next => exact .mapError _ nofun
  next => exact .refuse nofun

theorem supported_exportable (name : BindingName) (x : TensorId) : (exportable name x).Supported := by
  refine .gets_bind fun marked => ?_
  split
  next => exact .mapError _ nofun
  next => exact .done _

theorem supported_lowerOutputs (position : Nat) (ids : List ValueId) :
    (lowerOutputs graph position ids).Supported := by
  induction ids generalizing position with
  | nil => exact .done _
  | cons id ids ih =>
    refine (supported_outputTensor id).bind fun x => (supported_exportable _ x).bind fun y => ?_
    exact (Supported.mapError _ nofun).bind fun _ => ih _

/-! ### The node that ends a lowering -/

/-- In the order, the node stands right behind the positions `before`. -/
def IsNext (graph : Graph) (order before : List Nat) (node : Node) : Prop :=
  ∃ position after, order = before ++ position :: after ∧ graph.nodes[position]? = some node

/-- The first node of the order that the table has no rule for, and the positions before it. -/
structure IsFirstMissing (table : RuleTable) (graph : Graph) (order before : List Nat) (node : Node) :
    Prop where
  next : IsNext graph order before node
  missing : ¬ table.Registers node.signature
  registered : ∀ position ∈ before, ∀ earlier ∈ graph.nodes[position]?,
    table.Registers earlier.signature

/-- The inputs of the graph, and then the nodes at these positions one after the other, are lowered
without an error, up to the state `last`. -/
def Converts (table : RuleTable) (settings : Settings) (graph : Graph) (positions : List Nat)
    (last : State) : Prop :=
  ∃ first, (lowerInputs graph 0 graph.inputs).run (.start settings) = (.ok (), first) ∧
    (lowerNodes table graph positions).run first = (.ok (), last)

/-- What stands before the node in the order is lowered without an error, and the node is not. -/
def FailsAt (table : RuleTable) (settings : Settings) (graph : Graph) (order before : List Nat)
    (node : Node) (e : LoweringError) : Prop :=
  IsNext graph order before node ∧ ∃ state last, Converts table settings graph before state ∧
    (lowerNode table graph node).run state = (.error e, last)

theorem IsNext.append {order before : List Nat} (h : IsNext graph order before node)
    (later : List Nat) : IsNext graph (order ++ later) before node := by
  obtain ⟨position, after, rfl, entry⟩ := h
  exact ⟨position, after ++ later, by simp, entry⟩

theorem run_lowerNodes_cons {position : Nat} (entry : graph.nodes[position]? = some node)
    (rest : List Nat) : (lowerNodes table graph (position :: rest)).run state =
      (lowerNode table graph node >>= fun _ => lowerNodes table graph rest).run state := by
  have found : (ofGraph (TensorEngine.entry graph.nodes position)).run state = (.ok node, state) :=
    run_ofExcept_eq_ok_iff.mpr ⟨mapError_eq_ok_iff.mpr (entry_eq_ok_iff.mpr entry), rfl⟩
  rw [lowerNodes, run_bind, found]

/-- Nodes are lowered if the first one is, and then the others are. -/
theorem run_lowerNodes_cons_eq_ok_iff {position : Nat} {rest : List Nat} {last : State} :
    (lowerNodes table graph (position :: rest)).run state = (.ok (), last) ↔
      ∃ node middle, graph.nodes[position]? = some node ∧
        (lowerNode table graph node).run state = (.ok (), middle) ∧
        (lowerNodes table graph rest).run middle = (.ok (), last) := by
  constructor
  · intro ran
    obtain ⟨node, _, ranEntry, -⟩ := run_bind_eq_ok_iff.mp ran
    have entry := entry_eq_ok_iff.mp (mapError_eq_ok_iff.mp (run_ofExcept_eq_ok_iff.mp ranEntry).1)
    rw [run_lowerNodes_cons entry] at ran
    obtain ⟨_, middle, ranNode, ranRest⟩ := run_bind_eq_ok_iff.mp ran
    exact ⟨node, middle, entry, ranNode, ranRest⟩
  · rintro ⟨node, middle, entry, ranNode, ranRest⟩
    rw [run_lowerNodes_cons entry]
    exact run_bind_eq_ok_iff.mpr ⟨(), middle, ranNode, ranRest⟩

/-- Positions of nodes are all lowered, or one of them ends the lowering. -/
theorem run_lowerNodes_cases (table : RuleTable) {order : List Nat}
    (within : ∀ position ∈ order, position < graph.nodes.length) (state : State) :
    (∃ last, (lowerNodes table graph order).run state = (.ok (), last)) ∨
      ∃ before node middle e last, IsNext graph order before node ∧
        (lowerNodes table graph before).run state = (.ok (), middle) ∧
        (lowerNode table graph node).run middle = (.error e, last) := by
  induction order generalizing state with
  | nil => exact .inl ⟨state, rfl⟩
  | cons position order ih =>
    obtain ⟨below, within⟩ := List.forall_mem_cons.mp within
    have entry := List.getElem?_eq_getElem below
    rcases ran : (lowerNode table graph graph.nodes[position]).run state with ⟨e | _, middle⟩
    · exact .inr ⟨[], _, state, e, middle, ⟨position, order, rfl, entry⟩, rfl, ran⟩
    · have step {rest : List Nat} {last : State}
          (ranRest : (lowerNodes table graph rest).run middle = (.ok (), last)) :
          (lowerNodes table graph (position :: rest)).run state = (.ok (), last) :=
        run_lowerNodes_cons_eq_ok_iff.mpr ⟨_, middle, entry, ran, ranRest⟩
      rcases ih within middle with
        ⟨last, ranRest⟩ | ⟨before, node, state', e, last, next, ranBefore, failed⟩
      · exact .inl ⟨last, step ranRest⟩
      · obtain ⟨place, after, rfl, entry'⟩ := next
        exact .inr ⟨position :: before, node, state', e, last, ⟨place, after, rfl, entry'⟩,
          step ranBefore, failed⟩

/-- An error of a node is the error of all of them, if the nodes before it are lowered. -/
theorem run_lowerNodes_of_failed {order before : List Nat} {middle last : State} {e : LoweringError}
    (next : IsNext graph order before node)
    (ranBefore : (lowerNodes table graph before).run state = (.ok (), middle))
    (failed : (lowerNode table graph node).run middle = (.error e, last)) :
    (lowerNodes table graph order).run state = (.error e, last) := by
  obtain ⟨position, after, rfl, entry⟩ := next
  induction before generalizing state with
  | nil =>
    cases ranBefore
    rw [List.nil_append, run_lowerNodes_cons entry, run_bind, failed]
  | cons first before ih =>
    obtain ⟨node', state', entry', ranFirst, ranBefore⟩ := run_lowerNodes_cons_eq_ok_iff.mp ranBefore
    rw [List.cons_append, run_lowerNodes_cons entry', run_bind, ranFirst]
    exact ih ranBefore

/-- There is a rule for every node that is lowered. -/
theorem registered_of_run_lowerNodes {order : List Nat} {last : State}
    (ran : (lowerNodes table graph order).run state = (.ok (), last)) :
    ∀ position ∈ order, ∀ node ∈ graph.nodes[position]?, table.Registers node.signature := by
  induction order generalizing state with
  | nil => exact nofun
  | cons position order ih =>
    obtain ⟨node, middle, entry, ranNode, ranRest⟩ := run_lowerNodes_cons_eq_ok_iff.mp ran
    refine List.forall_mem_cons.mpr ⟨fun node' entry' => ?_, ih ranRest⟩
    obtain rfl := Option.some.inj (entry.symm.trans entry')
    by_contra missing
    rw [run_lowerNode_of_not_registered missing] at ranNode
    cases ranNode

/-! ### Graphs -/

section Graphs

variable {order before : List Nat} {last : State} {e : LoweringError}

theorem lower_eq_error_iff : lower table settings graph = .error e ↔
    ∃ last, (lowering table graph).run (.start settings) = (.error e, last) := by
  rw [lower, lowerWithState]
  rcases (lowering table graph).run (.start settings) with ⟨answer, state⟩
  cases answer <;> simp [Except.map]

/-- After the inputs, a lowering goes on with the nodes. -/
theorem run_lowering_of_order {first : State} (ordered : graph.order = .ok order)
    (ran : (lowerInputs graph 0 graph.inputs).run state = (.ok (), first)) :
    (lowering table graph).run state =
      (lowerNodes table graph order >>= fun _ => lowerOutputs graph 0 graph.outputs).run first := by
  have ranOrder : (ofGraph graph.order).run state = (.ok order, state) :=
    run_ofExcept_eq_ok_iff.mpr ⟨mapError_eq_ok_iff.mpr ordered, rfl⟩
  rw [lowering, run_bind, ranOrder]
  dsimp only
  rw [run_bind, ran]

/-- The node that fails ends the lowering with its error. -/
theorem FailsAt.lower_eq_error (h : FailsAt table settings graph order before node e)
    (ordered : graph.order = .ok order) : lower table settings graph = .error e := by
  obtain ⟨next, state, last, ⟨first, ranInputs, ranBefore⟩, failed⟩ := h
  refine lower_eq_error_iff.mpr ⟨last, ?_⟩
  rw [run_lowering_of_order ordered ranInputs, run_bind,
    run_lowerNodes_of_failed next ranBefore failed]

theorem FailsAt.append (h : FailsAt table settings graph order before node e) (later : List Nat) :
    FailsAt table settings graph (order ++ later) before node e :=
  ⟨h.1.append later, h.2⟩

/-- Where everything before it is lowered, the first node without a rule fails. -/
theorem IsFirstMissing.failsAt (h : IsFirstMissing table graph order before node)
    (converts : Converts table settings graph before last) :
    FailsAt table settings graph order before node (.unsupportedOperation node.signature) :=
  ⟨h.next, last, last, converts, run_lowerNode_of_not_registered h.missing⟩

/-- If a node has no rule, there is a first one in the order. -/
theorem exists_isFirstMissing (ordered : graph.order = .ok order)
    (missing : ∃ node ∈ graph.nodes, ¬ table.Registers node.signature) :
    ∃ before node, IsFirstMissing table graph order before node := by
  classical
  obtain ⟨node, member, missing⟩ := missing
  obtain ⟨position, listed, entry⟩ := Graph.mem_order ordered member
  let lacks (position : Nat) : Prop :=
    ∃ node ∈ graph.nodes[position]?, ¬ table.Registers node.signature
  have found : (order.find? (decide <| lacks ·)).isSome := by
    rw [List.find?_isSome]
    exact ⟨position, listed, decide_eq_true ⟨node, entry, missing⟩⟩
  obtain ⟨position, first⟩ := Option.isSome_iff_exists.mp found
  obtain ⟨lack, before, after, split, earlier⟩ := List.find?_eq_some_iff_append.mp first
  obtain ⟨node, entry, missing⟩ := of_decide_eq_true lack
  refine ⟨before, node, ⟨position, after, split, entry⟩, missing, fun position listed node entry => ?_⟩
  have complete : ¬ lacks position := by simpa using earlier position listed
  exact not_not.mp fun missing => complete ⟨node, entry, missing⟩

theorem lt_of_order (ordered : graph.order = .ok order) :
    ∀ position ∈ order, position < graph.nodes.length := fun _ listed =>
  List.mem_range.mp ((Graph.perm_of_order ordered).mem_iff.mp listed)

/-- A graph that is lowered has a rule for each of its nodes. -/
theorem unsupported_eq_nil_of_lower {result : Lowered}
    (accepted : lower table settings graph = .ok result) : unsupported table graph = [] := by
  obtain ⟨last, ran, -⟩ := lower_eq_ok_iff.mp accepted
  obtain ⟨order, _, _, ordered, -, ranNodes, -⟩ := run_lowering_eq_ok_iff.mp ran
  refine List.eq_nil_iff_forall_not_mem.mpr fun schema listed => ?_
  obtain ⟨node, member, -, missing⟩ := mem_unsupported_iff.mp listed
  obtain ⟨position, listed, entry⟩ := Graph.mem_order ordered member
  exact missing (registered_of_run_lowerNodes ranNodes position listed node entry)

/-- A report stems from the first node without a rule. -/
theorem exists_isFirstMissing_of_report {first : State} {signature : Signature}
    (ordered : graph.order = .ok order)
    (ranInputs : (lowerInputs graph 0 graph.inputs).run (.start settings) = (.ok (), first))
    (report : lower table settings graph = .error (.unsupportedOperation signature)) :
    ∃ before node state, IsFirstMissing table graph order before node ∧
      Converts table settings graph before state ∧ node.signature = signature := by
  obtain ⟨last, ran⟩ := lower_eq_error_iff.mp report
  rw [run_lowering_of_order ordered ranInputs, run_bind] at ran
  rcases run_lowerNodes_cases table (lt_of_order ordered) first with
    ⟨second, ranNodes⟩ | ⟨before, node, middle, e, second, next, ranBefore, failed⟩
  · -- Outputs are not reported.
    rw [ranNodes] at ran
    exact absurd rfl ((supported_lowerOutputs _ _ second).error ran signature)
  · rw [run_lowerNodes_of_failed next ranBefore failed] at ran
    cases ran
    -- A node that has a rule is not reported either.
    have missing : ¬ table.Registers node.signature := fun registered =>
      (supported_lowerNode registered middle).error failed signature rfl
    rw [run_lowerNode_of_not_registered missing] at failed
    cases failed
    exact ⟨before, node, _, ⟨next, missing, registered_of_run_lowerNodes ranBefore⟩,
      ⟨first, ranInputs, ranBefore⟩, rfl⟩

/-- The first node without a rule is reported, unless a node before it fails for another reason. -/
theorem IsFirstMissing.reported_or_failsAt {first : State}
    (h : IsFirstMissing table graph order before node) (ordered : graph.order = .ok order)
    (ranInputs : (lowerInputs graph 0 graph.inputs).run (.start settings) = (.ok (), first)) :
    lower table settings graph = .error (.unsupportedOperation node.signature) ∨
      ∃ before' node' e, FailsAt table settings graph before before' node' e ∧
        (∀ signature, e ≠ .unsupportedOperation signature) ∧
        lower table settings graph = .error e := by
  obtain ⟨position, after, rfl, -⟩ := h.next
  have within := (List.forall_mem_append.mp (lt_of_order ordered)).1
  rcases run_lowerNodes_cases table within first with
    ⟨last, ranNodes⟩ | ⟨before', node', middle, e, last, next, ranBefore, failed⟩
  · exact .inl ((h.failsAt ⟨first, ranInputs, ranNodes⟩).lower_eq_error ordered)
  · have fails : FailsAt table settings graph before before' node' e :=
      ⟨next, middle, last, ⟨first, ranInputs, ranBefore⟩, failed⟩
    refine .inr ⟨before', node', e, fails, ?_, (fails.append _).lower_eq_error ordered⟩
    -- The failing node stands before the first one without a rule, so it has one.
    obtain ⟨place, after', rfl, entry⟩ := next
    have registered := h.registered place (by simp) node' entry
    exact (supported_lowerNode registered middle).error failed

end Graphs

/-- What the lowering of a graph says about operations that the table has no rule for. -/
structure FailsClosed (table : RuleTable) (settings : Settings) (graph : Graph) : Prop where
  /-- Beforehand they are listed in ascending order, each once, -/
  ascending : (unsupported table graph).Pairwise (· < ·)
  /-- and they are those of the nodes without a rule. -/
  listed : ∀ schema, schema ∈ unsupported table graph ↔
    ∃ node ∈ graph.nodes, node.signature.schema = schema ∧ ¬ table.Registers node.signature
  /-- A graph is lowered only if there are none. -/
  lowered : ∀ result, lower table settings graph = .ok result → unsupported table graph = []
  /-- What is reported as unsupported is the operation of the first node without a rule, after everything
  before the node was lowered. -/
  reported : ∀ signature, lower table settings graph = .error (.unsupportedOperation signature) ↔
    ∃ order before node state, graph.order = .ok order ∧
      IsFirstMissing table graph order before node ∧ Converts table settings graph before state ∧
      node.signature = signature
  /-- If there are some, the first one is reported, or else another error of a node before it. -/
  refused : ∀ order, graph.order = .ok order → unsupported table graph ≠ [] →
    ∃ before node, IsFirstMissing table graph order before node ∧
      (lower table settings graph = .error (.unsupportedOperation node.signature) ∨
        ∃ before' node' e, FailsAt table settings graph before before' node' e ∧
          (∀ signature, e ≠ .unsupportedOperation signature) ∧
          lower table settings graph = .error e)

/-- Whatever the rules of a table, the graph and the settings are: lowering fails closed. -/
theorem lowering_fails_closed (table : RuleTable) (settings : Settings) (calls : List Graph.Call) :
    FailsClosed table settings (.built calls) where
  ascending := pairwise_unsupported _ _
  listed _ := mem_unsupported_iff
  lowered _ := unsupported_eq_nil_of_lower
  reported signature := by
    constructor
    · intro report
      rcases ordered : (Graph.built calls).order with e | order
      · obtain ⟨last, ran⟩ := lower_eq_error_iff.mp report
        rw [lowering, ordered] at ran
        cases ran
      · obtain ⟨first, ranInputs⟩ := exists_run_inputs settings calls ordered
        obtain ⟨before, node, state, found⟩ :=
          exists_isFirstMissing_of_report ordered ranInputs report
        exact ⟨order, before, node, state, rfl, found⟩
    · rintro ⟨order, before, node, state, ordered, first, converts, rfl⟩
      exact (first.failsAt converts).lower_eq_error ordered
  refused order ordered some := by
    obtain ⟨schema, listed⟩ := List.exists_mem_of_ne_nil _ some
    obtain ⟨node, member, -, missing⟩ := mem_unsupported_iff.mp listed
    obtain ⟨before, node, first⟩ := exists_isFirstMissing ordered ⟨node, member, missing⟩
    obtain ⟨_, ranInputs⟩ := exists_run_inputs settings calls ordered
    exact ⟨before, node, first, first.reported_or_failsAt ordered ranInputs⟩

/-- Schemas are listed in ascending order, whatever the order of their nodes is. -/
example : unsupported .empty (.built [.addOp ⟨"b"⟩ [] 1, .addOp ⟨"a"⟩ [⟨0⟩] 1, .addOp ⟨"b"⟩ [⟨1⟩] 1]) =
    ["a", "b"] := by
  decide

end Lowering

end TensorEngine
