import Mathlib.Data.Set.Card
import Mathlib.Logic.Relation
import Mathlib.Order.RelClasses
import TensorEngine.Proofs.Graph.Arrangement
import TensorEngine.Proofs.Graph.Built
import TensorEngine.Proofs.Graph.Refusals

/-!
# Cycles

A node waits for the nodes that compute what it uses. If a graph passes its checks, the only reason why
it may have no order of execution is a node that waits, over others perhaps, for itself. The queue then
runs empty before the nodes of cycles are taken, and before those that wait for them, but not before all
others are.

## Main definitions

* `Graph.Feeds`: nodes that compute what others use
* `Graph.Acyclic`, `Graph.Tangled`: graphs without cycles, and nodes that lie on cycles or wait for
  nodes that do
* `Graph.Untangled`: the other nodes

## Main results

* `Graph.mem_taken_iff`: the nodes that are taken are those that are not tangled
* `Graph.order_of_checked`: what an order of execution is made from, and what is reported otherwise
* `Graph.built_graph_is_ordered_iff`: which graphs have an order of execution, what the order is like,
  and how many nodes are reported if there is a cycle
-/

namespace TensorEngine.Graph

variable {graph : Graph} {place : Nat}

/-! ### Nodes that wait for each other -/

/-- The node at `producer` computes a value that the node at `user` uses. -/
def Feeds (graph : Graph) (producer user : Nat) : Prop :=
  ∃ a ∈ graph.nodes[producer]?, ∃ b ∈ graph.nodes[user]?, ∃ id ∈ b.inputs, id ∈ a.outputs

/-- No node waits for itself, be it over others. -/
def Acyclic (graph : Graph) : Prop :=
  ∀ place, ¬ Relation.TransGen graph.Feeds place place

/-- The node lies on a cycle, or waits for one that does. -/
def Tangled (graph : Graph) (place : Nat) : Prop :=
  ∃ origin, Relation.TransGen graph.Feeds origin origin ∧ Relation.ReflTransGen graph.Feeds origin place

theorem mem_waits_iff (distinct : (graph.nodes.flatMap Node.outputs).Nodup) {producer user : Nat} :
    (producer, user) ∈ graph.waits ↔ graph.Feeds producer user :=
  (mem_waits distinct).trans
    ⟨fun ⟨a, b, listed, listed', uses⟩ => ⟨a, listed, b, listed', uses⟩,
      fun ⟨a, listed, b, listed', uses⟩ => ⟨a, b, listed, listed', uses⟩⟩

theorem Feeds.user_lt {producer user : Nat} (h : graph.Feeds producer user) :
    user < graph.nodes.length := by
  obtain ⟨-, -, b, listed, -⟩ := h
  exact (List.getElem?_eq_some_iff.mp listed).1

theorem Tangled.feeds {user : Nat} (h : graph.Tangled place) (feeds : graph.Feeds place user) :
    graph.Tangled user := by
  obtain ⟨origin, cycle, path⟩ := h
  exact ⟨origin, cycle, path.tail feeds⟩

theorem Tangled.lt (h : graph.Tangled place) : place < graph.nodes.length := by
  obtain ⟨origin, cycle, path⟩ := h
  -- Someone feeds the node: the last one on the way to it, or on the cycle.
  obtain ⟨_, -, feeds⟩ := Relation.TransGen.tail'_iff.mp (cycle.trans_left path)
  exact feeds.user_lt

theorem acyclic_iff_not_tangled : graph.Acyclic ↔ ∀ place, ¬ graph.Tangled place := by
  constructor
  · rintro acyclic place ⟨origin, cycle, -⟩
    exact acyclic origin cycle
  · intro untangled place cycle
    exact untangled place ⟨place, cycle, .refl⟩

/-- The nodes that are not tangled. -/
abbrev Untangled (graph : Graph) : Type :=
  {place : Fin graph.nodes.length // ¬ graph.Tangled place}

/-- The second node waits for the first one, over others perhaps. -/
def Untangled.Behind (producer user : graph.Untangled) : Prop :=
  Relation.TransGen graph.Feeds producer.1 user.1

/-- Among finitely many nodes none of which waits for itself, nodes cannot wait for others endlessly. -/
theorem Untangled.wellFounded_behind :
    WellFounded (Behind : graph.Untangled → graph.Untangled → Prop) := by
  have : IsTrans graph.Untangled Behind := ⟨fun _ _ _ => Relation.TransGen.trans⟩
  have : Std.Irrefl (Behind : graph.Untangled → graph.Untangled → Prop) :=
    ⟨fun place cycle => place.2 ⟨place.1, cycle, .refl⟩⟩
  exact Finite.wellFounded_of_trans_of_irrefl Behind

/-! ### Nodes that are taken -/

section Taken

variable {final : Schedule} (distinct : (graph.nodes.flatMap Node.outputs).Nodup)
  (tracks : Schedule.Tracks graph.waits graph.nodes.length [] final)

include distinct tracks

/-- The producers of a node that was taken were taken before it, and so stand further behind. -/
theorem taken_of_feeds (once : final.taken.Nodup) {producer user : Nat}
    (feeds : graph.Feeds producer user) (taken : user ∈ final.taken) :
    producer ∈ final.taken ∧ final.taken.idxOf user < final.taken.idxOf producer := by
  obtain ⟨later, earlier, split, absent⟩ := List.eq_append_cons_of_mem taken
  have before := tracks.ordered later user earlier split producer ((mem_waits_iff distinct).mpr feeds)
  have apart := List.nodup_append.mp (split ▸ once)
  have absent' : producer ∉ later := fun inside =>
    apart.2.2 producer inside producer (List.mem_cons_of_mem _ before) rfl
  have different : user ≠ producer := fun same => (List.nodup_cons.mp apart.2.1).1 (same ▸ before)
  refine ⟨split ▸ List.mem_append_right _ (List.mem_cons_of_mem _ before), ?_⟩
  rw [split, List.idxOf_append_of_notMem absent, List.idxOf_append_of_notMem absent',
    List.idxOf_cons_self, List.idxOf_cons_ne _ different]
  omega

theorem taken_of_reflTransGen (once : final.taken.Nodup) {origin : Nat}
    (path : Relation.ReflTransGen graph.Feeds origin place) (taken : place ∈ final.taken) :
    origin ∈ final.taken ∧ final.taken.idxOf place ≤ final.taken.idxOf origin := by
  induction path using Relation.ReflTransGen.head_induction_on with
  | refl => exact ⟨taken, Nat.le_refl _⟩
  | head feeds _ ih =>
    have before := taken_of_feeds distinct tracks once feeds ih.1
    exact ⟨before.1, Nat.le_trans ih.2 (Nat.le_of_lt before.2)⟩

/-- No node that was taken is tangled. -/
theorem not_tangled_of_mem_taken (once : final.taken.Nodup) (taken : place ∈ final.taken) :
    ¬ graph.Tangled place := by
  rintro ⟨origin, cycle, path⟩
  obtain ⟨next, feeds, around⟩ := Relation.TransGen.head'_iff.mp cycle
  -- Once around the cycle, a node would have been taken before itself.
  have reached := (taken_of_reflTransGen distinct tracks once path taken).1
  have there := taken_of_reflTransGen distinct tracks once around reached
  have back := taken_of_feeds distinct tracks once feeds there.1
  exact Nat.lt_irrefl _ (Nat.lt_of_lt_of_le back.2 there.2)

/-- Once the queue is empty, every node that is not tangled was taken. -/
theorem mem_taken_of_not_tangled (done : final.ready = []) (place : graph.Untangled) :
    place.1.1 ∈ final.taken := by
  -- By induction over producers: they are not tangled either.
  induction place using Untangled.wellFounded_behind.induction with
  | _ place ih =>
    have none : Schedule.pending graph.waits final.taken place.1 = 0 := by
      refine Schedule.pending_eq_zero_iff.mpr fun producer member => ?_
      have feeds := (mem_waits_iff distinct).mp member
      have untangled : ¬ graph.Tangled producer := fun tangled => place.2 (tangled.feeds feeds)
      exact ih ⟨⟨producer, (waits_lt distinct _ member).1⟩, untangled⟩ (.single feeds)
    have free := tracks.waiting place.1 place.1.2
    rw [none] at free
    simpa [done] using tracks.listed place.1 free

/-- When the queue is empty, the nodes that are not tangled have been taken, and no others. -/
theorem mem_taken_iff (fair : final.Fair graph.nodes.length) (done : final.ready = []) :
    place ∈ final.taken ↔ place < graph.nodes.length ∧ ¬ graph.Tangled place := by
  constructor
  · intro taken
    have once := (List.nodup_append.mp fair.distinct).1
    exact ⟨fair.taken_lt taken, not_tangled_of_mem_taken distinct tracks once taken⟩
  · rintro ⟨below, untangled⟩
    exact mem_taken_of_not_tangled distinct tracks done ⟨⟨place, below⟩, untangled⟩

/-- The nodes that are left over are the tangled ones. -/
theorem ncard_tangled (fair : final.Fair graph.nodes.length) (done : final.ready = []) :
    {place | graph.Tangled place}.ncard = graph.nodes.length - final.taken.length := by
  have left : {place | graph.Tangled place} =
      ↑(Finset.range graph.nodes.length \ final.taken.toFinset) := by
    ext place
    have below : graph.Tangled place → place < graph.nodes.length := Tangled.lt
    simp only [Set.mem_ofPred_eq, Finset.coe_sdiff, Set.mem_sdiff, Finset.mem_coe, Finset.mem_range,
      List.mem_toFinset, mem_taken_iff distinct tracks fair done]
    tauto
  have inside : final.taken.toFinset ⊆ Finset.range graph.nodes.length := by
    intro place member
    exact Finset.mem_range.mpr (fair.taken_lt (List.mem_toFinset.mp member))
  rw [left, Set.ncard_coe_finset, Finset.card_sdiff_of_subset inside, Finset.card_range,
    List.toFinset_card_of_nodup (List.nodup_append.mp fair.distinct).1]

/-- All nodes are taken exactly if there is no cycle. -/
theorem length_taken_eq_iff (fair : final.Fair graph.nodes.length) (done : final.ready = []) :
    final.taken.length = graph.nodes.length ↔ graph.Acyclic := by
  have counted := ncard_tangled distinct tracks fair done
  have atMost := fair.length_le
  have finite : {place | graph.Tangled place}.Finite :=
    (Set.finite_lt_nat graph.nodes.length).subset fun place tangled => tangled.lt
  rw [acyclic_iff_not_tangled]
  constructor
  · intro all place tangled
    have : {place | graph.Tangled place}.ncard = 0 := by omega
    have empty := (Set.ncard_eq_zero finite).mp this
    exact Set.notMem_empty place (empty ▸ tangled)
  · intro untangled
    have empty : {place | graph.Tangled place} = ∅ := Set.eq_empty_of_forall_notMem untangled
    rw [empty, Set.ncard_empty] at counted
    omega

end Taken

/-! ### Orders -/

/-- The queue of a graph that passes the checks runs empty, and then all nodes were taken or a cycle is
reported. -/
theorem order_of_checked (checked : graph.Checked) :
    ∃ final, Schedule.Tracks graph.waits graph.nodes.length [] final ∧
      final.Fair graph.nodes.length ∧ final.ready = [] ∧
      graph.order = if final.taken.length = graph.nodes.length then .ok final.taken.reverse
        else .error (.cycle (graph.nodes.length - final.taken.length)) := by
  obtain ⟨final, ran, tracks, fair, done⟩ :=
    Schedule.exists_final (waits_below checked.distinct) graph.nodes.length
  refine ⟨final, tracks, fair, done (Nat.le_refl _), ?_⟩
  rw [order, producers_eq_ok_iff.mpr ⟨checked.known, checked.distinct, rfl⟩, ok_bind,
    checkInputs_eq_ok_iff.mpr checked.inputs, ok_bind, edges,
    edgesFrom_eq_ok_iff.mpr ⟨checked.uses, rfl⟩, ok_bind,
    checkOutputs_eq_ok_iff.mpr checked.outputs, ok_bind]
  change (Schedule.run graph.waits _ (Schedule.start graph.waits _) >>= _) = _
  rw [ran, ok_bind]
  rfl

/-- A graph that passes the checks has an order of execution if it has no cycle, and otherwise its tangled
nodes are reported. Any other graph is refused. -/
theorem order_cases (graph : Graph) :
    (graph.Checked ∧ graph.Acyclic ∧ ∃ order, graph.order = .ok order) ∨
      (graph.Checked ∧ ¬ graph.Acyclic ∧
        graph.order = .error (.cycle {place | graph.Tangled place}.ncard)) ∨
      ¬ graph.Checked ∧ ∃ e, graph.order = .error e ∧ e.isRefusal := by
  by_cases checked : graph.Checked
  · obtain ⟨final, tracks, fair, done, ordered⟩ := order_of_checked checked
    have all := length_taken_eq_iff checked.distinct tracks fair done
    by_cases acyclic : graph.Acyclic
    · rw [if_pos (all.mpr acyclic)] at ordered
      exact .inl ⟨checked, acyclic, _, ordered⟩
    · rw [if_neg (mt all.mp acyclic), ← ncard_tangled checked.distinct tracks fair done] at ordered
      exact .inr (.inl ⟨checked, acyclic, ordered⟩)
  · exact .inr (.inr ⟨checked, (refused_or_checked graph).resolve_right checked⟩)

/-- An order of execution lists every node behind the nodes that feed it. -/
theorem mem_of_feeds {order before after : List Nat} {producer user : Nat}
    (ordered : graph.order = .ok order) (split : order = before ++ user :: after)
    (feeds : graph.Feeds producer user) : producer ∈ before := by
  obtain ⟨checked, schedule, ran, -, rfl⟩ := order_eq_ok_iff.mp ordered
  exact Schedule.ordered_of_run (waits_below checked.distinct) ran split
    ((mem_waits_iff checked.distinct).mpr feeds)

/-- Whatever calls build a graph: it has an order of execution exactly if it is consistent and has no
cycle. The order then lists the place of each node once, and every node behind the producers of its
inputs. A cycle is reported exactly if the graph is consistent otherwise, with the number of nodes that
lie on a cycle or depend on one. No count of producers is ever decremented below zero, however many steps
are made, and as many as there are nodes empty the queue. -/
theorem built_graph_is_ordered_iff (calls : List Call) :
    let graph := built calls
    ((∃ order, graph.order = .ok order) ↔ graph.Consistent ∧ graph.Acyclic) ∧
      (∀ order, graph.order = .ok order →
        order.Perm (List.range graph.nodes.length) ∧
          ∀ before user after, order = before ++ user :: after →
            ∀ producer, graph.Feeds producer user → producer ∈ before) ∧
      (∀ count, graph.order = .error (.cycle count) ↔
        graph.Consistent ∧ ¬ graph.Acyclic ∧ count = {place | graph.Tangled place}.ncard) ∧
      (∀ fault, graph.order ≠ .error (.fault fault)) ∧
      (graph.Consistent → ∀ steps, ∃ schedule,
        (Schedule.start graph.waits graph.nodes.length).run graph.waits steps = .ok schedule ∧
          (graph.nodes.length ≤ steps → schedule.ready = [])) := by
  intro graph
  have checked_iff : graph.Consistent ↔ graph.Checked :=
    (Graph.checked_iff.trans (and_iff_left fun id member => (mem_inputs_built_iff calls).mp member)).symm
  have listed : ∀ order, graph.order = .ok order → order.Perm (List.range graph.nodes.length) ∧
      ∀ before user after, order = before ++ user :: after →
        ∀ producer, graph.Feeds producer user → producer ∈ before := by
    intro order ordered
    exact ⟨perm_of_order ordered, fun before user after split producer => mem_of_feeds ordered split⟩
  have counted : graph.Consistent → ∀ steps, ∃ schedule,
      (Schedule.start graph.waits graph.nodes.length).run graph.waits steps = .ok schedule ∧
        (graph.nodes.length ≤ steps → schedule.ready = []) := by
    intro consistent steps
    obtain ⟨final, ran, -, -, done⟩ := Schedule.exists_final (waits_below consistent.distinct) steps
    exact ⟨final, ran, done⟩
  suffices outcome : ((∃ order, graph.order = .ok order) ↔ graph.Checked ∧ graph.Acyclic) ∧
      (∀ count, graph.order = .error (.cycle count) ↔
        graph.Checked ∧ ¬ graph.Acyclic ∧ count = {place | graph.Tangled place}.ncard) ∧
      ∀ fault, graph.order ≠ .error (.fault fault) by
    rw [← checked_iff] at outcome
    exact ⟨outcome.1, listed, outcome.2.1, outcome.2.2, counted⟩
  rcases order_cases graph with ⟨checked, acyclic, order, ordered⟩ | ⟨checked, cyclic, reported⟩ |
    ⟨unchecked, e, refused, refusal⟩
  · simp [ordered, checked, acyclic]
  · simp [reported, checked, cyclic, eq_comm]
  · have noCycle : ∀ count, e ≠ .cycle count := by
      rintro count rfl
      cases refusal
    have noFault : ∀ fault, e ≠ .fault fault := by
      rintro fault rfl
      cases refusal
    simp [refused, unchecked, noCycle, noFault]

/-- Two nodes wait for each other and a third one for both; the fourth one is free. -/
example : (built [.declare, .declare, .addNode ⟨"a"⟩ [⟨1⟩] [⟨0⟩], .addNode ⟨"b"⟩ [⟨0⟩] [⟨1⟩],
    .addOp ⟨"c"⟩ [⟨0⟩, ⟨1⟩] 1, .addOp ⟨"d"⟩ [] 1]).order = .error (.cycle 3) := by
  decide

end TensorEngine.Graph
