import Mathlib.Data.Finset.Lattice.Fold
import Mathlib.Data.Prod.Lex
import Mathlib.Order.Lattice.Nat
import TensorEngine.Proofs.Graph.Arrangement

/-!
# The queue of a schedule

Nodes stand in one line: those that were taken, and behind them those that are ready. A node joins the
end of the line at its turn, which is when the last of its producers is taken. Nodes that join at the
same turn do so in their order. The whole line is therefore sorted, first by turns and then by places.

## Main definitions

* `Schedule.line`: the nodes that were taken, and those that are ready
* `Schedule.turn`, `Schedule.key`: when a node joins a line, and what a line is sorted by
* `Schedule.Queues`: the line of a schedule is sorted

## Main results

* `Schedule.Queues.step`, `Schedule.Queues.run`: taking nodes keeps the line sorted
* `pairwise_key_of_order`: an order of execution is sorted by its own turns
-/

namespace TensorEngine.Graph

namespace Schedule

variable {schedule next : Schedule} {edges : List (Nat × Nat)} {count position place : Nat}
  {order : List Nat}

/-- The nodes that a node waits for. -/
def sources (edges : List (Nat × Nat)) (place : Nat) : Finset Nat :=
  ((edges.filter (·.2 == place)).map (·.1)).toFinset

theorem mem_sources {producer : Nat} : producer ∈ sources edges place ↔ (producer, place) ∈ edges := by
  simp [sources]

/-- The turn of a node: how many nodes have been taken, in the given order, once its last producer is. -/
def turn (edges : List (Nat × Nat)) (order : List Nat) (place : Nat) : Nat :=
  (sources edges place).sup fun producer => order.idxOf producer + 1

/-- Nodes are compared by turns, and by places if these agree. -/
def key (edges : List (Nat × Nat)) (order : List Nat) (place : Nat) : ℕ ×ₗ ℕ :=
  toLex (turn edges order place, place)

theorem key_lt_key_iff {a b : Nat} : key edges order a < key edges order b ↔
    turn edges order a < turn edges order b ∨ turn edges order a = turn edges order b ∧ a < b :=
  Prod.Lex.toLex_lt_toLex

theorem turn_le_iff {bound : Nat} : turn edges order place ≤ bound ↔
    ∀ producer ∈ sources edges place, order.idxOf producer < bound :=
  Finset.sup_le_iff

theorem idxOf_lt_turn {producer : Nat} (source : producer ∈ sources edges place) :
    order.idxOf producer < turn edges order place :=
  turn_le_iff.mp (Nat.le_refl _) producer source

/-- Whoever joins a line behind the producers of a node leaves its turn as it is. -/
theorem turn_append {joined : List Nat} (listed : ∀ producer ∈ sources edges place, producer ∈ order) :
    turn edges (order ++ joined) place = turn edges order place := by
  apply Finset.sup_congr rfl
  intro producer source
  rw [List.idxOf_append_of_mem (listed producer source)]

/-- In a sorted line, one node stands before another exactly if its key is smaller. -/
theorem idxOf_lt_iff (sorted : order.Pairwise fun a b => key edges order a < key edges order b) {a b : Nat}
    (memberA : a ∈ order) (memberB : b ∈ order) :
    order.idxOf a < order.idxOf b ↔ key edges order a < key edges order b := by
  have forward : ∀ {a b}, a ∈ order → b ∈ order → order.idxOf a < order.idxOf b →
      key edges order a < key edges order b := by
    intro a b memberA memberB before
    have compared := List.pairwise_iff_getElem.mp sorted _ _ (List.idxOf_lt_length_of_mem memberA)
      (List.idxOf_lt_length_of_mem memberB) before
    rwa [List.getElem_idxOf, List.getElem_idxOf] at compared
  refine ⟨forward memberA memberB, fun smaller => ?_⟩
  by_contra notBefore
  rcases Nat.lt_or_eq_of_le (Nat.le_of_not_lt notBefore) with after | same
  · exact lt_asymm smaller (forward memberB memberA after)
  · exact lt_irrefl _ ((List.idxOf_inj memberB).mp same ▸ smaller)

/-- The nodes that were taken, in the order in which they were, and those that are ready. -/
def line (schedule : Schedule) : List Nat :=
  schedule.taken.reverse ++ schedule.ready

theorem mem_line : place ∈ schedule.line ↔ place ∈ schedule.taken ++ schedule.ready := by
  simp [line]

/-- The line of the schedule is sorted. -/
def Queues (edges : List (Nat × Nat)) (schedule : Schedule) : Prop :=
  schedule.line.Pairwise fun a b => key edges schedule.line a < key edges schedule.line b

/-- The producers of nodes in the line were taken. -/
theorem Tracks.taken_of_mem_line (h : Tracks edges count [] schedule) (fair : schedule.Fair count)
    (member : place ∈ schedule.line) {producer : Nat} (source : producer ∈ sources edges place) :
    producer ∈ schedule.taken := by
  have free := fair.free place (mem_line.mp member)
  have below := fair.length_waiting ▸ (List.getElem?_eq_some_iff.mp free).1
  have none := (h.waiting place below).symm.trans free
  rw [List.count_nil, Nat.add_zero, Option.some.injEq] at none
  exact pending_eq_zero_iff.mp none producer (mem_sources.mp source)

/-- Nodes in the line have had their turns. -/
theorem Tracks.turn_le (h : Tracks edges count [] schedule) (fair : schedule.Fair count)
    (member : place ∈ schedule.line) : turn edges schedule.line place ≤ schedule.taken.length := by
  apply turn_le_iff.mpr
  intro producer source
  have taken := List.mem_reverse.mpr (h.taken_of_mem_line fair member source)
  rw [line, List.idxOf_append_of_mem taken, ← List.length_reverse]
  exact List.idxOf_lt_length_of_mem taken

/-- A node in the line that uses what was computed last has had its turn just now. -/
theorem Tracks.turn_eq_length (h : Tracks edges count [] schedule) (fair : schedule.Fair count)
    {earlier : List Nat} (taken : schedule.taken = position :: earlier) (member : place ∈ schedule.line)
    (source : position ∈ sources edges place) :
    turn edges schedule.line place = schedule.taken.length := by
  apply Nat.le_antisymm (h.turn_le fair member)
  have distinct := taken ▸ (List.nodup_append.mp fair.distinct).1
  have absent : position ∉ earlier.reverse := mt List.mem_reverse.mp (List.nodup_cons.mp distinct).1
  have last : schedule.line.idxOf position = earlier.length := by
    rw [line, taken, List.reverse_cons, List.append_assoc, List.idxOf_append_of_notMem absent,
      List.singleton_append, List.idxOf_cons_self, List.length_reverse, Nat.add_zero]
  rw [taken, List.length_cons, ← last]
  exact idxOf_lt_turn source

namespace Queues

theorem start (edges : List (Nat × Nat)) (count : Nat) : (start edges count).Queues edges := by
  have tracks := Tracks.start edges count
  have fair := Fair.start edges count
  have ascending : (Schedule.start edges count).line.Pairwise (· < ·) :=
    List.pairwise_lt_range.filter _
  apply ascending.imp_of_mem
  intro a b memberA memberB smaller
  -- Nothing was taken yet, and these nodes wait for nobody.
  have turnA := Nat.le_zero.mp (tracks.turn_le fair memberA)
  have turnB := Nat.le_zero.mp (tracks.turn_le fair memberB)
  exact key_lt_key_iff.mpr (.inr ⟨turnA.trans turnB.symm, smaller⟩)

/-- When the first node of the queue is taken, others may join the line. Their turn is later than that of
all others, and they join in their order. -/
theorem step (h : schedule.Queues edges) (tracks : Tracks edges count [] schedule)
    (fair : schedule.Fair count) {ready joined : List Nat} (first : schedule.ready = position :: ready)
    (tracksNext : Tracks edges count [] next) (fairNext : next.Fair count)
    (taken : next.taken = position :: schedule.taken) (joins : next.ready = ready ++ joined)
    (told : joined ⊆ users edges position) (ascending : joined.Pairwise (· < ·)) :
    next.Queues edges := by
  have grown : next.line = schedule.line ++ joined := by
    simp [line, taken, joins, first]
  have old : ∀ place ∈ schedule.line, turn edges next.line place = turn edges schedule.line place := by
    intro place member
    rw [grown]
    apply turn_append
    intro producer source
    exact mem_line.mpr (List.mem_append_left _ (tracks.taken_of_mem_line fair member source))
  have new : ∀ place ∈ joined, turn edges next.line place = schedule.taken.length + 1 := by
    intro place member
    have listed : place ∈ next.line := grown ▸ List.mem_append_right _ member
    have source : position ∈ sources edges place := mem_sources.mpr (mem_users.mp (told member))
    rw [tracksNext.turn_eq_length fairNext taken listed source, taken, List.length_cons]
  suffices sorted : (schedule.line ++ joined).Pairwise fun a b =>
      key edges next.line a < key edges next.line b from
    (congrArg (List.Pairwise _) grown).mpr sorted
  refine List.pairwise_append.mpr ⟨?_, ?_, ?_⟩
  · apply h.imp_of_mem
    intro a b memberA memberB smaller
    rwa [key, key, old a memberA, old b memberB]
  · apply ascending.imp_of_mem
    intro a b memberA memberB smaller
    exact key_lt_key_iff.mpr (.inr ⟨(new a memberA).trans (new b memberB).symm, smaller⟩)
  · intro a memberA b memberB
    have early := tracks.turn_le fair memberA
    rw [← old a memberA] at early
    exact key_lt_key_iff.mpr (.inl (new b memberB ▸ Nat.lt_succ_of_le early))

/-- Taking nodes keeps the line sorted. -/
theorem run (h : schedule.Queues edges) (tracks : Tracks edges count [] schedule)
    (fair : schedule.Fair count) (below : ∀ edge ∈ edges, edge.2 < count)
    (sorted : ∀ position, (users edges position).Pairwise (· ≤ ·)) {fuel : Nat} {final : Schedule}
    (ran : schedule.run edges fuel = .ok final) : final.Queues edges := by
  induction fuel generalizing schedule with
  | zero =>
    cases ran
    exact h
  | succ fuel ih =>
    unfold Schedule.run at ran
    split at ran
    next =>
      cases ran
      exact h
    next position ready first =>
      obtain ⟨next, released, tracksNext, fairNext, taken, joined, joins, told, ascending⟩ :=
        tracks.step fair below first
      obtain ⟨middle, released', ran⟩ := bind_eq_ok_iff.mp ran
      cases released.symm.trans released'
      have queues := h.step tracks fair first tracksNext fairNext taken joins told
        (ascending (sorted position))
      exact ih queues tracksNext fairNext ran

end Queues

end Schedule

/-! ### Orders of execution -/

variable {graph : Graph}

/-- The users of a producer are told in the order of their places. -/
theorem pairwise_waits (producers : Producers) (nodes : List Node) (position : Nat) :
    (edgesOf producers nodes position).Pairwise (·.2 ≤ ·.2) := by
  have later : ∀ nodes position, ∀ edge ∈ edgesOf producers nodes position, position ≤ edge.2 := by
    intro nodes position edge member
    obtain ⟨⟨node, place⟩, listed, used⟩ := List.mem_flatMap.mp member
    obtain ⟨_, _, rfl⟩ := List.mem_map.mp used
    exact (List.mem_zipIdx listed).1
  induction nodes generalizing position with
  | nil => exact List.Pairwise.nil
  | cons node nodes ih =>
    rw [edgesOf_cons, List.pairwise_append]
    refine ⟨?_, ih _, ?_⟩
    · exact List.pairwise_map.mpr (List.pairwise_of_forall fun _ _ => Nat.le_refl _)
    · intro edge own other member
      obtain ⟨_, _, rfl⟩ := List.mem_map.mp own
      exact Nat.le_of_succ_le (later nodes _ other member)

/-- An order of execution is sorted by its own turns, and by places where these agree. -/
theorem pairwise_key_of_order {order : List Nat} (ordered : graph.order = .ok order) :
    order.Pairwise fun a b => Schedule.key graph.waits order a < Schedule.key graph.waits order b := by
  obtain ⟨checked, final, ran, complete, rfl⟩ := order_eq_ok_iff.mp ordered
  have sorted : ∀ position, (users graph.waits position).Pairwise (· ≤ ·) := fun position =>
    ((pairwise_waits _ _ _).filter _).map _ fun _ _ le => le
  have fair := Schedule.Fair.start graph.waits graph.nodes.length
  have queues := (Schedule.Queues.start graph.waits graph.nodes.length).run
    (Schedule.Tracks.start graph.waits graph.nodes.length) fair (waits_below checked.distinct) sorted ran
  have atMost := (fair.run ran).length_le
  have done : final.ready = [] := List.eq_nil_of_length_eq_zero (by omega)
  rwa [Schedule.Queues, Schedule.line, done, List.append_nil] at queues

end TensorEngine.Graph
