import TensorEngine.Proofs.Graph.Checks

/-!
# Orders of execution are complete

A node joins the queue when the last producer it waits for is taken, and from then on it waits for
nothing, so it cannot join again. Nodes are therefore taken once at most, and an order of execution,
which takes as many nodes as there are, takes each of them.

## Main definitions

* `Schedule.Fair`: nodes that are ready or taken are different and wait for nothing

## Main results

* `Schedule.Fair.tell`, `Schedule.Fair.run`: taking nodes keeps a schedule fair
* `perm_of_order`: an order of execution is an arrangement of all nodes
-/

namespace TensorEngine.Graph

namespace Schedule

variable {schedule next : Schedule} {edges : List (Nat × Nat)} {count position : Nat}

/-- Nodes that are ready or taken are different, and none of them waits for a producer. -/
structure Fair (schedule : Schedule) (count : Nat) : Prop where
  distinct : (schedule.taken ++ schedule.ready).Nodup
  free : ∀ position ∈ schedule.taken ++ schedule.ready, schedule.waiting[position]? = some 0
  length_waiting : schedule.waiting.length = count

namespace Fair

theorem start (edges : List (Nat × Nat)) (count : Nat) : (start edges count).Fair count where
  distinct := List.nodup_range.filter _
  free := by
    intro position member
    obtain ⟨below, none⟩ := List.mem_filter.mp (show position ∈ List.filter _ _ from member)
    simp only [Schedule.start, List.getElem?_map, List.getElem?_range (List.mem_range.mp below)]
    simpa using none
  length_waiting := by simp [Schedule.start]

/-- A node that is told of a producer was waiting, so it joins the queue for the first time. -/
theorem tell {user left : Nat} (h : schedule.Fair count)
    (waits : schedule.waiting[user]? = some (left + 1)) :
    Fair { schedule with
      waiting := schedule.waiting.set user left
      ready := if left = 0 then schedule.ready ++ [user] else schedule.ready } count := by
  have absent : user ∉ schedule.taken ++ schedule.ready := fun member => by
    cases waits.symm.trans (h.free user member)
  have others : ∀ position ∈ schedule.taken ++ schedule.ready,
      (schedule.waiting.set user left)[position]? = some 0 := by
    intro position member
    have different : user ≠ position := fun same => absent (same ▸ member)
    rw [List.getElem?_set_ne different]
    exact h.free position member
  have length : (schedule.waiting.set user left).length = count := by
    rw [List.length_set, h.length_waiting]
  -- Only a node that has nothing left to wait for joins the queue.
  by_cases done : left = 0
  · subst done
    constructor
    · rw [if_pos rfl, ← List.append_assoc, ← List.concat_eq_append]
      exact h.distinct.concat absent
    · intro position member
      rw [if_pos rfl, ← List.append_assoc] at member
      rcases List.mem_append.mp member with old | new
      · exact others position old
      · obtain rfl := List.mem_singleton.mp new
        exact List.getElem?_set_self (List.getElem?_eq_some_iff.mp waits).1
    · exact length
  · simp only [done, if_false]
    exact ⟨h.distinct, others, length⟩

theorem release {users : List Nat} (h : schedule.Fair count)
    (ran : schedule.release users = .ok next) : next.Fair count := by
  induction users generalizing schedule with
  | nil =>
    cases ran
    exact h
  | cons user users ih =>
    obtain ⟨waits, found, ran⟩ := bind_eq_ok_iff.mp ran
    obtain ⟨left, subtracted, ran⟩ := bind_eq_ok_iff.mp ran
    -- The subtraction did not fail, so the node was still waiting.
    have positive : waits = left + 1 := by
      unfold Unsigned.sub at subtracted
      split at subtracted
      next le =>
        cases subtracted
        exact (Nat.sub_add_cancel le).symm
      next => cases subtracted
    exact ih (h.tell (positive ▸ entry_eq_ok_iff.mp found)) ran

/-- Taking the first node of the queue moves it from one list to the other. -/
theorem take {ready : List Nat} (h : schedule.Fair count)
    (first : schedule.ready = position :: ready) :
    Fair { schedule with ready := ready, taken := position :: schedule.taken } count := by
  have moved : (schedule.taken ++ schedule.ready).Perm (position :: schedule.taken ++ ready) :=
    first ▸ List.perm_middle
  exact ⟨moved.nodup_iff.mp h.distinct, fun p member => h.free p (moved.mem_iff.mpr member),
    h.length_waiting⟩

/-- Taking nodes keeps a schedule fair. -/
theorem run {fuel : Nat} (h : schedule.Fair count)
    (ran : schedule.run edges fuel = .ok next) : next.Fair count := by
  induction fuel generalizing schedule with
  | zero =>
    cases ran
    exact h
  | succ fuel ih =>
    unfold Schedule.run at ran
    split at ran
    next =>
      cases ran
      exact h
    next position ready first =>
      obtain ⟨middle, released, ran⟩ := bind_eq_ok_iff.mp ran
      exact ih ((h.take first).release released) ran

theorem taken_lt (h : schedule.Fair count) (member : position ∈ schedule.taken) :
    position < count := by
  have entry := h.free position (List.mem_append_left _ member)
  exact h.length_waiting ▸ (List.getElem?_eq_some_iff.mp entry).1

end Fair

end Schedule

variable {graph : Graph} {order : List Nat}

/-- An order of execution is an arrangement of the positions of all nodes. -/
theorem perm_of_order (ordered : graph.order = .ok order) :
    order.Perm (List.range graph.nodes.length) := by
  obtain ⟨-, schedule, ran, complete, rfl⟩ := order_eq_ok_iff.mp ordered
  -- The nodes taken are different positions below the number of nodes, and as many.
  have fair := (Schedule.Fair.start graph.waits graph.nodes.length).run ran
  have once := (List.nodup_append.mp fair.distinct).1
  refine (schedule.taken.reverse_perm).trans ?_
  refine (List.subperm_of_subset once fun p member => ?_).perm_of_length_le (by simp [complete])
  exact List.mem_range.mpr (fair.taken_lt member)

/-- An order of execution has the position of every node. -/
theorem mem_order (ordered : graph.order = .ok order) {node : Node} (member : node ∈ graph.nodes) :
    ∃ position ∈ order, graph.nodes[position]? = some node := by
  obtain ⟨position, entry⟩ := List.mem_iff_getElem?.mp member
  refine ⟨position, (perm_of_order ordered).mem_iff.mpr ?_, entry⟩
  exact List.mem_range.mpr (List.getElem?_eq_some_iff.mp entry).1

end TensorEngine.Graph
