import TensorEngine.Proofs.Graph.Order

/-!
# Orders of execution exist

A schedule knows for each node how many of the producers that it waits for were not taken yet. A node
is therefore taken only after all its producers were, and telling the users of a node never fails. The
queue runs empty before all nodes are taken only if every node that is left waits for another one that
is left. That does not happen where nodes have ranks above those of their producers.

## Main definitions

* `Schedule.pending`: the producers of a node that were not taken
* `Schedule.Tracks`: what a schedule knows of the nodes it has taken

## Main results

* `Schedule.Tracks.step`, `Schedule.Tracks.run`: taking nodes does not fail
* `Schedule.exists_final`: as many steps as there are nodes empty the queue
* `Schedule.exists_run`: where nodes have ranks, all are taken, each after its producers
-/

namespace TensorEngine.Graph.Schedule

variable {schedule next : Schedule} {edges : List (Nat × Nat)} {count position : Nat}
  {told : List Nat}

theorem mem_users {user : Nat} : user ∈ users edges position ↔ (position, user) ∈ edges := by
  simp [users]

/-- How often a node uses a producer that is not among those taken. -/
def pending (edges : List (Nat × Nat)) (taken : List Nat) (position : Nat) : Nat :=
  edges.countP fun edge => edge.2 == position && decide (edge.1 ∉ taken)

theorem pending_eq_zero_iff {taken : List Nat} :
    pending edges taken position = 0 ↔ ∀ producer, (producer, position) ∈ edges → producer ∈ taken := by
  simp only [pending, List.countP_eq_zero, Bool.and_eq_true, beq_iff_eq, decide_eq_true_eq, not_and,
    not_not, Prod.forall]
  exact ⟨fun h producer member => h producer position member rfl,
    fun h producer user member same => h producer (same ▸ member)⟩

/-- A producer that is taken is pending no more, once for each use. -/
theorem pending_cons {taken : List Nat} {producer : Nat} (fresh : producer ∉ taken) :
    pending edges taken position =
      pending edges (producer :: taken) position + (users edges producer).count position := by
  induction edges with
  | nil => rfl
  | cons edge edges ih =>
    unfold pending users at ih ⊢
    rw [List.countP_cons, List.countP_cons, ih]
    by_cases user : edge.2 = position <;> by_cases source : edge.1 = producer
    · simp [user, source, fresh]
      omega
    · simp [user, source]
      omega
    · simp [user, source]
    · simp [user, source]

/-- A schedule counts for each node the producers that were not taken, and those that were taken last
but not told yet. A node that waits for nothing is listed, and the nodes taken follow their
producers. -/
structure Tracks (edges : List (Nat × Nat)) (count : Nat) (told : List Nat) (schedule : Schedule) :
    Prop where
  waiting : ∀ position < count,
    schedule.waiting[position]? = some (pending edges schedule.taken position + told.count position)
  listed : ∀ position, schedule.waiting[position]? = some 0 →
    position ∈ schedule.taken ++ schedule.ready
  ordered : ∀ later position earlier, schedule.taken = later ++ position :: earlier →
    ∀ producer, (producer, position) ∈ edges → producer ∈ earlier

namespace Tracks

theorem start (edges : List (Nat × Nat)) (count : Nat) :
    Tracks edges count [] (start edges count) where
  waiting := by
    intro position below
    simp [Schedule.start, pending, below]
  listed := by
    intro position free
    simp only [Schedule.start, List.getElem?_map, Option.map_eq_some_iff] at free
    obtain ⟨place, listed, none⟩ := free
    obtain ⟨below, same⟩ := List.getElem?_eq_some_iff.mp listed
    rw [List.getElem_range] at same
    rw [List.length_range] at below
    subst same
    simpa [Schedule.start, below] using none
  ordered := by
    intro later position earlier split
    simp [Schedule.start] at split

/-- The next user that is told was waiting. It joins the queue if it waits for nothing more, and is
then not told again. -/
theorem tell {user : Nat} (h : Tracks edges count (user :: told) schedule) (below : user < count) :
    ∃ left, schedule.waiting[user]? = some (left + 1) ∧ (left = 0 → user ∉ told) ∧
      Tracks edges count told { schedule with
        waiting := schedule.waiting.set user left
        ready := if left = 0 then schedule.ready ++ [user] else schedule.ready } := by
  have waits := h.waiting user below
  rw [List.count_cons_self, ← Nat.add_assoc] at waits
  have within := (List.getElem?_eq_some_iff.mp waits).1
  refine ⟨_, waits, fun done => List.count_eq_zero.mp (Nat.add_eq_zero_iff.mp done).2, ?_⟩
  constructor
  · intro position bound
    by_cases same : user = position
    · subst same
      rw [List.getElem?_set_self within]
    · rw [List.getElem?_set_ne same, h.waiting position bound, List.count_cons_of_ne same]
  · intro position free
    by_cases same : user = position
    · subst same
      rw [List.getElem?_set_self within, Option.some.injEq] at free
      simp [free]
    · rw [List.getElem?_set_ne same] at free
      have old := h.listed position free
      split
      next => exact List.append_assoc .. ▸ List.mem_append_left _ old
      next => exact old
  · exact h.ordered

/-- Telling users that wait does not fail. Those that join the queue were told, and they join it in
the order in which they were. -/
theorem release (h : Tracks edges count told schedule) (below : ∀ user ∈ told, user < count) :
    ∃ next, schedule.release told = .ok next ∧ Tracks edges count [] next ∧
      next.taken = schedule.taken ∧
      ∃ joined, next.ready = schedule.ready ++ joined ∧ joined ⊆ told ∧
        (told.Pairwise (· ≤ ·) → joined.Pairwise (· < ·)) := by
  induction told generalizing schedule with
  | nil => exact ⟨schedule, rfl, h, rfl, [], by simp, by simp, by simp⟩
  | cons user told ih =>
    rw [List.forall_mem_cons] at below
    obtain ⟨left, waits, last, after⟩ := h.tell below.1
    obtain ⟨next, released, tracks, taken, joined, ready, listed, ascending⟩ := ih after below.2
    have subtracted : (Unsigned.sub (left + 1) 1 : Except GraphError Nat) = .ok left :=
      if_pos (Nat.le_add_left 1 left)
    refine ⟨next, ?_, tracks, taken, ?_⟩
    · exact bind_eq_ok_iff.mpr ⟨_, entry_eq_ok_iff.mpr waits,
        bind_eq_ok_iff.mpr ⟨left, subtracted, released⟩⟩
    · by_cases done : left = 0
      · refine ⟨user :: joined, ?_, List.cons_subset_cons _ listed, fun sorted => ?_⟩
        · simpa [done] using ready
        -- The user is not told again, so whoever is told later is greater.
        · rw [List.pairwise_cons] at sorted
          refine List.pairwise_cons.mpr ⟨fun other member => ?_, ascending sorted.2⟩
          have different : user ≠ other := fun same => last done (same ▸ listed member)
          exact Nat.lt_of_le_of_ne (sorted.1 other (listed member)) different
      · refine ⟨joined, ?_, List.subset_cons_of_subset _ listed, fun sorted => ?_⟩
        · simpa [done] using ready
        · exact ascending (List.pairwise_cons.mp sorted).2

/-- Taking the first node of the queue leaves its users to be told. -/
theorem take (h : Tracks edges count [] schedule) (fair : schedule.Fair count) {ready : List Nat}
    (first : schedule.ready = position :: ready) :
    Tracks edges count (users edges position)
      { schedule with ready := ready, taken := position :: schedule.taken } := by
  have moved : (schedule.taken ++ schedule.ready).Perm (position :: schedule.taken ++ ready) :=
    first ▸ List.perm_middle
  have fresh : position ∉ schedule.taken := fun member =>
    (List.nodup_cons.mp (moved.nodup_iff.mp fair.distinct)).1 (List.mem_append_left _ member)
  have free := fair.free position (moved.mem_iff.mpr List.mem_cons_self)
  constructor
  · intro other below
    rw [h.waiting other below, List.count_nil, Nat.add_zero, pending_cons fresh]
  · exact fun other free => moved.mem_iff.mp (h.listed other free)
  · intro later other earlier split
    cases later with
    | nil =>
      -- What is taken now waits for nothing, so its producers were taken before.
      cases split
      have below := fair.length_waiting ▸ (List.getElem?_eq_some_iff.mp free).1
      have none := (h.waiting position below).symm.trans free
      rw [List.count_nil, Nat.add_zero, Option.some.injEq] at none
      exact pending_eq_zero_iff.mp none
    | cons last later => exact h.ordered later other earlier (List.cons.inj split).2

/-- A step takes the first node of the queue and lets those of its users that wait for nothing more
join the queue, in their order. -/
theorem step (h : Tracks edges count [] schedule) (fair : schedule.Fair count)
    (below : ∀ edge ∈ edges, edge.2 < count) {ready : List Nat}
    (first : schedule.ready = position :: ready) :
    ∃ next, Schedule.release { schedule with ready := ready, taken := position :: schedule.taken }
        (users edges position) = .ok next ∧
      Tracks edges count [] next ∧ next.Fair count ∧ next.taken = position :: schedule.taken ∧
      ∃ joined, next.ready = ready ++ joined ∧ joined ⊆ users edges position ∧
        ((users edges position).Pairwise (· ≤ ·) → joined.Pairwise (· < ·)) := by
  have users : ∀ user ∈ users edges position, user < count := fun user member =>
    below (position, user) (mem_users.mp member)
  obtain ⟨next, released, tracks, joins⟩ := (h.take fair first).release users
  exact ⟨next, released, tracks, (fair.take first).release released, joins⟩

/-- Taking nodes does not fail, and ends when the queue is empty or enough nodes are taken. -/
theorem run (h : Tracks edges count [] schedule) (fair : schedule.Fair count)
    (below : ∀ edge ∈ edges, edge.2 < count) (fuel : Nat) :
    ∃ final, schedule.run edges fuel = .ok final ∧ Tracks edges count [] final ∧
      (final.ready = [] ∨ final.taken.length = schedule.taken.length + fuel) := by
  induction fuel generalizing schedule with
  | zero => exact ⟨schedule, rfl, h, .inr rfl⟩
  | succ fuel ih =>
    unfold Schedule.run
    split
    next done => exact ⟨schedule, rfl, h, .inl done⟩
    next position ready first =>
      obtain ⟨next, released, tracks, fair, taken, -⟩ := h.step fair below first
      obtain ⟨final, ran, tracks, done⟩ := ih tracks fair
      refine ⟨final, bind_eq_ok_iff.mpr ⟨next, released, ran⟩, tracks, done.imp_right fun enough => ?_⟩
      rw [enough, taken, List.length_cons, Nat.add_assoc, Nat.add_comm 1]

/-- If the queue is empty and nodes have ranks above those of their producers, all are taken. -/
theorem mem_taken (h : Tracks edges count [] schedule) (done : schedule.ready = [])
    {rank : Nat → Nat} (ranks : ∀ edge ∈ edges, edge.1 < count ∧ rank edge.1 < rank edge.2)
    (below : position < count) : position ∈ schedule.taken := by
  -- By induction on the rank: the producers have smaller ones.
  induction known : rank position using Nat.strongRecOn generalizing position with
  | ind r ih =>
    have none : pending edges schedule.taken position = 0 := by
      refine pending_eq_zero_iff.mpr fun producer member => ?_
      obtain ⟨within, smaller⟩ := ranks _ member
      exact ih _ (known ▸ smaller) within rfl
    have free := h.waiting position below
    rw [none] at free
    simpa [done] using h.listed position free

end Tracks

/-- No more nodes are listed than there are. -/
theorem Fair.length_le (fair : schedule.Fair count) :
    schedule.taken.length + schedule.ready.length ≤ count := by
  have inside : schedule.taken ++ schedule.ready ⊆ List.range count := fun position member => by
    have entry := (List.getElem?_eq_some_iff.mp (fair.free position member)).1
    exact List.mem_range.mpr (fair.length_waiting ▸ entry)
  simpa using (List.subperm_of_subset fair.distinct inside).length_le

/-- However many steps are made, none fails, and as many as there are nodes empty the queue. -/
theorem exists_final (below : ∀ edge ∈ edges, edge.2 < count) (steps : Nat) :
    ∃ final, (start edges count).run edges steps = .ok final ∧ Tracks edges count [] final ∧
      final.Fair count ∧ (count ≤ steps → final.ready = []) := by
  have fair := Fair.start edges count
  obtain ⟨final, ran, tracks, ended⟩ := (Tracks.start edges count).run fair below steps
  have fairFinal := fair.run ran
  refine ⟨final, ran, tracks, fairFinal, fun enough => ended.elim id fun taken => ?_⟩
  have := fairFinal.length_le
  apply List.eq_nil_of_length_eq_zero
  simp only [start, List.length_nil] at taken
  omega

/-- Where nodes have ranks above those of their producers, all of them are taken. -/
theorem exists_run (rank : Nat → Nat) (below : ∀ edge ∈ edges, edge.1 < count ∧ edge.2 < count)
    (ranks : ∀ edge ∈ edges, rank edge.1 < rank edge.2) :
    ∃ final, (start edges count).run edges count = .ok final ∧ final.taken.length = count := by
  obtain ⟨final, ran, tracks, fair, done⟩ :=
    exists_final (fun edge member => (below edge member).2) count
  refine ⟨final, ran, Nat.le_antisymm ?_ ?_⟩
  · exact Nat.le_trans (Nat.le_add_right _ _) fair.length_le
  · have all : List.range count ⊆ final.taken := fun p member =>
      tracks.mem_taken (done (Nat.le_refl count))
        (fun edge member => ⟨(below edge member).1, ranks edge member⟩) (List.mem_range.mp member)
    simpa using (List.subperm_of_subset List.nodup_range all).length_le

/-- A node is taken after the producers that it waits for. -/
theorem ordered_of_run {final : Schedule} (below : ∀ edge ∈ edges, edge.2 < count)
    (ran : (start edges count).run edges count = .ok final) {before after : List Nat}
    (split : final.taken.reverse = before ++ position :: after) {producer : Nat}
    (edge : (producer, position) ∈ edges) : producer ∈ before := by
  obtain ⟨final', ran', tracks, -⟩ :=
    (Tracks.start edges count).run (Fair.start edges count) below count
  cases ran.symm.trans ran'
  have split : final.taken = after.reverse ++ position :: before.reverse := by
    rw [← List.reverse_reverse final.taken, split]
    simp
  exact List.mem_reverse.mp (tracks.ordered _ _ _ split producer edge)

end TensorEngine.Graph.Schedule
