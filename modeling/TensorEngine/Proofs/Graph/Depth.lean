import Mathlib.Data.Finset.Max
import TensorEngine.Proofs.Graph.Cycles
import TensorEngine.Proofs.Graph.Turns

/-!
# Depths of nodes

A node that uses nothing that nodes compute has depth zero, and any other node has one more than the
largest depth among its producers. An order of execution goes by depths. Nodes of depth zero keep the
order in which they were added to the graph. Of two other nodes of one depth that comes first whose last
producer does, and the one that was added first if they share it. Nothing else can make a difference:
there is one order only of this kind.

## Main definitions

* `Graph.feeders`, `Graph.depth`: the producers of a node, and its depth
* `Graph.IsLastFeeder`: the producer that comes last in an order
* `Graph.BreaksTies`: how an order of execution goes by depths

## Main results

* `Graph.depth_eq`: the depth of a node, from those of its producers
* `Graph.breaksTies_of_order`, `Graph.BreaksTies.unique`: an order of execution goes by depths, and is
  the only one that does
* `Graph.order_goes_by_depth`: all of this together
-/

namespace TensorEngine.Graph

variable {graph : Graph} {order : List Nat} {place : Nat}

instance (producer user : Nat) : Decidable (graph.Feeds producer user) :=
  inferInstanceAs (Decidable (∃ a ∈ graph.nodes[producer]?, ∃ b ∈ graph.nodes[user]?,
    ∃ id ∈ b.inputs, id ∈ a.outputs))

/-- The nodes that compute what a node uses. -/
def feeders (graph : Graph) (place : Nat) : Finset Nat :=
  (Finset.range graph.nodes.length).filter (graph.Feeds · place)

/-- How many nodes come before a node on the longest way to it, at most `fuel` of them. -/
def depthWithin (graph : Graph) : (fuel : Nat) → (place : Nat) → Nat
  | 0, _ => 0
  | fuel + 1, place => (graph.feeders place).sup (graph.depthWithin fuel · + 1)

/-- The depth of a node: zero if no node computes what it uses, and otherwise one more than the largest
depth of such a node. No way without cycles has more nodes than the graph. -/
def depth (graph : Graph) (place : Nat) : Nat :=
  graph.depthWithin graph.nodes.length place

/-- Among the producers of a node, this one comes last in the order. -/
def IsLastFeeder (graph : Graph) (order : List Nat) (producer user : Nat) : Prop :=
  graph.Feeds producer user ∧
    ∀ other, graph.Feeds other user → order.idxOf other ≤ order.idxOf producer

/-- The order goes by depths. Nodes without producers keep the order of their places; other nodes of one
depth follow their last producers, and keep the order of their places if they share it. -/
structure BreaksTies (graph : Graph) (order : List Nat) : Prop where
  depths : order.Pairwise fun a b => graph.depth a ≤ graph.depth b
  sources : ∀ a ∈ order, ∀ b ∈ order, graph.depth a = 0 → graph.depth b = 0 →
    (order.idxOf a < order.idxOf b ↔ a < b)
  users : ∀ a ∈ order, ∀ b ∈ order, graph.depth a = graph.depth b → 0 < graph.depth a →
    ∃ p q, graph.IsLastFeeder order p a ∧ graph.IsLastFeeder order q b ∧
      (order.idxOf a < order.idxOf b ↔ order.idxOf p < order.idxOf q ∨ p = q ∧ a < b)

/-! ### Producers -/

theorem Feeds.producer_lt {producer user : Nat} (h : graph.Feeds producer user) :
    producer < graph.nodes.length := by
  obtain ⟨a, listed, -⟩ := h
  exact (List.getElem?_eq_some_iff.mp listed).1

@[simp] theorem mem_feeders {producer : Nat} :
    producer ∈ graph.feeders place ↔ graph.Feeds producer place := by
  rw [feeders, Finset.mem_filter, Finset.mem_range]
  exact and_iff_right_of_imp Feeds.producer_lt

theorem exists_isLastFeeder {producer : Nat} (feeds : graph.Feeds producer place) :
    ∃ last, graph.IsLastFeeder order last place := by
  obtain ⟨last, member, largest⟩ := Finset.exists_max_image (graph.feeders place) order.idxOf
    ⟨producer, mem_feeders.mpr feeds⟩
  exact ⟨last, mem_feeders.mp member, fun other feeds => largest other (mem_feeders.mpr feeds)⟩

/-- It does not matter for the last producer of a node how a list goes on behind all its producers. -/
theorem isLastFeeder_append {before after : List Nat} {producer : Nat}
    (listed : ∀ other, graph.Feeds other place → other ∈ before) :
    graph.IsLastFeeder (before ++ after) producer place ↔ graph.IsLastFeeder before producer place := by
  refine and_congr_right fun feeds => forall_congr' fun other => imp_congr_right fun feeds' => ?_
  rw [List.idxOf_append_of_mem (listed other feeds'), List.idxOf_append_of_mem (listed producer feeds)]

theorem IsLastFeeder.unique {producer producer' : Nat} (h : graph.IsLastFeeder order producer place)
    (h' : graph.IsLastFeeder order producer' place)
    (listed : ∀ other, graph.Feeds other place → other ∈ order) : producer = producer' :=
  (List.idxOf_inj (listed producer h.1)).mp (Nat.le_antisymm (h'.2 _ h.1) (h.2 _ h'.1))

/-- Where two lists that name nodes once part, the node that one of them names next is further behind in
the other. -/
theorem idxOf_lt_of_parting {before after after' : List Nat} {a b : Nat}
    (once : (before ++ a :: after).Nodup) (once' : (before ++ b :: after').Nodup)
    (member : b ∈ before ++ a :: after) (different : a ≠ b) :
    b ∈ after ∧ (before ++ a :: after).idxOf a < (before ++ a :: after).idxOf b := by
  have absent : ∀ {place after}, (before ++ place :: after).Nodup → place ∉ before := fun once inside =>
    (List.nodup_append.mp once).2.2 _ inside _ List.mem_cons_self rfl
  have behind := (List.mem_append.mp member).resolve_left (absent once')
  refine ⟨(List.mem_cons.mp behind).resolve_left different.symm, ?_⟩
  rw [List.idxOf_append_of_notMem (absent once), List.idxOf_append_of_notMem (absent once'),
    List.idxOf_cons_self, List.idxOf_cons_ne _ different]
  omega

section Ordered

variable (ordered : graph.order = .ok order)

include ordered

/-! ### Depths -/

/-- A producer stands before its users. -/
theorem idxOf_lt_of_feeds {producer user : Nat} (feeds : graph.Feeds producer user) :
    order.idxOf producer < order.idxOf user := by
  have member : user ∈ order := (perm_of_order ordered).mem_iff.mpr (List.mem_range.mpr feeds.user_lt)
  obtain ⟨before, after, split, absent⟩ := List.eq_append_cons_of_mem member
  have earlier := mem_of_feeds ordered split feeds
  rw [split, List.idxOf_append_of_mem earlier, List.idxOf_append_of_notMem absent, List.idxOf_cons_self]
  exact List.idxOf_lt_length_of_mem earlier

/-- A way to a node is no longer than the order up to it. -/
theorem depthWithin_succ {fuel : Nat} (enough : order.idxOf place ≤ fuel) :
    graph.depthWithin (fuel + 1) place = graph.depthWithin fuel place := by
  induction fuel generalizing place with
  | zero =>
    have none : graph.feeders place = ∅ := by
      refine Finset.eq_empty_of_forall_notMem fun producer member => ?_
      have before := idxOf_lt_of_feeds ordered (mem_feeders.mp member)
      omega
    simp [depthWithin, none]
  | succ fuel ih =>
    rw [depthWithin]
    refine Finset.sup_congr rfl fun producer member => ?_
    have before := idxOf_lt_of_feeds ordered (mem_feeders.mp member)
    rw [ih (by omega)]

/-- The depth of a node is one more than the largest depth of its producers, if it has any. -/
theorem depth_eq (place : Nat) :
    graph.depth place = (graph.feeders place).sup (graph.depth · + 1) := by
  have length : order.length = graph.nodes.length := by
    rw [(perm_of_order ordered).length_eq, List.length_range]
  have enough : order.idxOf place ≤ graph.nodes.length := length ▸ List.idxOf_le_length
  rw [depth, ← depthWithin_succ ordered enough]
  rfl

theorem depth_lt_of_feeds {producer user : Nat} (feeds : graph.Feeds producer user) :
    graph.depth producer < graph.depth user := by
  rw [depth_eq ordered user]
  exact Finset.le_sup (f := (graph.depth · + 1)) (mem_feeders.mpr feeds)

theorem depth_eq_zero_iff : graph.depth place = 0 ↔ ∀ producer, ¬ graph.Feeds producer place := by
  rw [depth_eq ordered place, ← Nat.bot_eq_zero, Finset.sup_eq_bot_iff]
  simp

/-! ### Orders go by depths -/

theorem sources_waits (place : Nat) : Schedule.sources graph.waits place = graph.feeders place := by
  ext producer
  rw [Schedule.mem_sources, mem_feeders]
  exact mem_waits_iff (order_eq_ok_iff.mp ordered).1.distinct

theorem lt_turn_iff {bound : Nat} :
    bound < Schedule.turn graph.waits order place ↔
      ∃ producer, graph.Feeds producer place ∧ bound ≤ order.idxOf producer := by
  rw [Schedule.turn, sources_waits ordered, Finset.lt_sup_iff]
  simp

/-- The turn of a node is behind its last producer. -/
theorem IsLastFeeder.turn_eq {producer : Nat} (last : graph.IsLastFeeder order producer place) :
    Schedule.turn graph.waits order place = order.idxOf producer + 1 := by
  apply Nat.le_antisymm
  · by_contra later
    obtain ⟨other, feeds, behind⟩ := (lt_turn_iff ordered).mp (Nat.lt_of_not_le later)
    exact Nat.not_succ_le_self _ (Nat.le_trans behind (last.2 other feeds))
  · exact (lt_turn_iff ordered).mpr ⟨producer, last.1, Nat.le_refl _⟩

theorem Feeds.mem_order {producer user : Nat} (feeds : graph.Feeds producer user) : producer ∈ order :=
  (perm_of_order ordered).mem_iff.mpr (List.mem_range.mpr feeds.producer_lt)

/-- Of two nodes that comes first which has the earlier turn, or the smaller place if the turns agree. -/
theorem idxOf_lt_iff_turn {a b : Nat} (memberA : a ∈ order) (memberB : b ∈ order) :
    order.idxOf a < order.idxOf b ↔
      Schedule.turn graph.waits order a < Schedule.turn graph.waits order b ∨
        Schedule.turn graph.waits order a = Schedule.turn graph.waits order b ∧ a < b :=
  (Schedule.idxOf_lt_iff (pairwise_key_of_order ordered) memberA memberB).trans Schedule.key_lt_key_iff

/-- A node is no deeper than those behind it. -/
theorem depth_le_of_idxOf_le {a b : Nat} (memberA : a ∈ order) (memberB : b ∈ order)
    (before : order.idxOf a ≤ order.idxOf b) : graph.depth a ≤ graph.depth b := by
  -- By induction on the second node: its producers come before it.
  induction known : order.idxOf b using Nat.strongRecOn generalizing a b with
  | ind place ih =>
    subst known
    rcases Nat.eq_or_lt_of_le before with same | before
    · rw [(List.idxOf_inj memberA).mp same]
    have turns : Schedule.turn graph.waits order a ≤ Schedule.turn graph.waits order b :=
      ((idxOf_lt_iff_turn ordered memberA memberB).mp before).elim Nat.le_of_lt fun h => Nat.le_of_eq h.1
    rw [depth_eq ordered a]
    apply Finset.sup_le
    intro producer member
    have feeds := mem_feeders.mp member
    have early : order.idxOf producer < Schedule.turn graph.waits order b :=
      Nat.lt_of_lt_of_le ((lt_turn_iff ordered).mpr ⟨producer, feeds, Nat.le_refl _⟩) turns
    -- So the later node has a producer that does not come before this one of the earlier node.
    obtain ⟨other, feeds', behind⟩ := (lt_turn_iff ordered).mp early
    have lower := ih _ (idxOf_lt_of_feeds ordered feeds') (feeds.mem_order ordered)
      (feeds'.mem_order ordered) behind rfl
    exact Nat.lt_of_le_of_lt lower (depth_lt_of_feeds ordered feeds')

/-- Nodes with the same producers keep the order of their places. -/
theorem idxOf_lt_iff_of_feeders {a b : Nat} (memberA : a ∈ order) (memberB : b ∈ order)
    (same : graph.feeders a = graph.feeders b) :
    order.idxOf a < order.idxOf b ↔ a < b := by
  have turns : Schedule.turn graph.waits order a = Schedule.turn graph.waits order b := by
    rw [Schedule.turn, Schedule.turn, sources_waits ordered, sources_waits ordered, same]
  rw [idxOf_lt_iff_turn ordered memberA memberB, turns]
  simp

theorem feeders_eq_empty_iff : graph.feeders place = ∅ ↔ graph.depth place = 0 := by
  rw [depth_eq_zero_iff ordered, Finset.eq_empty_iff_forall_notMem]
  simp

/-- An order of execution goes by depths. -/
theorem breaksTies_of_order : graph.BreaksTies order where
  depths := by
    have once := (perm_of_order ordered).nodup_iff.mpr List.nodup_range
    apply List.pairwise_iff_getElem.mpr
    intro i j withinA withinB before
    apply depth_le_of_idxOf_le ordered (List.getElem_mem _) (List.getElem_mem _)
    rw [once.idxOf_getElem, once.idxOf_getElem]
    exact Nat.le_of_lt before
  sources := by
    intro a memberA b memberB free free'
    apply idxOf_lt_iff_of_feeders ordered memberA memberB
    rw [(feeders_eq_empty_iff ordered).mpr free, (feeders_eq_empty_iff ordered).mpr free']
  users := by
    intro a memberA b memberB same positive
    have exists_last : ∀ {place}, 0 < graph.depth place → ∃ p, graph.IsLastFeeder order p place := by
      intro place positive
      have some := mt (depth_eq_zero_iff ordered).mpr (Nat.ne_of_gt positive)
      obtain ⟨producer, feeds⟩ := not_forall_not.mp some
      exact exists_isLastFeeder feeds
    obtain ⟨p, lastA⟩ := exists_last positive
    obtain ⟨q, lastB⟩ := exists_last (same ▸ positive)
    refine ⟨p, q, lastA, lastB, ?_⟩
    rw [idxOf_lt_iff_turn ordered memberA memberB, lastA.turn_eq ordered, lastB.turn_eq ordered]
    rw [Nat.add_lt_add_iff_right, Nat.add_right_cancel_iff, List.idxOf_inj (lastA.1.mem_order ordered)]

/-! ### There is no other such order -/

namespace BreaksTies

variable {before after after' : List Nat} {a b : Nat}

/-- In a list that goes by depths, the producers of a node come before it. -/
theorem mem_of_feeds (h : graph.BreaksTies (before ++ a :: after))
    (perm : (before ++ a :: after).Perm order) (producer : Nat) (feeds : graph.Feeds producer a) :
    producer ∈ before := by
  have lower := depth_lt_of_feeds ordered feeds
  rcases List.mem_append.mp (perm.mem_iff.mpr (feeds.mem_order ordered)) with earlier | later
  · exact earlier
  · have behind := (List.pairwise_append.mp h.depths).2.1
    rcases List.mem_cons.mp later with rfl | later
    · exact absurd lower (Nat.lt_irrefl _)
    · exact absurd ((List.pairwise_cons.mp behind).1 producer later) (Nat.not_le_of_lt lower)

/-- Where two lists that go by depths part, the node that the first one names next is no deeper than the
other. If it is as deep, it has the earlier last producer, or the smaller place. -/
theorem of_parting (h : graph.BreaksTies (before ++ a :: after))
    (h' : graph.BreaksTies (before ++ b :: after')) (perm : (before ++ a :: after).Perm order)
    (perm' : (before ++ b :: after').Perm order) (different : a ≠ b) :
    graph.depth a ≤ graph.depth b ∧ (graph.depth a = graph.depth b →
      graph.depth a = 0 ∧ a < b ∨ ∃ p q, graph.IsLastFeeder before p a ∧
        graph.IsLastFeeder before q b ∧ (before.idxOf p < before.idxOf q ∨ p = q ∧ a < b)) := by
  have once := (perm_of_order ordered).nodup_iff.mpr List.nodup_range
  have memberA : a ∈ before ++ a :: after := List.mem_append_right _ List.mem_cons_self
  have memberB : b ∈ before ++ a :: after :=
    (perm.trans perm'.symm).mem_iff.mpr (List.mem_append_right _ List.mem_cons_self)
  obtain ⟨behind, first⟩ :=
    idxOf_lt_of_parting (perm.nodup_iff.mpr once) (perm'.nodup_iff.mpr once) memberB different
  refine ⟨(List.pairwise_cons.mp (List.pairwise_append.mp h.depths).2.1).1 b behind, fun same => ?_⟩
  by_cases free : graph.depth a = 0
  · exact .inl ⟨free, (h.sources a memberA b memberB free (same ▸ free)).mp first⟩
  · obtain ⟨p, q, lastA, lastB, compared⟩ := h.users a memberA b memberB same (Nat.pos_of_ne_zero free)
    have listedA := h.mem_of_feeds ordered perm
    have listedB := h'.mem_of_feeds ordered perm'
    rw [List.idxOf_append_of_mem (listedA p lastA.1), List.idxOf_append_of_mem (listedB q lastB.1)]
      at compared
    exact .inr ⟨p, q, (isLastFeeder_append listedA).mp lastA, (isLastFeeder_append listedB).mp lastB,
      compared.mp first⟩

/-- Two lists of all nodes that go by depths do not part. -/
theorem eq_of_parting (h : graph.BreaksTies (before ++ a :: after))
    (h' : graph.BreaksTies (before ++ b :: after')) (perm : (before ++ a :: after).Perm order)
    (perm' : (before ++ b :: after').Perm order) : a = b := by
  by_contra different
  obtain ⟨le, compared⟩ := h.of_parting ordered h' perm perm' different
  obtain ⟨ge, compared'⟩ := h'.of_parting ordered h perm' perm (Ne.symm different)
  have same := Nat.le_antisymm le ge
  have listedA := h.mem_of_feeds ordered perm
  have listedB := h'.mem_of_feeds ordered perm'
  rcases compared same with ⟨free, smaller⟩ | ⟨p, q, lastA, lastB, smaller⟩ <;>
    rcases compared' same.symm with ⟨free', smaller'⟩ | ⟨q', p', lastB', lastA', smaller'⟩
  · omega
  · exact (depth_eq_zero_iff ordered).mp free p' lastA'.1
  · exact (depth_eq_zero_iff ordered).mp free' q lastB.1
  · obtain rfl := lastA.unique lastA' listedA
    obtain rfl := lastB.unique lastB' listedB
    rcases smaller with earlier | ⟨shared, smaller⟩ <;>
      rcases smaller' with earlier' | ⟨shared', smaller'⟩
    · omega
    · exact Nat.lt_irrefl _ (shared' ▸ earlier)
    · exact Nat.lt_irrefl _ (shared ▸ earlier')
    · omega

/-- There is one list of all nodes that goes by depths. -/
theorem unique {other : List Nat} (h : graph.BreaksTies other) (perm : other.Perm order) : other = order := by
  have agree : ∀ after after' before : List Nat, graph.BreaksTies (before ++ after) →
      graph.BreaksTies (before ++ after') → (before ++ after).Perm order →
      (before ++ after').Perm order → after = after' := by
    intro after
    induction after with
    | nil =>
      intro after' before _ _ perm perm'
      have := (perm.trans perm'.symm).length_eq
      exact (List.eq_nil_of_length_eq_zero (by simpa using this)).symm
    | cons a after ih =>
      intro after' before h h' perm perm'
      cases after' with
      | nil =>
        have := (perm.trans perm'.symm).length_eq
        simp at this
      | cons b after' =>
        obtain rfl := h.eq_of_parting ordered h' perm perm'
        rw [List.append_cons] at h h' perm perm'
        rw [ih after' _ h h' perm perm']
  exact agree other order [] h (breaksTies_of_order ordered) perm (List.Perm.refl _)

end BreaksTies

end Ordered

/-- The depth of a node is zero if it has no producers, and otherwise one more than the largest depth
among them. An order of execution goes by depths: nodes of depth zero keep the order in which they were
added, and of two other nodes of one depth that comes first whose last producer does, or the one that was
added first if they share it. This determines the order. Nodes with the same producers keep the order in
which they were added. -/
theorem order_goes_by_depth (ordered : graph.order = .ok order) :
    (∀ place, graph.depth place = (graph.feeders place).sup (graph.depth · + 1)) ∧
      graph.BreaksTies order ∧
      (∀ other : List Nat, other.Perm order → graph.BreaksTies other → other = order) ∧
      ∀ a ∈ order, ∀ b ∈ order, graph.feeders a = graph.feeders b →
        (order.idxOf a < order.idxOf b ↔ a < b) := by
  refine ⟨depth_eq ordered, breaksTies_of_order ordered, ?_, ?_⟩
  · intro other perm ties
    exact ties.unique ordered perm
  · intro a memberA b memberB same
    exact idxOf_lt_iff_of_feeders ordered memberA memberB same

/-- Two producers whose users were added before them, the user of the second producer first, and a node
that uses what both users compute. -/
def crossedGraph : Graph :=
  built [.declare, .declare, .addOp ⟨"a"⟩ [⟨1⟩] 1, .addOp ⟨"b"⟩ [⟨0⟩] 1, .addNode ⟨"c"⟩ [] [⟨0⟩],
    .addNode ⟨"d"⟩ [] [⟨1⟩], .addOp ⟨"e"⟩ [⟨3⟩, ⟨2⟩, ⟨3⟩] 1]

/-- The users follow their producers, against the order in which they were added. -/
theorem order_goes_by_depth_crossed :
    crossedGraph.order = .ok [2, 3, 1, 0, 4] ∧ crossedGraph.BreaksTies [2, 3, 1, 0, 4] ∧
      (∀ other : List Nat, other.Perm [2, 3, 1, 0, 4] → crossedGraph.BreaksTies other →
        other = [2, 3, 1, 0, 4]) ∧
      crossedGraph.depth 4 = 2 := by
  have ordered : crossedGraph.order = .ok [2, 3, 1, 0, 4] := by decide
  obtain ⟨-, ties, only, -⟩ := order_goes_by_depth ordered
  exact ⟨ordered, ties, only, by decide⟩

end TensorEngine.Graph
