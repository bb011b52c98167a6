import TensorEngine.Proofs.Lowering.Nodes
import TensorEngine.Proofs.Network.Parallel

/-!
# Lowering in parallel

A node is lowered from two states that bind what it reads to tensors that match. What it adds to the two
networks matches as well, under ids that are counted from where the networks stood. Outputs of the graph
are marked in parallel where bindings are one to one.

## Main definitions

* `State.Added`, `State.Paired`: tensors of two lowerings that belong together
* `State.Parallel`: states that have come from two others in parallel
* `parallel`: the simulation between lowerings in parallel

## Main results

* `parallel_sameMode`, `parallel_watches`, `parallel_marks`: what nodes and outputs need
-/

namespace TensorEngine

namespace Lowering

namespace State

variable {base base' state state' next : State} {exports : TensorId → TensorId → Prop}
  {binds : ValueId → Prop} {x y z : TensorId}

/-- Tensors at equal distances behind those that were there. -/
def Added (base base' : State) (x y : TensorId) : Prop :=
  ∃ d, x = ⟨base.network.tensors.length + d⟩ ∧ y = ⟨base'.network.tensors.length + d⟩

/-- Tensors that one value was bound to at the start, or that were added by the same call. -/
inductive Paired (base base' : State) (x y : TensorId) : Prop
  | bound {id : ValueId} (left : base.binding? id = some x) (right : base'.binding? id = some y)
  | added (behind : Added base base' x y)

/-- A value that was bound behind the start, alike in both states. -/
structure BoundAlike (base base' : State) (network network' : Network) (binds : ValueId → Prop)
    (id : ValueId) (x y : TensorId) : Prop where
  binds : binds id
  matched : network.Matches network' x y
  added : Added base base' x y

/-- States that have come from two others in parallel. -/
structure Parallel (base base' : State) (exports : TensorId → TensorId → Prop)
    (binds : ValueId → Prop) (state state' : State) : Prop where
  mode : state.settings.dynamicShape = state'.settings.dynamicShape
  network : base.network.Parallel base'.network exports state.network state'.network
  bindings : Appended (fun entry entry' => entry.1 = entry'.1 ∧
      BoundAlike base base' state.network state'.network binds entry.1 entry.2 entry'.2)
    base.bindings state.bindings base'.bindings state'.bindings

namespace Parallel

theorem added (h : Parallel base base' exports binds state state') :
    Added base base' state.network.nextId state'.network.nextId := by
  have count := h.network.count
  have longer : base.network.tensors.length ≤ state.network.tensors.length := by
    simpa [Network.types] using h.network.grows.types.length_le
  refine ⟨state.network.tensors.length - base.network.tensors.length, ?_, ?_⟩
  · rw [Nat.add_sub_cancel' longer]
    rfl
  · rw [Network.nextId, TensorId.mk.injEq]
    omega

/-- Bindings stay alike when the networks go on. -/
theorem push (h : Parallel base base' exports binds state state') {network network' : Network}
    (parallel : base.network.Parallel base'.network exports network network')
    (grows : state.network.Grows network) (grows' : state'.network.Grows network') {n n' : Nat} :
    Parallel base base' exports binds { state with network := network, frozen := n }
      { state' with network := network', frozen := n' } where
  mode := h.mode
  network := parallel
  bindings := h.bindings.imp fun _ _ entry =>
    ⟨entry.1, entry.2.binds, entry.2.matched.grows grows grows', entry.2.added⟩

/-- A call that adds a layer is made in both states. -/
theorem edit (h : Parallel base base' exports binds state state') {e e' : Network.Edit}
    {kind : LayerKind} (adds : e.kind? = some kind) (adds' : e'.kind? = some kind)
    (operands : List.Forall₂ (state.network.Matches state'.network) e.inputs e'.inputs)
    (accepted : state.edit e = (.ok x, next)) :
    ∃ y next', state'.edit e' = (.ok y, next') ∧ Parallel base base' exports binds next next' ∧
      next.network.Matches next'.network x y ∧ Added base base' x y := by
  obtain ⟨network, applied, rfl⟩ := edit_eq_ok_iff.mp accepted
  obtain ⟨rfl, network', applied', parallel, matched⟩ := h.network.call adds adds' operands applied
  refine ⟨_, { state' with network := network' }, edit_eq_ok_iff.mpr ⟨_, applied', rfl⟩, ?_, matched,
    h.added⟩
  exact h.push parallel (Network.step_of_call applied).grows (Network.step_of_call applied').grows

/-- Constants are frozen under names of their own. -/
theorem freeze (h : Parallel base base' exports binds state state') (weights : Tensor) :
    Parallel base base' exports binds (state.freeze weights).2 (state'.freeze weights).2 ∧
      (state.freeze weights).2.network.Matches (state'.freeze weights).2.network
        (state.freeze weights).1 (state'.freeze weights).1 ∧
      Added base base' (state.freeze weights).1 (state'.freeze weights).1 := by
  have applied : ∀ state : State,
      state.network.call (.addConstant s!"[Freeze Tensor {state.frozen}]" weights) =
        (.ok (state.freeze weights).1, (state.freeze weights).2.network) := fun _ => rfl
  have adds : ∀ name, (Network.Edit.addConstant name weights).kind? = some (.constant weights) :=
    fun _ => rfl
  obtain ⟨-, network', again, parallel, matched⟩ :=
    h.network.call (adds _) (adds _) .nil (applied state)
  cases again.symm.trans (applied state')
  exact ⟨h.push parallel (Network.step_of_call (applied state)).grows
    (Network.step_of_call (applied state')).grows, matched, h.added⟩

/-- A value is bound in one of the states if it was bound at the start, or by both. -/
theorem binding? (h : Parallel base base' exports binds state state') (id : ValueId) :
    ∃ bound bound' : Option TensorId, state.binding? id = (base.binding? id).or bound ∧
      state'.binding? id = (base'.binding? id).or bound' ∧
      Option.Rel (BoundAlike base base' state.network state'.network binds id) bound bound' := by
  obtain ⟨added, added', same, same', related⟩ := h.bindings
  refine ⟨added.lookup id, added'.lookup id, ?_, ?_, rel_lookup related id⟩
  · rw [State.binding?, same, List.lookup_append]
    rfl
  · rw [State.binding?, same', List.lookup_append]
    rfl

/-- What is bound in the end was bound at the start, or is bound to a tensor that is new. -/
theorem bound_or_added (h : Parallel base base exports binds state state) {id : ValueId}
    (bound : state.binding? id = some x) :
    base.binding? id = some x ∨ binds id ∧ Added base base x x := by
  obtain ⟨bound?, bound?', lookup, lookup', related⟩ := h.binding? id
  cases earlier : base.binding? id with
  | some y =>
    rw [lookup, earlier] at bound
    exact .inl bound
  | none =>
    rw [earlier, Option.none_or] at lookup lookup'
    rw [← lookup, ← lookup', bound] at related
    cases related with
    | some alike => exact .inr ⟨alike.binds, alike.added⟩

/-- A value is bound in both states if it may be. -/
theorem bind (h : Parallel base base' exports binds state state')
    (free : ∀ id, binds id → base.binding? id = none → base'.binding? id = none) {value : ValueId}
    (binding : binds value) (matched : state.network.Matches state'.network x y)
    (added : Added base base' x y) (accepted : state.bind value x = (.ok z, next)) :
    ∃ z' next', state'.bind value y = (.ok z', next') ∧
      Parallel base base' exports binds next next' := by
  obtain ⟨-, fresh, rfl, rfl⟩ := binds_iff.mp accepted
  obtain ⟨type, -, typed⟩ := matched.type
  obtain ⟨t, known, -⟩ := Network.exists_tensor_of_types typed
  obtain ⟨bound, bound', lookup, lookup', related⟩ := h.binding? value
  rw [fresh, eq_comm, Option.or_eq_none_iff] at lookup
  rw [lookup.2] at related
  cases related
  have fresh' : state'.binding? value = none := by rw [lookup', free value binding lookup.1]; rfl
  refine ⟨y, _, binds_iff.mpr ⟨⟨t, known⟩, fresh', rfl, rfl⟩, h.mode, h.network, ?_⟩
  exact h.bindings.concat ⟨rfl, binding, matched, added⟩

end Parallel

end State

variable {base base' : State} {exports : TensorId → TensorId → Prop} {binds : ValueId → Prop}

/-- The simulation between lowerings that go on from two states in parallel. -/
def parallel (base base' : State) (exports : TensorId → TensorId → Prop) (binds : ValueId → Prop)
    (free : ∀ id, binds id → base.binding? id = none → base'.binding? id = none) : Simulation where
  Alike := State.Parallel base base' exports binds
  Same w x y := w.1.Matches w.2 x y ∧ State.Paired base base' x y
  Made w x y := w.1.Matches w.2 x y ∧ State.Added base base' x y
  Allowed _ := True
  Binds := binds
  same_of_grow grow same := ⟨same.1.grows grow.1 grow.2, same.2⟩
  made_of_grow grow made := ⟨made.1.grows grow.1 grow.2, made.2⟩
  same_of_made made := ⟨made.1, .added made.2⟩
  allowed_permute _ _ := trivial
  allowed_scalar _ := trivial
  types := by
    rintro state state' x y type - ⟨matched, -⟩ recorded
    obtain ⟨type', left, right⟩ := matched.type
    cases left.symm.trans recorded
    exact right
  edit := by
    intro state state' next e e' x states alike accepted
    obtain ⟨kind, adds, adds', -⟩ := alike.kind
    exact states.edit adds adds' (alike.inputs.imp fun _ _ same => same.1) accepted
  freeze states _ := states.freeze _
  bind states binding made accepted := states.bind free binding made.1 made.2 accepted

variable {free : ∀ id, binds id → base.binding? id = none → base'.binding? id = none}

theorem parallel_sameMode : (parallel base base' exports binds free).SameMode :=
  State.Parallel.mode

theorem parallel_admits (graph : Graph) : (parallel base base' exports binds free).Admits graph :=
  fun _ _ _ _ => trivial

/-- Values that are bound alike at the start are watched. -/
theorem parallel_watches {ids : List ValueId}
    (alike : ∀ id ∈ ids, Option.Rel (base.network.Matches base'.network) (base.binding? id)
      (base'.binding? id)) : (parallel base base' exports binds free).Watches ids := by
  intro state state' states id listed
  obtain ⟨bound, bound', lookup, lookup', related⟩ := states.binding? id
  rw [lookup, lookup']
  have start := alike id listed
  generalize left : base.binding? id = x?, right : base'.binding? id = y? at start
  cases start with
  | some matched =>
    exact .some ⟨matched.grows states.network.grows states.network.grows', .bound left right⟩
  | none =>
    cases related with
    | none => exact .none
    | some h => exact .some ⟨h.matched, .added h.added⟩

/-! ### Outputs -/

/-- Different values are bound to different tensors of the network. -/
structure State.OneToOne (state : State) : Prop where
  grounded : state.Grounded
  injective : ∀ {a b x}, state.binding? a = some x → state.binding? b = some x → a = b

/-- Bindings are one to one, and values are bound to inputs in both states or in none. -/
structure State.Corresponds (base base' : State) : Prop where
  left : base.OneToOne
  right : base'.OneToOne
  inputs : ∀ {id x y}, base.binding? id = some x → base'.binding? id = some y →
    (x ∈ base.network.inputs ↔ y ∈ base'.network.inputs)
  grounded : ∀ x ∈ base.network.inputs, x.index < base.network.tensors.length
  grounded' : ∀ x ∈ base'.network.inputs, x.index < base'.network.tensors.length

namespace State

variable {x y x' y' : TensorId}

theorem Added.not_lt (h : Added base base' x y) :
    ¬ x.index < base.network.tensors.length ∧ ¬ y.index < base'.network.tensors.length := by
  obtain ⟨d, rfl, rfl⟩ := h
  simp

/-- Pairs are one to one. -/
theorem Corresponds.paired_iff (h : Corresponds base base') (pair : Paired base base' x y)
    (pair' : Paired base base' x' y') : x = x' ↔ y = y' := by
  cases pair with
  | bound left right =>
    have within := h.left.grounded.binding? left
    have within' := h.right.grounded.binding? right
    cases pair' with
    | bound left' right' =>
      constructor
      · rintro rfl
        rw [h.left.injective left left'] at right
        exact Option.some.inj (right.symm.trans right')
      · rintro rfl
        rw [h.right.injective right right'] at left
        exact Option.some.inj (left.symm.trans left')
    | added behind =>
      exact iff_of_false (fun same => behind.not_lt.1 (same ▸ within))
        fun same => behind.not_lt.2 (same ▸ within')
  | added behind =>
    cases pair' with
    | bound left right =>
      exact iff_of_false (fun same => behind.not_lt.1 (same ▸ h.left.grounded.binding? left))
        fun same => behind.not_lt.2 (same ▸ h.right.grounded.binding? right)
    | added behind' =>
      obtain ⟨d, rfl, rfl⟩ := behind
      obtain ⟨d', rfl, rfl⟩ := behind'
      simp

theorem Corresponds.mem_inputs_iff (h : Corresponds base base') (pair : Paired base base' x y) :
    x ∈ base.network.inputs ↔ y ∈ base'.network.inputs := by
  cases pair with
  | bound left right => exact h.inputs left right
  | added behind =>
    exact iff_of_false (fun input => behind.not_lt.1 (h.grounded _ input))
      fun input => behind.not_lt.2 (h.grounded' _ input)

/-- Tensors of a pair are marked in both states or in none. -/
theorem Parallel.isMarked_eq {state state' : State} (corresponds : Corresponds base base')
    (h : Parallel base base' (Paired base base') binds state state') (pair : Paired base base' x y) :
    state'.network.isMarked y = state.network.isMarked x := by
  have outputs : x ∈ state.network.outputs ↔ y ∈ state'.network.outputs := by
    constructor
    · intro output
      obtain ⟨y', output', pair', -⟩ := forall₂_mem_left h.network.outputs output
      exact (corresponds.paired_iff pair pair').mp rfl ▸ output'
    · intro output
      obtain ⟨x', output', pair', -⟩ := forall₂_mem_right h.network.outputs output
      exact (corresponds.paired_iff pair pair').mpr rfl ▸ output'
  simp only [Network.isMarked, h.network.inputs, h.network.inputs', corresponds.mem_inputs_iff pair,
    outputs]

end State

theorem parallel_marks (corresponds : State.Corresponds base base') :
    (parallel base base' (State.Paired base base') binds free).Marks where
  isMarked states same := states.isMarked_eq corresponds same.2
  markOutput := by
    rintro state state' next x y z position states ⟨matched, pair⟩ accepted
    obtain ⟨network, applied, rfl⟩ := State.edit_eq_ok_iff.mp accepted
    obtain ⟨network', applied', grown⟩ :=
      states.network.call_markOutput matched pair (states.isMarked_eq corresponds pair) applied
    refine ⟨y, { state' with network := network' }, State.edit_eq_ok_iff.mpr ⟨_, applied', rfl⟩, ?_⟩
    exact states.push grown (Network.step_of_call applied).grows (Network.step_of_call applied').grows

end Lowering

end TensorEngine
