import TensorEngine.Proofs.Execution.Models
import TensorEngine.Proofs.Network.Growth

/-!
# Meanings of tensors

What a tensor of a network stands for is a function of what is given for the inputs: an input is what is
given for it, and the output of a layer is computed from what the operands stand for. In a coherent
network every tensor has one meaning, which stays the same when the network grows. Tensors of different
networks can therefore be compared by their meanings, whatever their ids are.

## Main definitions

* `Meaning`, `Network.Denotes`: what a tensor stands for
* `Network.Matches`, `Layer.Matches`: tensors and layers of two networks that stand for the same

## Main results

* `Network.Coherent.exists_meaning`, `Network.Denotes.unique`: every tensor has one meaning
* `Network.Denotes.value`: values that satisfy a network are those of the meanings
* `Network.Coherent.exists_runLayers`: layers run if their outputs have values by their meanings
-/

namespace TensorEngine

/-- What a tensor stands for, as a function of what is given for the inputs. -/
abbrev Meaning := (Nat → Option Tensor) → Option Tensor

/-- What a kind of layer computes from its operands. -/
def LayerKind.compute? (kind : LayerKind) (operand : Nat → Option Tensor) : Option Tensor :=
  match kind with
  | .constant weights => some weights
  | .shuffle spec => do ((← operand 0).shuffle spec).toOption
  | .matrixMultiply op0 op1 => do ((← operand 0).matrixMultiply op0 (← operand 1) op1).toOption
  | .elementWise op => do ((← operand 0).elementWise (← operand 1) op).toOption

/-- What the output of a kind of layer stands for. -/
def LayerKind.meaning (kind : LayerKind) (operands : List Meaning) : Meaning :=
  fun given => kind.compute? fun k => (operands[k]?).bind (· given)

/-- A layer computes what its kind does from the values of its inputs. -/
theorem Layer.compute_eq_ok_iff {layer : Layer} {values : Values} {t : Tensor} :
    layer.compute values = .ok t ↔
      layer.kind.compute? (fun k => (layer.inputs[k]?).bind values.get?) = some t := by
  have operand : ∀ k a, layer.operand values k = .ok a ↔
      (layer.inputs[k]?).bind values.get? = some a := fun k a => by
    rw [operand_eq_ok_iff, Option.bind_eq_some_iff]
  unfold compute LayerKind.compute?
  cases layer.kind <;>
    simp only [bind_eq_ok_iff, operand, Except.ok.injEq, Option.some.injEq, Option.bind_eq_bind,
      Option.bind_eq_some_iff, toOption_eq_some_iff]

namespace Network

/-- What a tensor of a network stands for. -/
inductive Denotes (network : Network) : TensorId → Meaning → Prop
  | input {k : Nat} {x : TensorId} (listed : network.inputs[k]? = some x) :
      Denotes network x fun given => given k
  | layer {layer : Layer} {operands : List Meaning} (member : layer ∈ network.layers)
      (count : operands.length = layer.inputs.length)
      (known : ∀ (k : Nat) x f, layer.inputs[k]? = some x → operands[k]? = some f →
        Denotes network x f) :
      Denotes network layer.output (layer.kind.meaning operands)

variable {network next network' next' : Network} {x y : TensorId} {f g : Meaning}

theorem Denotes.grows (h : network.Denotes x f) (grows : network.Grows next) : next.Denotes x f := by
  induction h with
  | input listed => exact .input (getElem?_of_isPrefix grows.inputs listed)
  | layer member count _ ih => exact .layer (grows.layers.subset member) count ih

theorem Denotes.of_layer {layer : Layer} {operands : List Meaning} (member : layer ∈ network.layers)
    (known : List.Forall₂ network.Denotes layer.inputs operands) :
    network.Denotes layer.output (layer.kind.meaning operands) := by
  refine .layer member (List.Forall₂.length_eq known).symm fun k x f listed given => ?_
  obtain ⟨f', given', denotes⟩ := forall₂_getElem? known listed
  cases given.symm.trans given'
  exact denotes

/-- Layers of a coherent network have different outputs. -/
theorem Coherent.eq_of_output_eq (h : network.Coherent) {a b : Layer} (memberA : a ∈ network.layers)
    (memberB : b ∈ network.layers) (same : a.output = b.output) : a = b := by
  have outputs : (network.layers.map Layer.output).Nodup := by
    refine List.pairwise_map.mpr (h.ascending.imp fun {a b} below same => ?_)
    exact Nat.ne_of_lt below (congrArg TensorId.index same)
  exact List.inj_on_of_nodup_map outputs memberA memberB same

/-- A tensor of a coherent network stands for one thing only. -/
theorem Denotes.unique (coherent : network.Coherent) (h : network.Denotes x f)
    (h' : network.Denotes x g) : f = g := by
  induction h generalizing g with
  | @input k x listed =>
    cases h' with
    | @input k' _ listed' =>
      have distinct := (List.nodup_append.mp coherent.distinct).1
      have same : k = k' := (List.getElem?_inj (List.getElem?_eq_some_iff.mp listed).1 distinct).mp
        (listed.trans listed'.symm)
      rw [same]
    | layer member => exact absurd (List.mem_of_getElem? listed) (coherent.apart _ member)
  | @layer layer operands member count known ih =>
    generalize output : layer.output = x at h'
    cases h' with
    | input listed =>
      subst output
      exact absurd (List.mem_of_getElem? listed) (coherent.apart _ member)
    | @layer layer' operands' member' count' known' =>
      obtain rfl := coherent.eq_of_output_eq member member' output
      -- The operands of both derivations stand for the same, one by one.
      have same : operands = operands' := by
        refine List.ext_getElem (count.trans count'.symm) fun k h h' => ?_
        have within : k < layer.inputs.length := count ▸ h
        exact ih k _ _ (List.getElem?_eq_getElem within) (List.getElem?_eq_getElem h)
          (known' k _ _ (List.getElem?_eq_getElem within) (List.getElem?_eq_getElem h'))
      rw [same]

/-- Every tensor of a coherent network stands for something. -/
theorem Coherent.exists_meaning (h : network.Coherent) (within : x.index < network.tensors.length) :
    ∃ f, network.Denotes x f := by
  -- By induction on the index: a layer reads what is older.
  induction known : x.index using Nat.strongRecOn generalizing x with
  | ind index ih =>
    subst known
    rcases h.source x within with input | ⟨layer, member, rfl⟩
    · obtain ⟨k, listed⟩ := List.mem_iff_getElem?.mp input
      exact ⟨_, .input listed⟩
    · have operands : ∀ id ∈ layer.inputs, ∃ f, network.Denotes id f := fun id read =>
        have older := (h.layers layer member).older id read
        ih id.index older (Nat.lt_trans older within) rfl
      choose! meaning denotes using operands
      have known : List.Forall₂ network.Denotes layer.inputs (layer.inputs.map meaning) := by
        rw [List.forall₂_map_right_iff, List.forall₂_same]
        exact denotes
      exact ⟨_, .of_layer member known⟩

/-- A tensor that was there before a network has grown stood for the same. -/
theorem Denotes.restrict (h : next.Denotes x f) (grows : network.Grows next)
    (coherent : network.Coherent) (coherent' : next.Coherent)
    (within : x.index < network.tensors.length) : network.Denotes x f := by
  obtain ⟨g, denotes⟩ := coherent.exists_meaning within
  rwa [h.unique coherent' (denotes.grows grows)]

/-! ### Tensors of two networks -/

/-- Tensors that stand for the same and have the same type. -/
structure Matches (network network' : Network) (x y : TensorId) : Prop where
  meaning : ∃ f, network.Denotes x f ∧ network'.Denotes y f
  type : ∃ type, network.types[x.index]? = some type ∧ network'.types[y.index]? = some type

namespace Matches

theorem grows (h : network.Matches network' x y) (grows : network.Grows next)
    (grows' : network'.Grows next') : next.Matches next' x y := by
  obtain ⟨⟨f, left, right⟩, type, typeLeft, typeRight⟩ := h
  exact ⟨⟨f, left.grows grows, right.grows grows'⟩, type, getElem?_of_isPrefix grows.types typeLeft,
    getElem?_of_isPrefix grows'.types typeRight⟩

theorem refl (coherent : network.Coherent) (within : x.index < network.tensors.length) :
    network.Matches network x x := by
  obtain ⟨f, denotes⟩ := coherent.exists_meaning within
  have typed : x.index < network.types.length := by rwa [types, List.length_map]
  exact ⟨⟨f, denotes, denotes⟩, _, List.getElem?_eq_getElem typed, List.getElem?_eq_getElem typed⟩

theorem symm (h : network.Matches network' x y) : network'.Matches network y x := by
  obtain ⟨⟨f, left, right⟩, type, typeLeft, typeRight⟩ := h
  exact ⟨⟨f, right, left⟩, type, typeRight, typeLeft⟩

/-- Tensors match before the first network has grown if they do after that. -/
theorem restrict (h : next.Matches network' x y) (grows : network.Grows next)
    (coherent : network.Coherent) (coherent' : next.Coherent)
    (within : x.index < network.tensors.length) : network.Matches network' x y := by
  obtain ⟨⟨f, left, right⟩, type, typeLeft, typeRight⟩ := h
  have typed : x.index < network.types.length := by rwa [types, List.length_map]
  have same := getElem?_of_isPrefix grows.types (List.getElem?_eq_getElem typed)
  cases typeLeft.symm.trans same
  exact ⟨⟨f, left.restrict grows coherent coherent' within, right⟩, _, List.getElem?_eq_getElem typed,
    typeRight⟩

/-- What layers of one kind compute from operands that match stands for the same. -/
theorem meaning_of_layer {layer layer' : Layer} (member : layer ∈ network.layers)
    (member' : layer' ∈ network'.layers) (kind : layer'.kind = layer.kind)
    (operands : List.Forall₂ (network.Matches network') layer.inputs layer'.inputs) :
    ∃ f, network.Denotes layer.output f ∧ network'.Denotes layer'.output f := by
  have meanings : ∃ fs, List.Forall₂ network.Denotes layer.inputs fs ∧
      List.Forall₂ network'.Denotes layer'.inputs fs := by
    generalize layer.inputs = xs, layer'.inputs = ys at operands
    induction operands with
    | nil => exact ⟨[], .nil, .nil⟩
    | cons first _ ih =>
      obtain ⟨f, left, right⟩ := first.meaning
      obtain ⟨fs, lefts, rights⟩ := ih
      exact ⟨f :: fs, .cons left lefts, .cons right rights⟩
  obtain ⟨fs, left, right⟩ := meanings
  exact ⟨_, .of_layer member left, kind ▸ .of_layer member' right⟩

end Matches

end Network

/-- Layers of the same kind whose outputs match. -/
structure Layer.Matches (network network' : Network) (layer layer' : Layer) : Prop where
  kind : layer'.kind = layer.kind
  output : network.Matches network' layer.output layer'.output

theorem Layer.Matches.symm {network network' : Network} {layer layer' : Layer}
    (h : layer.Matches network network' layer') : layer'.Matches network' network layer :=
  ⟨h.kind.symm, h.output.symm⟩

theorem Layer.Matches.grows {network next network' next' : Network} {layer layer' : Layer}
    (h : layer.Matches network network' layer') (grows : network.Grows next)
    (grows' : network'.Grows next') : layer.Matches next next' layer' :=
  ⟨h.kind, h.output.grows grows grows'⟩

/-! ### Values -/

namespace Network

variable {network : Network} {values next : Values} {given : Nat → Option Tensor} {x : TensorId}
  {f : Meaning} {t : Tensor}

/-- What a kind of layer computes depends on the values of operands only. -/
theorem meaning_eq {layer : Layer} {operands : List Meaning}
    (count : operands.length = layer.inputs.length)
    (known : ∀ (k : Nat) x f, layer.inputs[k]? = some x → operands[k]? = some f →
      values.get? x = f given) :
    layer.kind.meaning operands given =
      layer.kind.compute? fun k => (layer.inputs[k]?).bind values.get? := by
  refine congrArg layer.kind.compute? (funext fun k => ?_)
  by_cases within : k < operands.length
  · have entry := List.getElem?_eq_getElem within
    have entry' := List.getElem?_eq_getElem (count ▸ within)
    rw [entry, entry', Option.bind_some, Option.bind_some]
    exact (known k _ _ entry' entry).symm
  · rw [List.getElem?_eq_none (Nat.not_lt.mp within),
      List.getElem?_eq_none (count ▸ Nat.not_lt.mp within)]
    rfl

/-- In values that satisfy every layer, tensors have the values that they stand for. -/
theorem Denotes.value (h : network.Denotes x f)
    (inputs : ∀ (k : Nat) x, network.inputs[k]? = some x → values.get? x = given k)
    (computed : ∀ layer ∈ network.layers,
      ∃ t, layer.compute values = .ok t ∧ values.get? layer.output = some t) :
    values.get? x = f given := by
  induction h with
  | input listed => exact inputs _ _ listed
  | layer member count _ ih =>
    obtain ⟨t, compute, value⟩ := computed _ member
    rw [value, meaning_eq count ih, Layer.compute_eq_ok_iff.mp compute]

/-- A layer whose operands have the values that they stand for computes what its output stands for. -/
theorem Coherent.compute_eq_ok (h : network.Coherent) {before after : List Layer} {layer : Layer}
    (split : network.layers = before ++ layer :: after)
    (known : ∀ x, (x ∈ network.inputs ∨ ∃ earlier ∈ before, earlier.output = x) →
      ∀ f, network.Denotes x f → values.get? x = f given)
    (denotes : network.Denotes layer.output f) (value : f given = some t) :
    layer.compute values = .ok t := by
  have member : layer ∈ network.layers := split ▸ List.mem_append_right _ List.mem_cons_self
  have operands : ∀ id ∈ layer.inputs, ∃ f, network.Denotes id f ∧ values.get? id = f given := by
    intro id read
    have older := (h.layers layer member).older id read
    obtain ⟨f, denotes⟩ := h.exists_meaning (Nat.lt_trans older (h.output_lt member))
    exact ⟨f, denotes, known id (h.available split read) f denotes⟩
  choose! meaning operandDenotes operandValue using operands
  have output : network.Denotes layer.output (layer.kind.meaning (layer.inputs.map meaning)) := by
    refine .of_layer member ?_
    rw [List.forall₂_map_right_iff, List.forall₂_same]
    exact operandDenotes
  rw [Layer.compute_eq_ok_iff, ← value, denotes.unique h output]
  refine (meaning_eq (List.length_map _) fun k x f listed entry => ?_).symm
  rw [List.getElem?_map, listed] at entry
  cases entry
  exact operandValue x (List.mem_of_getElem? listed)

/-- Layers run if what their outputs stand for has a value, and then tensors have the values that they
stand for. -/
theorem Coherent.exists_runLayers (h : network.Coherent)
    (length : values.length = network.tensors.length)
    (inputs : ∀ (k : Nat) x, network.inputs[k]? = some x → values.get? x = given k)
    (defined : ∀ layer ∈ network.layers, ∃ f t, network.Denotes layer.output f ∧ f given = some t) :
    ∃ next, runLayers network.layers values = (next, .ok ()) ∧
      ∀ x f, network.Denotes x f → next.get? x = f given := by
  -- By induction on the layers that are left: what was computed before them has its value.
  have rest : ∀ before layers values, network.layers = before ++ layers →
      values.length = network.tensors.length →
      (∀ x, (x ∈ network.inputs ∨ ∃ earlier ∈ before, earlier.output = x) →
        ∀ f, network.Denotes x f → values.get? x = f given) →
      ∃ next, runLayers layers values = (next, .ok ()) ∧
        ∀ x, (x ∈ network.inputs ∨ ∃ layer ∈ network.layers, layer.output = x) →
          ∀ f, network.Denotes x f → next.get? x = f given := by
    intro before layers
    induction layers generalizing before with
    | nil =>
      intro values split _ known
      rw [List.append_nil] at split
      exact ⟨values, rfl, split ▸ known⟩
    | cons layer layers ih =>
      intro values split length known
      have member : layer ∈ network.layers := split ▸ List.mem_append_right _ List.mem_cons_self
      obtain ⟨f, t, denotes, value⟩ := defined layer member
      have computed := h.compute_eq_ok split known denotes value
      have stored : values.store layer.output t = .ok (values.set layer.output.index (some t)) :=
        Values.store_eq_ok_iff.mpr ⟨length ▸ h.output_lt member, rfl⟩
      obtain ⟨next, ran, all⟩ := ih (before ++ [layer]) (values.set layer.output.index (some t))
        (by rw [split, List.append_assoc]; rfl) (by rw [List.length_set, length]) (by
          intro x source g other
          rw [Values.get?_of_store stored]
          split
          next same =>
            subst same
            rw [← value, other.unique h denotes]
          next different =>
            refine known x (source.imp_right fun ⟨earlier, listed, same⟩ => ?_) g other
            rcases List.mem_append.mp listed with old | new
            · exact ⟨earlier, old, same⟩
            · exact absurd (List.mem_singleton.mp new ▸ same.symm) different)
      exact ⟨next, runLayers_cons_eq_ok_iff.mpr ⟨t, _, computed, stored, ran⟩, all⟩
  obtain ⟨next, ran, all⟩ := rest [] network.layers values rfl length (by
    rintro x (input | ⟨_, ⟨⟩, _⟩) f denotes
    obtain ⟨k, listed⟩ := List.mem_iff_getElem?.mp input
    rw [inputs k x listed, denotes.unique h (.input listed)])
  refine ⟨next, ran, fun x f denotes => all x ?_ f denotes⟩
  cases denotes with
  | input listed => exact .inl (List.mem_of_getElem? listed)
  | layer member => exact .inr ⟨_, member, rfl⟩

end Network

end TensorEngine
