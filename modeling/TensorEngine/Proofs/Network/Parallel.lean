import TensorEngine.Binding
import TensorEngine.Proofs.Execution.Meanings
import TensorEngine.Proofs.Network.Calls
import TensorEngine.Proofs.Network.Names

/-!
# Networks that grow in parallel

Two networks are built on by the same calls over tensors that match. Each call adds a layer of one kind
to both, under ids of their own, and what the layers compute matches again. Outputs are marked under the
same names, which a network that gives such names to outputs only has not given before.

## Main definitions

* `Network.Plain`: names of outputs are those of outputs only
* `Network.Parallel`: networks that have grown in parallel

## Main results

* `Network.Parallel.call`: layers are added to both networks, or to none
* `Network.Parallel.call_markOutput`: outputs are marked in both networks, or in none
-/

namespace TensorEngine

namespace BindingName

/-- The name of a layer's output is not that of an output of the graph. -/
theorem append_out_ne_output (name : String) (k : Nat) : name ++ ":out" ≠ (output k).text := by
  -- The one ends with a letter and the other with a digit.
  intro same
  have digits : Nat.toDigits 10 k ≠ [] :=
    List.ne_nil_of_length_pos (Nat.length_toDigits_pos (b := 10))
  have last := congrArg (fun text : String => text.toList.getLast?) same
  simp only [output, toList_labelled, String.toList_append, List.getLast?_append, List.getLast?_cons,
    List.getLast?_eq_some_getLast digits] at last
  have letter : 't' = (Nat.toDigits 10 k).getLast digits := by simpa using last
  have digit := isDigit_of_mem_toDigits (List.getLast_mem digits)
  rw [← letter] at digit
  exact absurd digit (by decide)

theorem input_ne_output (j k : Nat) : (input j).text ≠ (output k).text := by
  intro same
  have first := congrArg (fun text : String => text.toList.head?) same
  simp [input, output, toList_labelled] at first

end BindingName

namespace Network

variable {network next network' : Network} {e e' : Edit} {x y : TensorId} {kind : LayerKind}

/-! ### Names of outputs -/

/-- Names of outputs are those of outputs only. -/
def Plain (network : Network) : Prop :=
  ∀ x record k, network.tensor x = .ok record → record.name = (BindingName.output k).text →
    x ∈ network.outputs

namespace Plain

theorem empty : Network.empty.Plain := by
  intro x record k known
  simp [tensor_eq_ok_iff, Network.empty] at known

theorem push (h : network.Plain) {t : NetworkTensor}
    (other : ∀ k, t.name ≠ (BindingName.output k).text) {record : NetworkTensor} {k : Nat}
    (known : (network.push t).tensor x = .ok record)
    (named : record.name = (BindingName.output k).text) : x ∈ network.outputs := by
  rw [tensor_eq_ok_iff, Network.push] at known
  by_cases within : x.index < network.tensors.length
  · rw [List.getElem?_append_left within] at known
    exact h x record k (tensor_eq_ok_iff.mpr known) named
  · rw [List.getElem?_append_right (Nat.not_lt.mp within)] at known
    have same := List.mem_singleton.mp (List.mem_of_getElem? known)
    exact absurd (same ▸ named) (other k)

/-- A step that adds no input under the name of an output keeps a network plain. -/
theorem step (h : network.Plain) (taken : network.Step e x next)
    (input : ∀ name dtype dims, e = .addInput name dtype dims →
      ∀ k, name ≠ (BindingName.output k).text) : next.Plain := by
  cases taken with
  | input fresh => exact fun x record k known => h.push (input _ _ _ rfl) known
  | layer adds known infers =>
    exact fun x record k known => h.push (BindingName.append_out_ne_output _) known
  | @output _ name known unmarked fresh =>
    intro y record k recorded named
    by_cases marked : y = x
    · exact marked ▸ List.mem_append_right _ List.mem_cons_self
    · refine List.mem_append_left _ (h y record k ?_ named)
      have within : y.index < network.tensors.length := by
        simpa [rename] using (List.getElem?_eq_some_iff.mp (tensor_eq_ok_iff.mp recorded)).1
      have before : network.tensor y = .ok network.tensors[y.index] :=
        tensor_eq_ok_iff.mpr (List.getElem?_eq_getElem within)
      exact Except.ok.inj ((tensor_rename_of_ne name marked before).symm.trans recorded) ▸ before

end Plain

/-! ### Growing in parallel -/

/-- Networks that have grown in parallel from two others. They have more layers that match and no more
inputs, and outputs that `exports` relates are recorded alike. -/
structure Parallel (base base' : Network) (exports : TensorId → TensorId → Prop)
    (network network' : Network) : Prop where
  grows : base.Grows network
  grows' : base'.Grows network'
  count : base'.tensors.length + network.tensors.length =
    base.tensors.length + network'.tensors.length
  layers : Appended (Layer.Matches network network') base.layers network.layers base'.layers
    network'.layers
  inputs : network.inputs = base.inputs
  inputs' : network'.inputs = base'.inputs
  outputs : List.Forall₂ (fun x y => exports x y ∧ network.Matches network' x y ∧
    ∃ record, network.tensor x = .ok record ∧ network'.tensor y = .ok record)
    network.outputs network'.outputs
  plain : network'.Plain

namespace Parallel

variable {base base' : Network} {exports : TensorId → TensorId → Prop} {next' : Network}

theorem refl (outputs : base.outputs = []) (outputs' : base'.outputs = []) (plain : base'.Plain) :
    Parallel base base' exports base base' where
  grows := .refl _
  grows' := .refl _
  count := Nat.add_comm ..
  layers := .refl ..
  inputs := rfl
  inputs' := rfl
  outputs := by
    rw [outputs, outputs']
    exact .nil
  plain := plain

/-- Outputs that are recorded alike stay so when the networks grow. -/
theorem outputs_grow (h : Parallel base base' exports network network') (grows : network.Grows next)
    (grows' : network'.Grows next') :
    List.Forall₂ (fun x y => exports x y ∧ next.Matches next' x y ∧
      ∃ record, next.tensor x = .ok record ∧ next'.tensor y = .ok record)
      network.outputs network'.outputs := by
  refine (forall₂_and_mem h.outputs).imp ?_
  rintro x y ⟨⟨exported, matched, record, known, known'⟩, listed, listed'⟩
  refine ⟨exported, matched.grows grows grows', record, ?_, ?_⟩
  · exact grows.records x (List.mem_append_right _ listed) record known
  · exact grows'.records y (List.mem_append_right _ listed') record known'

/-- Operands that match have the same types. -/
theorem operandTypes {xs ys : List TensorId} {types : List TensorType}
    (matched : List.Forall₂ (network.Matches network') xs ys)
    (known : network.OperandTypes xs types) : network'.OperandTypes ys types := by
  induction matched generalizing types with
  | nil =>
    cases known
    exact .nil
  | cons first _ ih =>
    obtain ⟨type, rest, found, later, rfl⟩ := List.forall₂_cons_left_iff.mp known
    obtain ⟨type', left, right⟩ := first.type
    cases left.symm.trans found
    exact .cons right (ih later)

/-- A call that adds a layer is accepted on both sides over operands that match, and its output
matches. -/
theorem call (h : Parallel base base' exports network network') (adds : e.kind? = some kind)
    (adds' : e'.kind? = some kind)
    (operands : List.Forall₂ (network.Matches network') e.inputs e'.inputs)
    (accepted : network.call e = (.ok x, next)) :
    x = network.nextId ∧ ∃ next', network'.call e' = (.ok network'.nextId, next') ∧
      Parallel base base' exports next next' ∧ next.Matches next' network.nextId network'.nextId := by
  obtain ⟨types, type, known, infers, rfl, rfl⟩ := (call_eq_ok_iff adds).mp accepted
  have accepted' :=
    (call_eq_ok_iff adds').mpr ⟨types, type, operandTypes operands known, infers, rfl, rfl⟩
  have taken' := step_of_call accepted'
  have grows := (step_of_call accepted).grows
  have grows' := taken'.grows
  have layer : (⟨e.name, kind, e.inputs, network.nextId⟩ : Layer) ∈
      (network.pushLayer e.name kind e.inputs type.dtype type.dims).2.layers :=
    List.mem_append_right _ List.mem_cons_self
  have layer' : (⟨e'.name, kind, e'.inputs, network'.nextId⟩ : Layer) ∈
      (network'.pushLayer e'.name kind e'.inputs type.dtype type.dims).2.layers :=
    List.mem_append_right _ List.mem_cons_self
  have matched : (network.pushLayer e.name kind e.inputs type.dtype type.dims).2.Matches
      (network'.pushLayer e'.name kind e'.inputs type.dtype type.dims).2 network.nextId
      network'.nextId := by
    refine ⟨Matches.meaning_of_layer layer layer' rfl
      (operands.imp fun _ _ matched => matched.grows grows grows'), type, ?_, ?_⟩ <;>
      simp [pushLayer, push, Network.types, nextId, NetworkTensor.type]
  refine ⟨rfl, _, accepted', ⟨h.grows.trans grows, h.grows'.trans grows', ?_, ?_, h.inputs, h.inputs',
    h.outputs_grow grows grows', ?_⟩, matched⟩
  · have count := h.count
    simp only [pushLayer, push, List.length_append, List.length_singleton]
    omega
  · exact (h.layers.imp fun _ _ matched => matched.grows grows grows').concat ⟨rfl, matched⟩
  · refine h.plain.step taken' ?_
    rintro name dtype dims rfl
    cases adds'

/-- A name of an output that is free in the first network is free in the second. -/
theorem find?_output (h : Parallel base base' exports network network') {k : Nat}
    (fresh : network.find? (BindingName.output k).text = none) :
    network'.find? (BindingName.output k).text = none := by
  rw [find?_eq_none_iff] at fresh ⊢
  intro t member named
  obtain ⟨place, entry⟩ := List.mem_iff_getElem?.mp member
  -- Who has the name is an output, and so has the output that is recorded alike.
  have marked := h.plain ⟨place⟩ t k (tensor_eq_ok_iff.mpr entry) named
  obtain ⟨x, -, -, -, record, known, known'⟩ := forall₂_mem_right h.outputs marked
  cases (tensor_eq_ok_iff.mpr entry).symm.trans known'
  exact fresh t (List.mem_of_getElem? (tensor_eq_ok_iff.mp known)) named

theorem tensor_rename_of_types (name : String) {type : TensorType}
    (typed : network.types[x.index]? = some type) :
    x.index < network.tensors.length ∧
      (network.rename x name).tensor x = .ok ⟨name, type.dtype, type.dims⟩ := by
  obtain ⟨t, known, rfl⟩ := exists_tensor_of_types typed
  obtain ⟨within, same⟩ := List.getElem?_eq_some_iff.mp (tensor_eq_ok_iff.mp known)
  refine ⟨within, ?_⟩
  rw [tensor_rename_self within name, same]
  rfl

/-- An output is marked on both sides if tensors that match are marked alike. -/
theorem call_markOutput (h : Parallel base base' exports network network') {k : Nat} {z : TensorId}
    (matched : network.Matches network' x y) (exported : exports x y)
    (alike : network'.isMarked y = network.isMarked x)
    (accepted : network.call (.markOutput x (BindingName.output k).text) = (.ok z, next)) :
    ∃ next', network'.call (.markOutput y (BindingName.output k).text) = (.ok y, next') ∧
      Parallel base base' exports next next' := by
  have taken := step_of_call accepted
  obtain ⟨-, unmarked, fresh, rfl, rfl⟩ := call_markOutput_eq_ok_iff.mp accepted
  obtain ⟨type, typed, typed'⟩ := matched.type
  have record := tensor_rename_of_types (BindingName.output k).text typed
  have record' := tensor_rename_of_types (BindingName.output k).text typed'
  have accepted' := call_markOutput_eq_ok_iff.mpr
    ⟨record'.1, alike.trans unmarked, h.find?_output fresh, rfl, rfl⟩
  have taken' := step_of_call accepted'
  refine ⟨_, accepted', h.grows.trans taken.grows, h.grows'.trans taken'.grows, ?_,
    h.layers.imp fun _ _ matched => matched.grows taken.grows taken'.grows, h.inputs, h.inputs', ?_,
    h.plain.step taken' nofun⟩
  · have count := h.count
    simpa [rename] using count
  · refine List.rel_append (h.outputs_grow taken.grows taken'.grows) (.cons ?_ .nil)
    exact ⟨exported, matched.grows taken.grows taken'.grows, _, record.2, record'.2⟩

end Parallel

end Network

end TensorEngine
