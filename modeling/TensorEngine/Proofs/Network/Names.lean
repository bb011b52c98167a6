import Mathlib.Data.List.Nodup
import TensorEngine.Proofs.Network.Growth

/-!
# Names of inputs and outputs

Inputs and outputs are known by their names. A name is looked up before an input or an output gets
it, but a layer's output gets its name unchecked, and an output is renamed long after it was added.
Names may clash, then, but never in front of an input or output: what is pushed later stands behind
it, and what is renamed gets a name that no tensor has.

## Main definitions

* `Network.Named`: inputs and outputs are found by their names
* `Network.WellFormed`: what holds of every network that calls build

## Main results

* `Network.Named.step`, `Network.Reached.named`: steps keep a network named, so that every network
  that is reached is
* `built_network_wellFormed`: calls that fail change nothing, and what the others build is
  well-formed
-/

namespace TensorEngine

namespace Network

variable {network next : Network} {e : Edit} {id : TensorId} {name : String}

/-! ### The first tensor of a name -/

theorem find?_eq_none_iff : network.find? name = none ↔ ∀ t ∈ network.tensors, t.name ≠ name := by
  simp [find?, List.findIdx?_eq_none_iff]

/-- A tensor is found by a name if it has the name and no tensor before it has. -/
theorem find?_eq_some_iff : network.find? name = some id ↔
    (∃ t, network.tensor id = .ok t ∧ t.name = name) ∧
      ∀ earlier < id.index, ∀ t, network.tensors[earlier]? = some t → t.name ≠ name := by
  simp only [find?, Option.map_eq_some_iff, List.findIdx?_eq_some_iff_getElem, beq_iff_eq,
    tensor_eq_ok_iff]
  constructor
  · rintro ⟨place, ⟨within, same, before⟩, rfl⟩
    refine ⟨⟨_, List.getElem?_eq_getElem within, same⟩, fun earlier below t entry => ?_⟩
    obtain ⟨_, rfl⟩ := List.getElem?_eq_some_iff.mp entry
    exact before earlier below
  · rintro ⟨⟨t, entry, same⟩, before⟩
    obtain ⟨within, rfl⟩ := List.getElem?_eq_some_iff.mp entry
    refine ⟨id.index, ⟨within, same, fun earlier below => ?_⟩, rfl⟩
    exact before earlier below _ (List.getElem?_eq_getElem (Nat.lt_trans below within))

theorem find?_push (found : network.find? name = some id) (t : NetworkTensor) :
    (network.push t).find? name = some id := by
  obtain ⟨place, first, rfl⟩ := Option.map_eq_some_iff.mp found
  simp [find?, push, List.findIdx?_append, first]

theorem find?_push_self {t : NetworkTensor} (fresh : network.find? t.name = none) :
    (network.push t).find? t.name = some network.nextId := by
  have absent := Option.map_eq_none_iff.mp fresh
  simp [find?, push, nextId, List.findIdx?_append, absent]

/-- A rename away from the tensor, and not to its name, leaves it first. -/
theorem find?_rename_of_ne {renamed : TensorId} {new : String} (found : network.find? name = some id)
    (other : id ≠ renamed) (different : new ≠ name) :
    (network.rename renamed new).find? name = some id := by
  obtain ⟨⟨t, known, same⟩, before⟩ := find?_eq_some_iff.mp found
  refine find?_eq_some_iff.mpr ⟨⟨t, tensor_rename_of_ne new other known, same⟩, ?_⟩
  -- The renamed tensor may well stand before this one, but it has another name now.
  intro earlier below t entry
  simp only [rename, List.getElem?_modify, Option.map_eq_map, Option.map_eq_some_iff] at entry
  obtain ⟨old, entry, rfl⟩ := entry
  split
  next => exact different
  next => exact before earlier below old entry

/-- A tensor renamed to a name that no tensor has is found by it. -/
theorem find?_rename_self (known : id.index < network.tensors.length)
    (fresh : network.find? name = none) : (network.rename id name).find? name = some id := by
  rw [find?_eq_none_iff] at fresh
  refine find?_eq_some_iff.mpr ⟨⟨_, tensor_rename_self known name, rfl⟩, ?_⟩
  intro earlier below t entry
  simp only [rename, List.getElem?_modify, Nat.ne_of_gt below, if_false, id_map'] at entry
  exact fresh t (List.mem_of_getElem? entry)

/-! ### Named networks -/

/-- Every input and output is the first tensor of its name. -/
def Named (network : Network) : Prop :=
  ∀ id ∈ network.inputs ++ network.outputs,
    ∃ t, network.tensor id = .ok t ∧ network.find? t.name = some id

namespace Named

theorem empty : Network.empty.Named := by
  simp [Named, Network.empty]

theorem push (h : network.Named) (t : NetworkTensor) {id : TensorId}
    (member : id ∈ network.inputs ++ network.outputs) :
    ∃ record, (network.push t).tensor id = .ok record ∧
      (network.push t).find? record.name = some id := by
  obtain ⟨record, known, found⟩ := h id member
  exact ⟨record, tensor_push known, find?_push found t⟩

/-- A step keeps a network named. -/
theorem step (h : network.Named) (taken : network.Step e id next) : next.Named := by
  cases taken with
  | @input name dtype dims fresh =>
    intro id member
    -- The new input is found because its name was free, an older one because what is pushed stands
    -- behind it.
    by_cases new : id = network.nextId
    · subst new
      refine ⟨⟨name, dtype, dims⟩, ?_, find?_push_self fresh⟩
      exact tensor_eq_ok_iff.mpr List.getElem?_concat_length
    · refine h.push ⟨name, dtype, dims⟩ ?_
      simpa [Network.push, new] using member
  | layer adds known infers => exact fun id member => h.push _ member
  | @output id name known unmarked fresh =>
    intro other member
    by_cases new : other = id
    · subst new
      exact ⟨_, tensor_rename_self known name, find?_rename_self known fresh⟩
    · have old : other ∈ network.inputs ++ network.outputs := by
        simpa [rename, new] using member
      obtain ⟨t, recorded, found⟩ := h other old
      -- The new name is nobody's, so it is not the name of this tensor either.
      have different : name ≠ t.name := fun same =>
        find?_eq_none_iff.mp fresh t (List.mem_of_getElem? (tensor_eq_ok_iff.mp recorded)) same.symm
      exact ⟨t, tensor_rename_of_ne name new recorded, find?_rename_of_ne found new different⟩

/-- Inputs and outputs that have one name are one tensor. -/
theorem eq_of_name_eq (h : network.Named) {a b : TensorId} {s t : NetworkTensor}
    (markedA : a ∈ network.inputs ++ network.outputs)
    (markedB : b ∈ network.inputs ++ network.outputs) (knownA : network.tensor a = .ok s)
    (knownB : network.tensor b = .ok t) (same : s.name = t.name) : a = b := by
  obtain ⟨_, knownA', foundA⟩ := h a markedA
  obtain ⟨_, knownB', foundB⟩ := h b markedB
  cases knownA.symm.trans knownA'
  cases knownB.symm.trans knownB'
  exact Option.some.inj (foundA.symm.trans (same ▸ foundB))

end Named

theorem Reached.named {allowed : Edit → Prop} (h : Reached allowed network) : network.Named := by
  induction h with
  | empty => exact .empty
  | step _ _ taken ih => exact ih.step taken

/-! ### Well-formed networks -/

/-- What holds of every network that calls build. -/
structure WellFormed (network : Network) : Prop where
  /-- A layer reads tensors that are older than its output. -/
  older : ∀ layer ∈ network.layers, ∀ id ∈ layer.inputs, id.index < layer.output.index
  /-- The outputs of layers ascend along their list. -/
  ascending : network.layers.Pairwise fun a b => a.output.index < b.output.index
  /-- A tensor is an input or the output of one layer, and not both. -/
  source : ∀ id : TensorId, id.index < network.tensors.length →
    network.inputs.count id + network.layers.countP (·.output = id) = 1
  /-- The type of a layer's output is inferred from the types of its operands. -/
  typed : ∀ layer ∈ network.layers, ∃ operands type,
    List.Forall₂ (fun id type => network.types[id.index]? = some type) layer.inputs operands ∧
      layer.kind.Infers operands type ∧ network.types[layer.output.index]? = some type
  /-- No tensor is an input or output twice. -/
  distinct : (network.inputs ++ network.outputs).Nodup
  /-- Inputs and outputs are found by their names. -/
  named : ∀ id ∈ network.inputs ++ network.outputs,
    ∃ t, network.tensor id = .ok t ∧ network.find? t.name = some id
  /-- Inputs and outputs have names of their own. -/
  names : (network.inputs ++ network.outputs).Pairwise fun a b =>
    ∀ s t, network.tensor a = .ok s → network.tensor b = .ok t → s.name ≠ t.name

/-- A tensor of a coherent network has one source. -/
theorem Coherent.source_count (h : network.Coherent) (within : id.index < network.tensors.length) :
    network.inputs.count id + network.layers.countP (·.output = id) = 1 := by
  have countP : network.layers.countP (·.output = id) = (network.layers.map Layer.output).count id :=
    by simp [List.count, List.countP_map, Function.comp_def, beq_eq_decide]
  have outputs : (network.layers.map Layer.output).Nodup := by
    refine List.pairwise_map.mpr (h.ascending.imp fun {a b} below same => ?_)
    exact Nat.ne_of_lt below (congrArg TensorId.index same)
  rw [countP]
  -- Inputs and outputs of layers are apart, so that one of the two counts is one and the other
  -- zero.
  rcases h.source id within with input | ⟨layer, member, rfl⟩
  · have notOutput : id ∉ network.layers.map Layer.output := fun listed => by
      obtain ⟨layer, member, rfl⟩ := List.mem_map.mp listed
      exact h.apart layer member input
    rw [List.count_eq_one_of_mem (List.nodup_append.mp h.distinct).1 input,
      List.count_eq_zero_of_not_mem notOutput]
  · rw [List.count_eq_zero_of_not_mem (h.apart layer member),
      List.count_eq_one_of_mem outputs (List.mem_map_of_mem member)]

theorem Reached.wellFormed {allowed : Edit → Prop} (h : Reached allowed network) :
    network.WellFormed where
  older layer member := (h.coherent.layers layer member).older
  ascending := h.coherent.ascending
  source _ := h.coherent.source_count
  typed layer member := (h.coherent.layers layer member).typed
  distinct := h.coherent.distinct
  named := h.named
  names := h.coherent.distinct.imp_of_mem fun markedA markedB different _ _ knownA knownB same =>
    different (h.named.eq_of_name_eq markedA markedB knownA knownB same)

theorem built_append (before later : List Edit) :
    built (before ++ later) = later.foldl after (built before) :=
  List.foldl_append

end Network

open Network in
/-- Whatever the calls are, one that fails leaves the network as it was, as if it had not been made, and
what they build is well-formed. -/
theorem built_network_wellFormed (edits : List Edit) :
    (∀ before e later error, edits = before ++ e :: later → (built before).apply e = .error error →
      (built before).call e = (.error error, built before) ∧
        (built before).after e = built before ∧ built edits = built (before ++ later)) ∧
      (built edits).WellFormed := by
  have reached : Reached (fun _ => True) (built edits) := .of_built fun _ _ => trivial
  refine ⟨?_, reached.wellFormed⟩
  intro before e later error split failed
  have unchanged := apply_eq_error_iff.mp failed
  have kept : (built before).after e = built before := congrArg Prod.snd unchanged
  refine ⟨unchanged, kept, ?_⟩
  rw [split, built_append, built_append, List.foldl_cons, kept]

/-- The output of a layer may get the name of an input, which is still found by it. -/
example : ((Network.built [.addInput "sum:out" .f32 [2], .addInput "x" .f32 [2],
    .addElementWise "sum" ⟨0⟩ ⟨1⟩ .sum, .markOutput ⟨2⟩ "x"]).find? "sum:out") = some ⟨0⟩ := by
  decide

end TensorEngine
