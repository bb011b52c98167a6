import TensorEngine.Proofs.Network.Arrangement
import TensorEngine.Proofs.Plan.Built

/-!
# Plans of rearranged networks

The limits of the builder are limits on types and kinds of layers, and bindings are sorted by names. A
network therefore has a plan if a rearrangement of it has one, and both plans have the same bindings but
for the ids of outputs.

## Main definitions

* `PlanBinding.Matches`: bindings that are the same but for ids

## Main results

* `forall₂_sorted`: lists that are compared alike stay related when they are sorted
* `Network.Rearranged.exists_ofNetwork`: a rearranged network has a plan with the same bindings
-/

namespace TensorEngine

/-- Lists whose entries are compared alike stay related when they are sorted. -/
theorem forall₂_sorted {α β : Type} {R : α → β → Prop} {le : α → α → Bool} {le' : β → β → Bool}
    (alike : ∀ a b a' b', R a a' → R b b' → le' a' b' = le a b) {xs : List α} {ys : List β}
    (h : List.Forall₂ R xs ys) : List.Forall₂ R (sorted le xs) (sorted le' ys) := by
  have inserted : ∀ {a a' xs ys}, R a a' → List.Forall₂ R xs ys →
      List.Forall₂ R (insertSorted le a xs) (insertSorted le' a' ys) := by
    intro a a' xs ys related h
    induction h with
    | nil => exact .cons related .nil
    | cons first rest ih =>
      simp only [insertSorted, alike _ _ _ _ related first]
      split
      · exact .cons related (.cons first rest)
      · exact .cons first ih
  induction h with
  | nil => exact .nil
  | cons first _ ih => exact inserted first ih

/-- Bindings that are the same, but for the id of an output. -/
structure PlanBinding.Matches (network network' : Network) (b b' : PlanBinding) : Prop where
  spec : b'.spec = b.spec
  input : b.spec.isInput = true → b'.tensor = b.tensor
  output : b.spec.isInput = false → network.Matches network' b.tensor b'.tensor

theorem PlanBinding.Matches.symm {network network' : Network} {b b' : PlanBinding}
    (h : b.Matches network network' b') : b'.Matches network' network b where
  spec := h.spec.symm
  input isInput := (h.input (h.spec ▸ isInput)).symm
  output isOutput := (h.output (h.spec ▸ isOutput)).symm

variable {network network' : Network} {config : BuildConfig} {capability : Capability}

/-- Tensors that are recorded alike are bound alike. -/
theorem exists_planBindings {R : TensorId → TensorId → Prop} {isInput : Bool} {xs ys : List TensorId}
    {bs : List PlanBinding}
    (alike : List.Forall₂ (fun x y => R x y ∧ network'.tensor y = network.tensor x) xs ys)
    (bound : List.Forall₂ (fun x b => planBinding network isInput x = .ok b) xs bs) :
    ∃ bs', List.Forall₂ (fun y b => planBinding network' isInput y = .ok b) ys bs' ∧
      List.Forall₂ (fun b b' => b.spec.isInput = isInput ∧ b'.spec = b.spec ∧
        R b.tensor b'.tensor) bs bs' := by
  induction alike generalizing bs with
  | nil =>
    cases bound
    exact ⟨[], .nil, .nil⟩
  | @cons x y xs ys first _ ih =>
    obtain ⟨b, rest, bind, later, rfl⟩ := List.forall₂_cons_left_iff.mp bound
    obtain ⟨rest', binds', matched⟩ := ih later
    obtain ⟨related, record⟩ := first
    obtain ⟨t, known, named⟩ := bind_eq_ok_iff.mp bind
    obtain ⟨k, index, same⟩ := bind_eq_ok_iff.mp named
    cases same
    have known' : builtTensor network' y = .ok t := by rwa [builtTensor, record]
    have bind' : planBinding network' isInput y = .ok ⟨⟨⟨t.name⟩, isInput, t.dtype, t.dims⟩, y⟩ :=
      bind_eq_ok_iff.mpr ⟨t, known', bind_eq_ok_iff.mpr ⟨k, index, rfl⟩⟩
    exact ⟨_ :: rest', .cons bind' binds', .cons ⟨rfl, rfl, related⟩ matched⟩

/-- Constants take the same space in any order of layers. -/
theorem checkWorkspace_eq (h : network.Rearranged network') :
    checkWorkspace network' config = checkWorkspace network config := by
  obtain ⟨layers, perm, matched⟩ := h.layers
  have commutes : LeftCommutative fun (layer : Layer) total => layer.constantBytes + total :=
    ⟨fun a b total => Nat.add_left_comm ..⟩
  have reordered : ∀ total, layers.foldr (fun layer total => layer.constantBytes + total) total =
      network.layers.foldr (fun layer total => layer.constantBytes + total) total :=
    perm.foldr_eq
  have same : ∀ {xs ys : List Layer}, List.Forall₂ (fun a b => b.kind = a.kind) xs ys →
      ys.foldr (fun layer total => layer.constantBytes + total) 0 =
        xs.foldr (fun layer total => layer.constantBytes + total) 0 := by
    intro xs ys kinds
    induction kinds with
    | nil => rfl
    | cons first _ ih =>
      rw [List.foldr_cons, List.foldr_cons, ih, Layer.constantBytes, Layer.constantBytes, first]
  rw [checkWorkspace, checkWorkspace, same (matched.imp fun _ _ both => both.kind), reordered]

/-- A layer that matches one within the limits is within them. -/
theorem Layer.Matches.withinLimits {layer layer' : Layer} (h : layer.Matches network network' layer')
    (within : layer.WithinLimits network config) : layer'.WithinLimits network' config := by
  obtain ⟨output, known, rank, accepted⟩ := within
  obtain ⟨type, left, right⟩ := h.output.type
  cases (Network.types_getElem?_of_tensor known).symm.trans left
  obtain ⟨output', known', same⟩ := Network.exists_tensor_of_types right
  obtain ⟨dtype, dims⟩ : output'.dtype = output.dtype ∧ output'.dims = output.dims :=
    TensorType.mk.inj same
  have computes : layer'.computes = layer.computes := by rw [computes, computes, h.kind]
  exact ⟨output', known', dims ▸ rank, fun here => dtype ▸ accepted (computes ▸ here)⟩

/-- A rearranged network has a plan if the network has one, with bindings that match. -/
theorem Network.Rearranged.exists_ofNetwork (h : network.Rearranged network') {plan : EnginePlan}
    (planned : EnginePlan.ofNetwork network config capability = .ok plan) :
    ∃ plan', EnginePlan.ofNetwork network' config capability = .ok plan' ∧
      List.Forall₂ (PlanBinding.Matches network network') plan.bindings plan'.bindings := by
  obtain ⟨nonempty, layers, workspace, inputs, outputs, bindInputs, bindOutputs, rfl⟩ :=
    EnginePlan.ofNetwork_eq_ok_iff.mp planned
  have layers' : checkLayers network' config network'.layers = .ok () := by
    refine checkLayers_eq_ok_iff.mpr fun layer' member => ?_
    obtain ⟨layer, listed, matched⟩ := h.exists_layer member
    exact matched.withinLimits (checkLayers_eq_ok_iff.mp layers layer listed)
  have nonempty' : network'.outputs.isEmpty = false := by
    rw [List.isEmpty_eq_false_iff, ← List.length_pos_iff] at nonempty ⊢
    rwa [← List.Forall₂.length_eq h.outputs]
  have same : List.Forall₂ (fun x y => x = y ∧ network'.tensor y = network.tensor x) network.inputs
      network'.inputs := by
    rw [h.inputs, List.forall₂_same]
    exact fun x input => ⟨rfl, h.records x input⟩
  obtain ⟨inputs', bindInputs', matched⟩ := exists_planBindings same (mapM_eq_ok_iff.mp bindInputs)
  obtain ⟨outputs', bindOutputs', matched'⟩ :=
    exists_planBindings h.outputs (mapM_eq_ok_iff.mp bindOutputs)
  refine ⟨_, EnginePlan.ofNetwork_eq_ok_iff.mpr ⟨nonempty', layers', ?_, inputs', outputs',
    mapM_eq_ok_iff.mpr bindInputs', mapM_eq_ok_iff.mpr bindOutputs', rfl⟩, ?_⟩
  · rw [checkWorkspace_eq h, workspace]
  · refine forall₂_sorted (fun a b a' b' first second => by rw [first.spec, second.spec]) ?_
    refine List.rel_append (matched.imp fun b b' both => ?_) (matched'.imp fun b b' both => ?_)
    · obtain ⟨isInput, spec, tensor⟩ := both
      exact ⟨spec, fun _ => tensor.symm, fun isOutput => by simp [isInput] at isOutput⟩
    · obtain ⟨isOutput, spec, tensors⟩ := both
      exact ⟨spec, fun isInput => by simp [isOutput] at isInput, fun _ => tensors⟩

end TensorEngine
