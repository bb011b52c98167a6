import TensorEngine.Build.Builder
import TensorEngine.Proofs.Graph.Built
import TensorEngine.Proofs.Lowering.Contract
import TensorEngine.Proofs.Network.Known

/-!
# What builders are given

A builder states which ranks it can handle, and whether it can handle unknown extents. Ranks are looked up
in the network before it is given to the builder. Unknown extents are not: only the settings are asked
whether there may be any. If the settings say that there are none, a graph may still declare an input with
unknown extents, and the network that is lowered from it is given to a builder that cannot handle them.

## Main definitions

* `EngineBuilder.Handles`: networks within the limits of a builder

## Main results

* `networkFor_eq_ok_iff`: the network that a builder is given
* `given_network_is_handled_iff`: whether the builder can handle it
* `unknown_extents_are_given`: a builder that is given extents it cannot handle
-/

namespace TensorEngine

open Lowering

/-- The network is within the limits that the builder states: it has no tensor of a higher rank, and no
unknown extents if the builder cannot handle them. -/
structure EngineBuilder.Handles (builder : EngineBuilder) (network : Network) : Prop where
  ranks : ∀ t ∈ network.tensors, t.dims.rank ≤ builder.maxRank
  known : builder.supportsDynamicShapes = false → network.IsStatic

variable {table : RuleTable} {settings : Settings} {builder : EngineBuilder} {graph : Graph}
  {network : Network}

/-- A builder is given the network that a graph is lowered to, if it has no tensor of a higher rank than
the builder handles, and if the builder handles unknown extents should the settings allow them. -/
theorem networkFor_eq_ok_iff : networkFor table settings builder graph = .ok network ↔
    (settings.dynamicShape = true → builder.supportsDynamicShapes = true) ∧
      (∀ t ∈ network.tensors, t.dims.rank ≤ builder.maxRank) ∧
      ∃ lowered, lower table settings graph = .ok lowered ∧ lowered.network = network := by
  have ranks : ∀ network : Network,
      (network.tensors.find? fun t => builder.maxRank < t.dims.rank) = none ↔
        ∀ t ∈ network.tensors, t.dims.rank ≤ builder.maxRank := by
    intro network
    simp
  unfold networkFor
  by_cases refused : settings.dynamicShape && !builder.supportsDynamicShapes
  · rw [if_pos refused]
    refine iff_of_false nofun fun h => ?_
    simp only [Bool.and_eq_true, Bool.not_eq_true'] at refused
    rw [h.1 refused.1] at refused
    cases refused.2
  · have allowed : settings.dynamicShape = true → builder.supportsDynamicShapes = true := by
      simpa using refused
    rw [if_neg refused]
    constructor
    · intro h
      obtain ⟨lowered, lowers, checked⟩ := bind_eq_ok_iff.mp h
      split at checked
      next => cases checked
      next within =>
        cases checked
        exact ⟨allowed, (ranks _).mp within, lowered, mapError_eq_ok_iff.mp lowers, rfl⟩
    · rintro ⟨-, within, lowered, lowers, rfl⟩
      refine bind_eq_ok_iff.mpr ⟨lowered, mapError_eq_ok_iff.mpr lowers, ?_⟩
      rw [(ranks _).mpr within]
      rfl

/-- Whatever the rules and the settings are: the network that a builder is given has no tensor of a higher
rank than the builder handles. If the builder cannot handle unknown extents, the settings do not allow
any, but that does not keep them out of the network: it has none exactly if the extents of its inputs and
constants are known. Every declared input of the graph is one of these inputs. -/
theorem given_network_is_handled_iff (given : networkFor table settings builder graph = .ok network) :
    (∀ t ∈ network.tensors, t.dims.rank ≤ builder.maxRank) ∧
      (builder.supportsDynamicShapes = false → settings.dynamicShape = false) ∧
      (builder.Handles network ↔ builder.supportsDynamicShapes = true ∨ network.SourcesKnown) ∧
      (network.SourcesKnown → ∀ id ∈ graph.inputs, ∀ name dtype dims,
        graph.value id = .ok ⟨name, .input dtype dims⟩ → dims.isStatic) := by
  obtain ⟨allowed, ranks, lowered, lowers, rfl⟩ := networkFor_eq_ok_iff.mp given
  have coherent := (reached_of_lower lowers).coherent
  refine ⟨ranks, ?_, ?_, ?_⟩
  · intro unsupported
    cases dynamic : settings.dynamicShape with
    | false => rfl
    | true => exact absurd (allowed dynamic) (by simp [unsupported])
  · constructor
    · intro handles
      cases supported : builder.supportsDynamicShapes with
      | true => exact .inl rfl
      | false => exact .inr (coherent.isStatic_iff.mp (handles.known supported))
    · intro known
      refine ⟨ranks, fun unsupported => coherent.isStatic_iff.mpr (known.resolve_left ?_)⟩
      simp [unsupported]
  · intro sources id member name dtype dims declared
    have honours := ((lowering_honours_graph table settings graph).2.2 lowered lowers).2
    obtain ⟨place, listed⟩ := List.mem_iff_getElem?.mp member
    obtain ⟨name', dtype', dims', x, declared', input, record, -⟩ := honours.inputs place id listed
    cases declared.symm.trans declared'
    exact sources.inputs x (List.mem_of_getElem? input) _ record

/-- A graph that transposes a matrix with this number of rows. -/
def transposingCalls (rows : Int) : List Graph.Call :=
  [.addInput "x" .f32 [rows, 2], .addOp ⟨"aten::t(Tensor self) -> (Tensor)"⟩ [⟨0⟩] 1, .markOutput ⟨1⟩]

/-- The calls that build its network. -/
def transposingEdits (rows : Int) : List Network.Edit :=
  [.addInput "input_0" .f32 [rows, 2], .addShuffle "%1 = aten::t(%0)" ⟨0⟩ (.transposing [1, 0]),
    .markOutput ⟨1⟩ "output_0"]

/-- A builder that handles no unknown extents, and makes an engine without bytes of anything. -/
def staticBuilder : EngineBuilder :=
  .constant "static" false 8 (.ok [])

/-- Where the number of rows is known, the builder can handle the network that it is given. -/
theorem given_network_is_handled_iff_known :
    networkFor .builtin ⟨false, ⟨0, 8, 6⟩⟩ staticBuilder (.built (transposingCalls 3)) =
        .ok (.built (transposingEdits 3)) ∧
      staticBuilder.Handles (.built (transposingEdits 3)) := by
  have given : networkFor .builtin ⟨false, ⟨0, 8, 6⟩⟩ staticBuilder (.built (transposingCalls 3)) =
      .ok (.built (transposingEdits 3)) := by decide +kernel
  obtain ⟨-, -, iff, -⟩ := given_network_is_handled_iff given
  refine ⟨given, iff.mpr (.inr ⟨?_, ?_⟩)⟩
  · intro x input t record
    obtain rfl : x = ⟨0⟩ := List.mem_singleton.mp input
    cases record
    rfl
  · intro layer member weights constant
    rw [List.mem_singleton.mp (show layer ∈ [_] from member)] at constant
    cases constant

/-- Where it is unknown, the builder is given a network that it cannot handle, and makes an engine. -/
theorem unknown_extents_are_given :
    networkFor .builtin ⟨false, ⟨0, 8, 6⟩⟩ staticBuilder (.built (transposingCalls (-1))) =
        .ok (.built (transposingEdits (-1))) ∧
      ¬ staticBuilder.Handles (.built (transposingEdits (-1))) ∧
      compile .builtin ⟨false, ⟨0, 8, 6⟩⟩ staticBuilder .standard (.built (transposingCalls (-1))) =
        .ok ⟨⟨0, 8, 6⟩, []⟩ := by
  have given : networkFor .builtin ⟨false, ⟨0, 8, 6⟩⟩ staticBuilder (.built (transposingCalls (-1))) =
      .ok (.built (transposingEdits (-1))) := by decide +kernel
  refine ⟨given, ?_, ?_⟩
  · intro handles
    have known := handles.known rfl ⟨"input_0", .f32, [-1, 2]⟩ (by decide)
    cases known
  · exact bind_eq_ok_iff.mpr ⟨_, given, rfl⟩

end TensorEngine
