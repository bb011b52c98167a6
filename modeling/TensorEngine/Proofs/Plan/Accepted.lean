import TensorEngine.Proofs.Json.Reading
import TensorEngine.Proofs.Plan.Loading

/-!
# Plans that are accepted

Engine bytes may come from anywhere, and need not have been written by a builder. What is read from
them is a plan whose numbers are words and whose constants are stored, whatever else is wrong with
it.

## Main results

* `EnginePlan.inWords_of_parse?`: a plan that is read from bytes has words for its numbers
* `EnginePlan.parse?_bytes_of_parse?`: written again, it is read as itself
-/

namespace TensorEngine

open Json

/-! ### Reading -/

theorem Tensor.yields_stored : Yields Tensor.ofJson? Tensor.Stored := by
  intro value t h
  simp only [Tensor.ofJson?, Option.bind_eq_bind, Option.bind_eq_some_iff] at h
  obtain ⟨fields, -, h⟩ := h
  split at h
  next dtype shape data =>
    simp only [Option.bind_eq_some_iff] at h
    obtain ⟨_, -, extents, read, bytes, -, built⟩ := h
    have accepted := toOption_eq_some_iff.mp built
    obtain ⟨-, rfl, rfl, rfl⟩ := ofBytes_eq_ok_iff.mp accepted
    exact ⟨yields_size.list.required read, accepted⟩
  next => cases h

theorem Dims.yields_inWords : Yields Dims.ofJson? Dims.InWords :=
  yields_int64.list

theorem TensorId.yields_inWords : Yields TensorId.ofJson? TensorId.InWords := by
  intro value id h
  obtain ⟨index, read, rfl⟩ := Option.map_eq_some_iff.mp h
  exact yields_size value index read

theorem ShuffleSpec.yields_inWords : Yields ShuffleSpec.ofJson? ShuffleSpec.InWords := by
  intro value spec h
  simp only [ShuffleSpec.ofJson?, Option.bind_eq_bind, Option.bind_eq_some_iff] at h
  obtain ⟨fields, -, h⟩ := h
  split at h
  next =>
    simp only [Option.bind_eq_some_iff] at h
    obtain ⟨_, first, _, target, _, second, same⟩ := h
    cases same
    exact ⟨yields_size.list.optional first, Dims.yields_inWords.optional target,
      yields_size.list.optional second⟩
  next => cases h

namespace LayerKind

private theorem stored_of_constantOfJson? {content : Json} {kind : LayerKind}
    (h : constantOfJson? content = some kind) : kind.InWords := by
  simp only [constantOfJson?, Option.bind_eq_bind, Option.bind_eq_some_iff] at h
  obtain ⟨fields, -, h⟩ := h
  split at h
  next =>
    obtain ⟨weights, read, same⟩ := Option.bind_eq_some_iff.mp h
    cases same
    exact Tensor.yields_stored.required read
  next => cases h

private theorem inWords_of_matrixMultiplyOfJson? {content : Json} {kind : LayerKind}
    (h : matrixMultiplyOfJson? content = some kind) : kind.InWords := by
  simp only [matrixMultiplyOfJson?, Option.bind_eq_bind, Option.bind_eq_some_iff] at h
  obtain ⟨fields, -, h⟩ := h
  split at h
  next =>
    simp only [Option.bind_eq_some_iff] at h
    obtain ⟨_, -, _, -, same⟩ := h
    cases same
    trivial
  next => cases h

theorem yields_inWords : Yields ofJson? InWords := by
  intro value kind h
  unfold ofJson? at h
  split at h
  next => exact stored_of_constantOfJson? h
  next =>
    obtain ⟨spec, read, rfl⟩ := Option.map_eq_some_iff.mp h
    exact ShuffleSpec.yields_inWords _ spec read
  next => exact inWords_of_matrixMultiplyOfJson? h
  next =>
    obtain ⟨op, -, rfl⟩ := Option.map_eq_some_iff.mp h
    trivial
  next => cases h

end LayerKind

theorem Layer.yields_inWords : Yields Layer.ofJson? Layer.InWords := by
  intro value layer h
  simp only [Layer.ofJson?, Option.bind_eq_bind, Option.bind_eq_some_iff] at h
  obtain ⟨fields, -, h⟩ := h
  split at h
  next =>
    simp only [Option.bind_eq_some_iff] at h
    obtain ⟨_, -, _, kind, _, inputs, _, output, same⟩ := h
    cases same
    exact ⟨LayerKind.yields_inWords.required kind, TensorId.yields_inWords.list.required inputs,
      TensorId.yields_inWords.required output⟩
  next => cases h

theorem NetworkTensor.yields_inWords :
    Yields NetworkTensor.ofJson? fun t => Dims.InWords t.dims := by
  intro value t h
  simp only [NetworkTensor.ofJson?, Option.bind_eq_bind, Option.bind_eq_some_iff] at h
  obtain ⟨fields, -, h⟩ := h
  split at h
  next =>
    simp only [Option.bind_eq_some_iff] at h
    obtain ⟨_, -, _, -, _, dims, same⟩ := h
    cases same
    exact Dims.yields_inWords.required dims
  next => cases h

theorem Network.yields_inWords : Yields Network.ofJson? Network.InWords := by
  intro value network h
  simp only [Network.ofJson?, Option.bind_eq_bind, Option.bind_eq_some_iff] at h
  obtain ⟨fields, -, h⟩ := h
  split at h
  next =>
    simp only [Option.bind_eq_some_iff] at h
    obtain ⟨_, tensors, _, layers, _, inputs, _, outputs, same⟩ := h
    cases same
    exact ⟨NetworkTensor.yields_inWords.list.required tensors,
      Layer.yields_inWords.list.required layers, TensorId.yields_inWords.list.required inputs,
      TensorId.yields_inWords.list.required outputs⟩
  next => cases h

theorem BindingSpec.yields_inWords :
    Yields BindingSpec.ofJson? fun spec => Dims.InWords spec.dims := by
  intro value spec h
  simp only [BindingSpec.ofJson?, Option.bind_eq_bind, Option.bind_eq_some_iff] at h
  obtain ⟨fields, -, h⟩ := h
  split at h
  next =>
    simp only [Option.bind_eq_some_iff] at h
    obtain ⟨_, -, _, -, _, -, _, dims, same⟩ := h
    cases same
    exact Dims.yields_inWords.required dims
  next => cases h

theorem PlanBinding.yields_inWords :
    Yields PlanBinding.ofJson? fun b => Dims.InWords b.spec.dims ∧ b.tensor.InWords := by
  intro value b h
  simp only [PlanBinding.ofJson?, Option.bind_eq_bind, Option.bind_eq_some_iff] at h
  obtain ⟨fields, -, h⟩ := h
  split at h
  next =>
    simp only [Option.bind_eq_some_iff] at h
    obtain ⟨_, spec, _, tensor, same⟩ := h
    cases same
    exact ⟨BindingSpec.yields_inWords.required spec, TensorId.yields_inWords.required tensor⟩
  next => cases h

namespace EnginePlan

theorem yields_inWords : Yields ofJson? InWords := by
  intro value plan h
  simp only [ofJson?, Option.bind_eq_bind, Option.bind_eq_some_iff] at h
  obtain ⟨fields, -, h⟩ := h
  split at h
  next =>
    simp only [Option.bind_eq_some_iff] at h
    obtain ⟨_, version, _, -, _, -, _, network, _, bindings, same⟩ := h
    cases same
    exact ⟨(yields_natBelow _).required version, Network.yields_inWords.required network,
      PlanBinding.yields_inWords.list.required bindings⟩
  next => cases h

/-- The numbers of a plan that bytes write are words, and its constants are stored. -/
theorem inWords_of_parse? {text : Bytes} {plan : EnginePlan} (h : parse? text = some plan) :
    plan.InWords := by
  obtain ⟨value, -, read⟩ := Option.bind_eq_some_iff.mp h
  exact yields_inWords value plan read

/-- A plan that some bytes write is read from its own engine bytes as well. -/
theorem parse?_bytes_of_parse? {text : Bytes} {plan : EnginePlan} (h : parse? text = some plan) :
    parse? plan.bytes = some plan :=
  parse?_bytes_eq_some_iff.mpr ⟨inWords_of_parse? h, rfl⟩

end EnginePlan

end TensorEngine
