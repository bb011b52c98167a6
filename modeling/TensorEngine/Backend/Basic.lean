import TensorEngine.Backend.Error
import TensorEngine.Build.Artifact
import TensorEngine.Execution.Plan
import TensorEngine.Plan.Validity

/-!
# Backends

A backend loads engine bytes and executes what it has loaded. It is used in stages, each of which
may fail: a runtime is started, the bytes are loaded, and an execution is prepared.

## Main definitions

* `LoadedEngine`, `Backend`: what a backend offers
* `referenceBackend`: the backend whose engines are plans
* `loopbackBackend`: a backend that hands its inputs back
-/

namespace TensorEngine

/-- Engine bytes as a backend has loaded them. -/
structure LoadedEngine where
  /-- The number of slots. -/
  slotCount : Nat
  /-- What is bound to a slot. -/
  binding? : Nat → Option BindingSpec
  /-- The capability it was built for, if the format records one. -/
  builtFor : Option Capability
  /-- The engine bytes. -/
  serialize : Except BackendError Bytes
  /-- Prepares executions. -/
  prepare : Except BackendError Unit
  /-- The slots after an execution, and whether it succeeded. -/
  execute : Slots → Slots × Except BackendError Unit

/-- What loads engines. -/
structure Backend where
  /-- Starts a runtime. -/
  start : Except BackendError Unit
  /-- Loads engine bytes. -/
  load : Bytes → Except BackendError LoadedEngine

/-- A plan, loaded from its engine bytes. -/
def LoadedEngine.ofPlan (plan : EnginePlan) (engine : Bytes) : LoadedEngine where
  slotCount := plan.bindings.length
  binding? slot := (plan.bindings[slot]?).map (·.spec)
  builtFor := some plan.builtFor
  serialize := .ok engine
  prepare := .ok ()
  execute slots :=
    let (slots, result) := plan.execute slots
    (slots, result.mapError .execution)

/-- The backend whose engines are plans. -/
def referenceBackend : Backend where
  start := .ok ()
  load engine := ((EnginePlan.load engine).mapError .deserialize).map (.ofPlan · engine)

/-- A backend that loads any bytes and gives the slots the bindings it was told. -/
structure Loopback where
  bindings : List BindingSpec
  /-- The number of slots that it reports. -/
  slotCount : Nat
  builtFor : Option Capability
  /-- The reasons for which its stages fail. -/
  startFailure : Option String
  loadFailure : Option String
  contextFailure : Option String
  executeFailure : Option String
  serializeFailure : Option String
  deriving DecidableEq, Repr

/-- A stage that fails if there is a reason. -/
def failing (error : String → BackendError) : Option String → Except BackendError Unit
  | none => .ok ()
  | some reason => .error (error reason)

namespace Loopback

/-- The logical index of a binding, if its name has one. -/
def index? (spec : BindingSpec) : Option Nat :=
  spec.name.logicalIndex.toOption

/-- The slot of the first input with the logical index of an output. -/
def source? (loopback : Loopback) (output : BindingSpec) : Option Nat :=
  loopback.bindings.findIdx? fun spec => spec.isInput && index? spec == index? output

/-- The slots with every output filled from the input it belongs to. -/
def copy (loopback : Loopback) (slots : Slots) : Slots :=
  slots.zipIdx.map fun (content, slot) =>
    match loopback.bindings[slot]? with
    | some spec =>
      if spec.isInput then content
      -- Names without an index belong together, too.
      else (loopback.source? spec).bind fun source => slots[source]?.join
    | none => content

/-- The engine that is loaded from any bytes. -/
def loaded (loopback : Loopback) (engine : Bytes) : LoadedEngine where
  slotCount := loopback.slotCount
  binding? slot := loopback.bindings[slot]?
  builtFor := loopback.builtFor
  serialize := (failing .context loopback.serializeFailure).map fun _ => engine
  prepare := failing .context loopback.contextFailure
  execute slots :=
    match failing (fun reason => .execution (.other reason)) loopback.executeFailure with
    | .ok () => (loopback.copy slots, .ok ())
    | .error e => (slots, .error e)

end Loopback

/-- The backend that a loopback is. -/
def loopbackBackend (loopback : Loopback) : Backend where
  start := failing (fun reason => .deserialize (.other reason)) loopback.startFailure
  load engine :=
    (failing (fun reason => .deserialize (.other reason)) loopback.loadFailure).map fun _ =>
      loopback.loaded engine

end TensorEngine
