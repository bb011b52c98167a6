import TensorEngine.Engine.Basic

/-!
# Engine tables and workers

Engines that are shared by a process are registered in a table under ids that are never used again.
A worker owns one engine and answers requests one after the other until it is closed.

## Main definitions

* `EngineTable`, `EngineTable.load`: registered engines
* `Worker`, `Worker.answer`: workers and their answers
-/

namespace TensorEngine

/-- The id of a registered engine. -/
abbrev EngineId := Nat

/-- Registered engines in the order of their ids. -/
structure EngineTable where
  entries : List (EngineId × Engine)
  nextId : EngineId

namespace EngineTable

/-- The table without engines. -/
def empty : EngineTable :=
  ⟨[], 0⟩

/-- The number of engines. -/
def size (table : EngineTable) : Nat :=
  table.entries.length

/-- The engine with an id. -/
def get? (table : EngineTable) (id : EngineId) : Option Engine :=
  table.entries.lookup id

/-- The first engine with this name, or with the name of an engine of this module. -/
def find? (table : EngineTable) (name : String) : Option (EngineId × Engine) :=
  table.entries.find? fun (_, engine) => engine.name == name || engine.name == Engine.nameOf name

/-- Registers an engine. -/
def insert (table : EngineTable) (engine : Engine) : EngineId × EngineTable :=
  (table.nextId, ⟨table.entries ++ [(table.nextId, engine)], table.nextId + 1⟩)

/-- The table without the engine of an id. -/
def erase (table : EngineTable) (id : EngineId) : EngineTable :=
  { table with entries := table.entries.filter (·.1 != id) }

variable {σ : Type} [DeviceDriver σ]

/-- Restores and registers an engine. A failure leaves the table as it was. -/
def load (table : EngineTable) (driver : σ) (backend : Backend) (moduleName : String)
    (payload : EnginePayload) : σ × EngineTable × Except EngineError EngineId :=
  match Engine.restore driver backend moduleName payload with
  | (driver, .error e) => (driver, table, .error e)
  | (driver, .ok engine) =>
    let (id, table) := table.insert engine
    (driver, table, .ok id)

end EngineTable

/-- A worker and the engine it owns. -/
structure Worker where
  engine : Engine
  closed : Bool

namespace Worker

/-- A worker that has just been given its engine. -/
def start (engine : Engine) : Worker :=
  ⟨engine, false⟩

/-- The worker after it was stopped. -/
def close (worker : Worker) : Worker :=
  { worker with closed := true }

/-- The answer to a request. -/
def answer (worker : Worker) (inputs : List Tensor) : Except EngineError (List Tensor) :=
  if worker.closed then .error .workerClosed else worker.engine.execute inputs

end Worker

end TensorEngine
