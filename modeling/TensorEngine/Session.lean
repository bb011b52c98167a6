import TensorEngine.Device.List
import TensorEngine.Engine.Table
import TensorEngine.Sorting

/-!
# Sessions

A session works with a driver and a backend. It keeps payloads, engines and workers under names,
a table of registered engines under keys, and a list of devices. Commands are carried out one after
the other; one that fails leaves the session as it was, except that the driver keeps a device that
was selected on the way.

## Main definitions

* `Session`, `Session.Command`, `Session.Answer`: sessions, commands and answers
* `Session.step`: the effect of a command
-/

namespace TensorEngine

/-- Values under names; a name that is used again replaces its value. -/
abbrev Names (α : Type) := List (String × α)

namespace Names

variable {α : Type}

/-- The value under a name. -/
def find? (names : Names α) (name : String) : Option α :=
  names.lookup name

/-- The names without one of them. -/
def erase (names : Names α) (name : String) : Names α :=
  names.filter (·.1 != name)

/-- Puts a value under a name. -/
def put (names : Names α) (name : String) (value : α) : Names α :=
  names.erase name ++ [(name, value)]

/-- The first name of a value. -/
def nameOf? [BEq α] (names : Names α) (value : α) : Option String :=
  (List.find? (fun entry => entry.2 == value) names).map (·.1)

end Names

/-- What a compilation needs besides the rules of the library. -/
structure CompileRequest where
  graph : Graph
  settings : Lowering.Settings
  builder : EngineBuilder
  config : BuildConfig

/-- The engine of a request. -/
def CompileRequest.run (request : CompileRequest) : Except CompileError EngineArtifact :=
  compile .builtin request.settings request.builder request.config request.graph

/-- Which parts of a payload an engine is restored from. -/
inductive RestoreForm
  /-- Both parts, under a module name. -/
  | named (moduleName : String)
  /-- Both parts. -/
  | parts
  /-- The engine alone. -/
  | engineOnly
  deriving DecidableEq, Repr

namespace RestoreForm

/-- The name that an engine is restored under. -/
def moduleName : RestoreForm → String
  | .named name => name
  | .parts | .engineOnly => Engine.restoredName

/-- The parts that are used. -/
def select (form : RestoreForm) (payload : EnginePayload) : EnginePayload :=
  match form with
  | .named _ | .parts => payload
  | .engineOnly => .bare payload.engine

end RestoreForm

/-- The state of a session; `σ` is the state of its driver. -/
structure Session (σ : Type) where
  backend : Backend
  driver : σ
  payloads : Names EnginePayload
  engines : Names Engine
  table : EngineTable
  /-- The keys of registered engines. -/
  keys : Names EngineId
  workers : Names Worker
  devices : DeviceList

namespace Session

/-- What a session can be told. -/
inductive Command
  | compile (payload : String) (request : CompileRequest)
  | store (payload : String) (content : EnginePayload)
  /-- Keeps the engine of another payload alone. -/
  | strip (payload source : String)
  /-- Keeps the engine of another payload with a new device record. -/
  | readdress (payload source : String) (device : DeviceDescriptor)
  | load (engine : String) (form : RestoreForm) (payload : String)
  | info (engine : String)
  | execute (engine : String) (inputs : List Tensor)
  | persist (engine payload : String)
  | drop (engine : String)
  | register (key moduleName payload : String)
  | registered (key : String)
  | findRegistered (name : String)
  | unregister (key : String)
  | registeredKeys
  | executeRegistered (key : String) (inputs : List Tensor)
  | persistRegistered (key payload : String)
  | spawn (engine worker : String)
  | request (worker : String) (requests : List (List Tensor))
  | abort (worker : String)
  | active
  | select (id : Int32)
  | count
  | properties (id : Int32)
  | supports (device : DeviceDescriptor) (builtFor : Capability)
  | switches
  | enumerate
  | insertDevice (id : Int32) (device : DeviceDescriptor)
  | findDevice (id : Int32)
  | deviceSupports (id : Int32) (builtFor : Capability)
  | devices
  | deviceText

/-- A registered engine: its key, if it has one, its name, and the number of its inputs and
outputs. -/
structure Entry where
  key : Option String
  name : String
  counts : Nat × Nat
  deriving DecidableEq, Repr

/-- What a session answers. -/
inductive Answer
  | nothing
  | flag (value : Bool)
  | number (value : Int)
  | optionalNumber (value : Option Nat)
  | text (value : String)
  | device (device : DeviceDescriptor)
  | artifact (device : DeviceDescriptor) (length : Nat)
  | engine (engine : Engine)
  | tensors (tensors : List Tensor)
  /-- A persisted engine, and whether its engine bytes were stored before. -/
  | persisted (payload : EnginePayload) (known : Bool)
  | entry (entry : Option Entry)
  | keys (keys : List String) (count : Nat)
  | spawned (name : String)
  | responses (answers : List (Except EngineError (List Tensor)))
  | devices (devices : List DeviceDescriptor)

/-- Why a command fails. -/
inductive Failure
  | unknownPayload
  | unknownEngine
  | unknownWorker
  | compile (error : CompileError)
  | engine (error : EngineError)
  | device (error : DeviceError)
  deriving DecidableEq, Repr

variable {σ : Type} [DeviceDriver σ]

/-- A session that knows nothing yet. -/
def start (driver : σ) (backend : Backend) : Session σ where
  backend := backend
  driver := driver
  payloads := []
  engines := []
  table := .empty
  keys := []
  workers := []
  devices := .empty

/-- The payload under a name. -/
def payload (session : Session σ) (name : String) : Except Failure EnginePayload :=
  match session.payloads.find? name with
  | some content => .ok content
  | none => .error .unknownPayload

/-- The engine under a name. -/
def engine (session : Session σ) (name : String) : Except Failure Engine :=
  match session.engines.find? name with
  | some found => .ok found
  | none => .error .unknownEngine

/-- The worker under a name. -/
def worker (session : Session σ) (name : String) : Except Failure Worker :=
  match session.workers.find? name with
  | some found => .ok found
  | none => .error .unknownWorker

/-- The registered engine under a key. -/
def registeredEngine (session : Session σ) (key : String) : Option (EngineId × Engine) :=
  (session.keys.find? key).bind fun id => (session.table.get? id).map (id, ·)

/-- The registered engine under a key, when there has to be one. -/
def requireRegistered (session : Session σ) (key : String) : Except Failure Engine :=
  match session.registeredEngine key with
  | some (_, found) => .ok found
  | none => .error .unknownEngine

/-- A registered engine as it is answered. -/
def entryOf (session : Session σ) (id : EngineId) (engine : Engine) : Entry :=
  ⟨session.keys.nameOf? id, engine.name, engine.counts⟩

/-- Stores a payload. -/
def withPayload (session : Session σ) (name : String) (content : EnginePayload) : Session σ :=
  { session with payloads := session.payloads.put name content }

/-- The engine bytes of a payload are stored already. -/
def knows (session : Session σ) (content : EnginePayload) : Bool :=
  session.payloads.any fun (_, other) => other.engine == content.engine

/-- Restores an engine under a name. -/
def load (session : Session σ) (name : String) (form : RestoreForm) (content : EnginePayload) :
    Session σ × Except Failure Answer :=
  match Engine.restore session.driver session.backend form.moduleName (form.select content) with
  | (driver, .error e) => ({ session with driver := driver }, .error (.engine e))
  | (driver, .ok found) =>
    ({ session with driver := driver, engines := session.engines.put name found },
      .ok (.engine found))

/-- Restores an engine and registers it under a key. -/
def register (session : Session σ) (key moduleName : String) (content : EnginePayload) :
    Session σ × Except Failure Answer :=
  match session.table.load session.driver session.backend moduleName content with
  | (driver, table, .error e) =>
    -- The device that was selected on the way stays the active one.
    ({ session with driver := driver, table := table }, .error (.engine e))
  | (driver, table, .ok id) =>
    -- A key that is used again no longer leads to its earlier engine, which stays in the table.
    let session :=
      { session with driver := driver, table := table, keys := session.keys.put key id }
    (session, .ok (.entry ((session.table.get? id).map (session.entryOf id))))

/-- The session after a command that changes it only if it succeeds. -/
def settle (session : Session σ) :
    Except Failure (Session σ × Answer) → Session σ × Except Failure Answer
  | .ok (session, answer) => (session, .ok answer)
  | .error e => (session, .error e)

/-- The effect of a command, and its answer. -/
def step (session : Session σ) : Command → Session σ × Except Failure Answer
  | .compile name request => session.settle do
    let artifact ← request.run.mapError .compile
    return (session.withPayload name artifact.toPayload,
      .artifact artifact.device artifact.engine.length)
  | .store name content => (session.withPayload name content, .ok .nothing)
  | .strip name source => session.settle do
    let content ← session.payload source
    return (session.withPayload name (.bare content.engine), .nothing)
  | .readdress name source device => session.settle do
    let content ← session.payload source
    return (session.withPayload name ⟨device.encode, content.engine⟩, .nothing)
  | .load name form source =>
    match session.payload source with
    | .error e => (session, .error e)
    | .ok content => session.load name form content
  | .info name => session.settle do
    let found ← session.engine name
    return (session, .engine found)
  | .execute name inputs => session.settle do
    let found ← session.engine name
    let outputs ← (found.execute inputs).mapError .engine
    return (session, .tensors outputs)
  | .persist name target => session.settle do
    let found ← session.engine name
    let content ← found.toPayload.mapError .engine
    return (session.withPayload target content, .persisted content (session.knows content))
  | .drop name =>
    ({ session with engines := session.engines.erase name },
      .ok (.flag (session.engines.find? name).isSome))
  | .register key moduleName source =>
    match session.payload source with
    | .error e => (session, .error e)
    | .ok content => session.register key moduleName content
  | .registered key =>
    (session, .ok (.entry ((session.registeredEngine key).map fun (id, found) =>
      session.entryOf id found)))
  | .findRegistered name =>
    (session, .ok (.entry ((session.table.find? name).map fun (id, found) =>
      session.entryOf id found)))
  | .unregister key =>
    match session.registeredEngine key with
    | none => (session, .ok (.entry none))
    | some (id, found) =>
      ({ session with table := session.table.erase id, keys := session.keys.erase key },
        .ok (.entry (some (session.entryOf id found))))
  | .registeredKeys =>
    let keys := session.table.entries.filterMap fun (id, _) => session.keys.nameOf? id
    (session, .ok (.keys (sorted (· ≤ ·) keys) session.table.size))
  | .executeRegistered key inputs => session.settle do
    let found ← session.requireRegistered key
    let outputs ← (found.execute inputs).mapError .engine
    return (session, .tensors outputs)
  | .persistRegistered key target => session.settle do
    let found ← session.requireRegistered key
    let content ← found.toPayload.mapError .engine
    return (session.withPayload target content, .persisted content (session.knows content))
  | .spawn name target => session.settle do
    let found ← session.engine name
    return ({ session with
      engines := session.engines.erase name
      workers := session.workers.put target (.start found) }, .spawned found.name)
  | .request name requests => session.settle do
    let found ← session.worker name
    return (session, .responses (requests.map found.answer))
  | .abort name => session.settle do
    let found ← session.worker name
    return ({ session with workers := session.workers.put name found.close }, .nothing)
  | .active => session.settle do
    let device ← (DeviceDriver.active session.driver).mapError .device
    return (session, .device device)
  | .select id => session.settle do
    let driver ← (DeviceDriver.select session.driver id).mapError .device
    return ({ session with driver := driver }, .nothing)
  | .count => session.settle do
    let count ← (DeviceDriver.count session.driver).mapError .device
    return (session, .number count.toInt)
  | .properties id => session.settle do
    let device ← (DeviceDriver.properties session.driver id).mapError .device
    return (session, .device device)
  | .supports device builtFor => (session, .ok (.flag (device.capability.canRun builtFor)))
  | .switches => (session, .ok (.optionalNumber (DeviceDriver.switches session.driver)))
  | .enumerate =>
    let devices := DeviceList.enumerate session.driver
    ({ session with devices := devices }, .ok (.number devices.size))
  | .insertDevice id device =>
    let devices := session.devices.insert id device
    ({ session with devices := devices }, .ok (.number devices.size))
  | .findDevice id => session.settle do
    let device ← (session.devices.find id).mapError .device
    return (session, .device device)
  | .deviceSupports id builtFor => session.settle do
    let answer ← (session.devices.supports id builtFor).mapError .device
    return (session, .flag answer)
  | .devices => (session, .ok (.devices session.devices.devices))
  | .deviceText => (session, .ok (.text session.devices.text))

end Session

end TensorEngine
