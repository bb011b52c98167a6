import TensorEngine.Graph.Basic

/-!
# Orders of execution

The nodes of a graph in an order in which every node follows the producers of the values it uses.
Nodes are taken from a queue: first those that wait for nothing, in the order of their creation,
then each as soon as the last producer it waits for has been taken.

Before that the graph is checked: no value has two producers, every id that is used is defined,
every declared input is one, and every tensor that is used has a producer.

## Main definitions

* `Graph.producers`, `Graph.edges`: who computes a value, and who waits for whom
* `Graph.order`: the order of execution
-/

namespace TensorEngine.Graph

/-- The producers of values, earliest node first: pairs of a value and the position of a node. -/
abbrev Producers := List (ValueId × Nat)

/-- Records the outputs of the node at `position`. -/
def addProducers (graph : Graph) (position : Nat) (producers : Producers) :
    List ValueId → Except GraphError Producers
  | [] => .ok producers
  | id :: rest => do
    let _ ← graph.value id
    if (producers.lookup id).isSome then throw (.multipleProducers id)
    addProducers graph position (producers ++ [(id, position)]) rest

/-- The producers of all values; `position` is that of the first node. -/
def producersFrom (graph : Graph) (position : Nat) (producers : Producers) :
    List Node → Except GraphError Producers
  | [] => .ok producers
  | node :: rest => do
    let producers ← graph.addProducers position producers node.outputs
    producersFrom graph (position + 1) producers rest

/-- The producers of all values. -/
def producers (graph : Graph) : Except GraphError Producers :=
  graph.producersFrom 0 [] graph.nodes

/-- Every declared input is an input value. -/
def checkInputs (graph : Graph) : List ValueId → Except GraphError Unit
  | [] => .ok ()
  | id :: rest => do
    let value ← graph.value id
    match value.kind with
    | .input _ _ => checkInputs graph rest
    | .tensor | .constant _ => throw (.notAnInput id)

/-- The producer that the user of a value waits for, if any. -/
def producerOf (graph : Graph) (producers : Producers) (user : String) (id : ValueId) :
    Except GraphError (Option Nat) := do
  let value ← graph.value id
  match producers.lookup id, value.kind with
  | some position, _ => return some position
  | none, .tensor => throw (.undefined id user)
  | none, .input _ _ | none, .constant _ => return none

/-- One entry for each use of a produced value: the producer and the user. -/
def edgesFrom (graph : Graph) (producers : Producers) (position : Nat) :
    List Node → Except GraphError (List (Nat × Nat))
  | [] => .ok []
  | node :: rest => do
    let sources ← node.inputs.mapM (graph.producerOf producers node.describe)
    let edges ← edgesFrom graph producers (position + 1) rest
    return sources.reduceOption.map (·, position) ++ edges

/-- Who waits for whom, in the order of the users. -/
def edges (graph : Graph) (producers : Producers) : Except GraphError (List (Nat × Nat)) :=
  graph.edgesFrom producers 0 graph.nodes

/-- Every output is defined and has a producer if it needs one. -/
def checkOutputs (graph : Graph) (producers : Producers) : List ValueId → Except GraphError Unit
  | [] => .ok ()
  | id :: rest => do
    let _ ← graph.producerOf producers "graph outputs" id
    checkOutputs graph producers rest

/-- Nodes that wait for nothing any more, how many producers each node waits for, and the nodes
taken so far, last first. -/
structure Schedule where
  ready : List Nat
  waiting : List Nat
  taken : List Nat
  deriving DecidableEq, Repr

/-- The users of a node, once for each use. -/
def users (edges : List (Nat × Nat)) (position : Nat) : List Nat :=
  (edges.filter (·.1 == position)).map (·.2)

/-- Tells each of the users that a producer was taken. -/
def Schedule.release (schedule : Schedule) : List Nat → Except GraphError Schedule
  | [] => .ok schedule
  | user :: rest => do
    let count ← entry schedule.waiting user
    let left ← Unsigned.sub count 1
    let schedule :=
      { schedule with
        waiting := schedule.waiting.set user left
        -- The last producer it waited for was taken: the user joins the end of the queue.
        ready := if left = 0 then schedule.ready ++ [user] else schedule.ready }
    Schedule.release schedule rest

/-- Takes at most `fuel` nodes. -/
def Schedule.run (edges : List (Nat × Nat)) : (fuel : Nat) → Schedule → Except GraphError Schedule
  | 0, schedule => .ok schedule
  | fuel + 1, schedule =>
    match schedule.ready with
    | [] => .ok schedule
    | position :: ready => do
      let next := { schedule with ready := ready, taken := position :: schedule.taken }
      let next ← next.release (users edges position)
      Schedule.run edges fuel next

/-- The schedule before any node is taken. -/
def Schedule.start (edges : List (Nat × Nat)) (count : Nat) : Schedule :=
  let waiting := (List.range count).map fun position => edges.countP (·.2 == position)
  { ready := (List.range count).filter fun position => edges.countP (·.2 == position) == 0
    waiting := waiting
    taken := [] }

/-- The positions of the nodes in an order of execution. No node is taken twice, so as many steps
as there are nodes suffice. -/
def order (graph : Graph) : Except GraphError (List Nat) := do
  -- The first check that fails is reported; cycles are looked for last.
  let producers ← graph.producers
  graph.checkInputs graph.inputs
  let edges ← graph.edges producers
  graph.checkOutputs producers graph.outputs
  let count := graph.nodes.length
  let schedule ← (Schedule.start edges count).run edges count
  -- A node that was never taken lies on a cycle or waits for one.
  if schedule.taken.length = count then return schedule.taken.reverse
  else throw (.cycle (count - schedule.taken.length))

end TensorEngine.Graph
