import TensorEngine.File.Graph
import TensorEngine.Proofs.Graph.Built
import TensorEngine.Proofs.Tensor.Layout

/-!
# Definitions in graph files

The inputs, the constants and the outputs of the nodes of a file are its definitions, in this order. Adding
them one after the other makes a graph with one value for each, and a scope in which every name stands for
the value at its place among the definitions. It succeeds as long as the names are new and the values of
the constants fit their shapes.

## Main definitions

* `TensorRecord.Fits`: tensors whose values fit their shape
* `GraphFile.Definition`, `GraphFile.definitions`: what the names of a file stand for
* `GraphFile.Scope.Covers`: scopes after some names were defined
* `GraphFile.Adds`: graphs and scopes after some definitions were added

## Main results

* `GraphFile.exists_constantOf_iff`: which constants fit
* `GraphFile.addInputs_eq`, `GraphFile.addConstants_eq`, `GraphFile.declareAll_eq`: adding definitions
* `GraphFile.Adds.step`, `GraphFile.Adds.run`: one more definition, and all of them
* `GraphFile.Adds.exists_run_iff`: when definitions can be added
-/

namespace TensorEngine

/-! ### Constants -/

/-- There is a value for every position of the shape, and the number of their bytes can be computed. -/
structure TensorRecord.Fits (record : TensorRecord) : Prop where
  count : record.values.length = record.shape.size
  bytes : (Unsigned.product? 4 record.shape).isSome

namespace TensorRecord

variable {record : TensorRecord}

theorem exists_toTensor_iff : (∃ t, record.toTensor = .ok t) ↔ record.Fits := by
  constructor
  · intro ⟨t, made⟩
    obtain ⟨⟨bytes, count⟩, -⟩ := Tensor.ofFloats_eq_ok_iff.mp made
    exact ⟨count, bytes⟩
  · intro fits
    exact Tensor.exists_ofFloats fits.bytes fits.count

/-- Where no extent is zero, the number of values decides. -/
theorem fits_iff (extents : 0 ∉ record.shape) (words : 4 * record.values.length < Unsigned.bound) :
    record.Fits ↔ record.values.length = record.shape.size := by
  constructor
  · exact Fits.count
  · intro count
    have positive : 0 < record.shape.size :=
      Shape.size_pos_iff.mpr fun n member => Nat.pos_of_ne_zero fun zero => extents (zero ▸ member)
    exact ⟨count, Unsigned.isSome_product? positive (count ▸ words)⟩

end TensorRecord

namespace GraphFile

/-- The values of a tensor fit its shape; every other constant fits. -/
def ConstantFits (entry : ConstantEntry) : Prop :=
  ∀ record, entry.form = .tensor record → record.Fits

theorem exists_constantOf_iff {entry : ConstantEntry} :
    (∃ constant, constantOf entry = .ok constant) ↔ ConstantFits entry := by
  rcases entry with ⟨name, form⟩
  cases form with
  | tensor record =>
    have made : (∃ constant, constantOf ⟨name, .tensor record⟩ = .ok constant) ↔ record.Fits := by
      rw [← TensorRecord.exists_toTensor_iff]
      simp [constantOf, mapError_eq_ok_iff, map_eq_ok_iff]
    simpa [ConstantFits] using made
  | none | bool | int | double | ints => simp [ConstantFits, constantOf]

/-! ### Definitions -/

/-- A place of a file that defines a name. -/
inductive Definition
  | input (entry : InputEntry)
  | constant (entry : ConstantEntry)
  | output (name : String)

namespace Definition

/-- The name that is defined. -/
def name : Definition → String
  | input entry => entry.name
  | constant entry => entry.name
  | output name => name

/-- The value that a definition gives to an id. -/
def Gives (id : ValueId) : Definition → Value → Prop
  | input entry, value => value = ⟨entry.name, .input entry.dtype entry.dims⟩
  | constant entry, value => ∃ c, constantOf entry = .ok c ∧ value = ⟨id.text, .constant c⟩
  | output _, value => value = ⟨id.text, .tensor⟩

/-- Inputs and outputs fit, and constants do if their values fit. -/
def Fits : Definition → Prop
  | constant entry => ConstantFits entry
  | input _ | output _ => True

/-- The input that is defined. -/
def input? : Definition → Option InputEntry
  | input entry => some entry
  | constant _ | output _ => none

/-- Adds the value of a definition. -/
def add (graph : Graph) : Definition → Except GraphFileError (ValueId × Graph)
  | input entry => .ok (graph.addInput entry.name entry.dtype entry.dims)
  | constant entry => (constantOf entry).map graph.addConstant
  | output _ => .ok graph.declare

theorem add_eq_ok_iff {d : Definition} {graph : Graph} {added : ValueId × Graph} :
    d.add graph = .ok added ↔ ∃ value, d.Gives graph.nextId value ∧ added = (graph.nextId,
      { graph with
        values := graph.values ++ [value]
        inputs := graph.inputs ++ d.input?.toList.map fun _ => graph.nextId }) := by
  cases d with
  | input entry => simp [add, Gives, input?, Graph.addInput, Graph.pushNamed, eq_comm]
  | constant entry =>
    simp only [add, map_eq_ok_iff]
    constructor
    · rintro ⟨c, given, rfl⟩
      exact ⟨_, ⟨c, given, rfl⟩, by simp [Graph.addConstant, Graph.push, Graph.pushNamed, input?]⟩
    · rintro ⟨_, ⟨c, given, rfl⟩, rfl⟩
      exact ⟨c, given, by simp [Graph.addConstant, Graph.push, Graph.pushNamed, input?]⟩
  | output name => simp [add, Gives, input?, Graph.declare, Graph.push, Graph.pushNamed, eq_comm]

theorem exists_gives_iff {d : Definition} (id : ValueId) : (∃ value, d.Gives id value) ↔ d.Fits := by
  cases d with
  | constant entry => simp [Gives, Fits, ← exists_constantOf_iff, exists_comm]
  | input | output => simp [Gives, Fits]

end Definition

/-- The definitions of a file: its inputs, its constants, and the outputs of its nodes. -/
def definitions (file : GraphFile) : List Definition :=
  file.inputs.map .input ++ file.constants.map .constant ++
    (file.nodes.flatMap (·.outputs)).map .output

/-- The names that a file defines. -/
def names (file : GraphFile) : List String :=
  file.definitions.map Definition.name

theorem getElem?_concat_eq_some_iff {α : Type} {xs : List α} {x y : α} {k : Nat} :
    (xs ++ [x])[k]? = some y ↔ xs[k]? = some y ∨ k = xs.length ∧ x = y := by
  rw [List.getElem?_append]
  by_cases old : k < xs.length
  · simp [old, Nat.ne_of_lt old]
  · rw [if_neg old, List.getElem?_eq_none (Nat.not_lt.mp old), List.getElem?_singleton]
    grind

/-! ### Scopes -/

namespace Scope

/-- The names were defined one after the other, each once. -/
structure Covers (scope : Scope) (names : List String) : Prop where
  distinct : names.Nodup
  lookup : ∀ name id, scope.lookup name = some id ↔ names[id.index]? = some name

namespace Covers

variable {scope scope' : Scope} {names : List String} {name : String} {id : ValueId}

theorem empty : Covers [] [] :=
  ⟨List.nodup_nil, by simp⟩

theorem lookup_eq_none_iff (h : Covers scope names) : scope.lookup name = none ↔ name ∉ names := by
  rw [Option.eq_none_iff_forall_ne_some, List.mem_iff_getElem?]
  simp only [ne_eq, h.lookup, not_exists]
  exact ⟨fun absent k => absent ⟨k⟩, fun absent id => absent id.index⟩

theorem define_eq_ok_iff (h : Covers scope names) :
    define scope name id = .ok scope' ↔ name ∉ names ∧ scope' = (name, id) :: scope := by
  rw [← h.lookup_eq_none_iff, define]
  split
  next known => simp [known]
  next unknown => simp [unknown, eq_comm]

theorem resolve_eq_ok_iff (h : Covers scope names) :
    resolve scope name = .ok id ↔ names[id.index]? = some name := by
  rw [← h.lookup, resolve]
  split
  next known => simp [known]
  next unknown => simp [unknown]

/-- One more name stands for the next id. -/
theorem cons (h : Covers scope names) (fresh : name ∉ names) :
    Covers ((name, ⟨names.length⟩) :: scope) (names ++ [name]) where
  distinct := by simpa using h.distinct.concat fresh
  lookup := by
    intro other id
    rw [getElem?_concat_eq_some_iff]
    by_cases same : other = name
    · -- The name is new, so it stands at no earlier place.
      have absent : names[id.index]? ≠ some name := fun place => fresh (List.mem_of_getElem? place)
      cases id
      simp_all [eq_comm]
    · rw [List.lookup_cons, beq_false_of_ne same, h.lookup]
      simp [Ne.symm same]

end Covers

end Scope

/-! ### Adding definitions

Inputs, constants and declared outputs are added by three passes. Each of them adds definitions, so the
passes are one fold over all definitions of a file. -/

/-- Adds the value of a definition and defines its name. -/
def addDefinition (built : Graph × Scope) (d : Definition) : Except GraphFileError (Graph × Scope) := do
  let (id, graph) ← d.add built.1
  let scope ← define built.2 d.name id
  return (graph, scope)

theorem addInputs_eq (built : Graph × Scope) (entries : List InputEntry) :
    addInputs built entries = (entries.map .input).foldlM addDefinition built := by
  induction entries generalizing built with
  | nil => rfl
  | cons entry entries ih =>
    simp only [addInputs, List.map_cons, List.foldlM_cons, ih, addDefinition, Definition.add,
      Definition.name, ok_bind, bind_assoc, pure_bind]

theorem addConstants_eq (built : Graph × Scope) (entries : List ConstantEntry) :
    addConstants built entries = (entries.map .constant).foldlM addDefinition built := by
  induction entries generalizing built with
  | nil => rfl
  | cons entry entries ih =>
    simp only [addConstants, List.map_cons, List.foldlM_cons, ih, addDefinition, Definition.add,
      Definition.name]
    cases constantOf entry with
    | error e => rfl
    | ok c => simp only [Except.map, ok_bind, bind_assoc, pure_bind]

theorem declareAll_eq (built : Graph × Scope) (names : List String) :
    declareAll built names = (names.map .output).foldlM addDefinition built := by
  induction names generalizing built with
  | nil => rfl
  | cons name names ih =>
    simp only [declareAll, List.map_cons, List.foldlM_cons, ih, addDefinition, Definition.add,
      Definition.name, ok_bind, bind_assoc, pure_bind]

/-- The definitions were added one after the other, and nothing else. -/
structure Adds (ds : List Definition) (built : Graph × Scope) : Prop where
  scope : Scope.Covers built.2 (ds.map Definition.name)
  count : built.1.values.length = ds.length
  values : ∀ id d, ds[id.index]? = some d → ∃ value, built.1.value id = .ok value ∧ d.Gives id value
  inputs : List.Forall₂ (fun entry id => ds[id.index]? = some (.input entry))
    (ds.filterMap Definition.input?) built.1.inputs
  nodes : built.1.nodes = []
  outputs : built.1.outputs = []

namespace Adds

variable {ds : List Definition} {d : Definition} {built built' : Graph × Scope}

theorem empty : Adds [] (.empty, []) :=
  ⟨.empty, rfl, by simp, .nil, rfl, rfl⟩

theorem nextId_eq (h : Adds ds built) : built.1.nextId = ⟨ds.length⟩ :=
  congrArg ValueId.mk h.count

/-- The name is new, and the value is that of the definition. -/
theorem addDefinition_eq_ok_iff (h : Adds ds built) :
    addDefinition built d = .ok built' ↔ d.name ∉ ds.map Definition.name ∧
      ∃ value, d.Gives ⟨ds.length⟩ value ∧ built' =
        ({ built.1 with
          values := built.1.values ++ [value]
          inputs := built.1.inputs ++ d.input?.toList.map fun _ => ⟨ds.length⟩ },
        (d.name, ⟨ds.length⟩) :: built.2) := by
  simp only [addDefinition, bind_eq_ok_iff, Definition.add_eq_ok_iff, h.scope.define_eq_ok_iff,
    h.nextId_eq]
  constructor
  · rintro ⟨_, ⟨value, gives, rfl⟩, _, ⟨fresh, rfl⟩, eq⟩
    exact ⟨fresh, value, gives, (Except.ok.inj eq).symm⟩
  · rintro ⟨fresh, value, gives, rfl⟩
    exact ⟨_, ⟨value, gives, rfl⟩, _, ⟨fresh, rfl⟩, rfl⟩

theorem exists_addDefinition_iff (h : Adds ds built) :
    (∃ built', addDefinition built d = .ok built') ↔ d.name ∉ ds.map Definition.name ∧ d.Fits := by
  simp only [h.addDefinition_eq_ok_iff, ← Definition.exists_gives_iff ⟨ds.length⟩]
  constructor
  · rintro ⟨_, fresh, value, gives, -⟩
    exact ⟨fresh, value, gives⟩
  · rintro ⟨fresh, value, gives⟩
    exact ⟨_, fresh, value, gives, rfl⟩

/-- What is added behind the other definitions leaves these at their places. -/
theorem step (h : Adds ds built) (added : addDefinition built d = .ok built') :
    Adds (ds ++ [d]) built' := by
  obtain ⟨fresh, value, gives, rfl⟩ := h.addDefinition_eq_ok_iff.mp added
  have earlier : ∀ {k : Nat} {e : Definition}, ds[k]? = some e → (ds ++ [d])[k]? = some e :=
    fun place => getElem?_concat_eq_some_iff.mpr (.inl place)
  constructor
  case scope =>
    have covers := h.scope.cons fresh
    rwa [List.length_map, ← List.map_singleton, ← List.map_append] at covers
  case count => simp [h.count]
  case values =>
    intro ⟨k⟩ e place
    simp only [Graph.value_eq_ok_iff, getElem?_concat_eq_some_iff, h.count] at place ⊢
    rcases place with old | ⟨rfl, rfl⟩
    · obtain ⟨value', known, gives'⟩ := h.values ⟨k⟩ e old
      exact ⟨value', .inl (Graph.value_eq_ok_iff.mp known), gives'⟩
    · exact ⟨value, .inr ⟨rfl, rfl⟩, gives⟩
  case inputs =>
    rw [List.filterMap_append]
    apply List.rel_append (h.inputs.imp fun _ _ => earlier)
    cases d <;> simp [Definition.input?]
  case nodes => exact h.nodes
  case outputs => exact h.outputs

/-- Definitions are added as long as their names are new and their constants fit. -/
theorem exists_run_iff (h : Adds ds built) (more : List Definition) :
    (∃ built', more.foldlM addDefinition built = .ok built') ↔
      ((ds ++ more).map Definition.name).Nodup ∧ ∀ d ∈ more, d.Fits := by
  induction more generalizing ds built with
  | nil => exact iff_of_true ⟨built, rfl⟩ ⟨by simpa using h.scope.distinct, nofun⟩
  | cons d more ih =>
    have regroup : ds ++ d :: more = ds ++ [d] ++ more := by simp
    simp only [List.foldlM_cons, bind_eq_ok_iff, List.forall_mem_cons, regroup]
    constructor
    · rintro ⟨built'', next, added, rest⟩
      obtain ⟨-, fits⟩ := h.exists_addDefinition_iff.mp ⟨next, added⟩
      obtain ⟨distinct, later⟩ := (ih (h.step added)).mp ⟨built'', rest⟩
      exact ⟨distinct, fits, later⟩
    · rintro ⟨distinct, fits, later⟩
      have fresh : d.name ∉ ds.map Definition.name := by
        rw [← regroup, List.map_append, List.map_cons, List.nodup_middle, List.nodup_cons] at distinct
        exact fun member => distinct.1 (List.mem_append_left _ member)
      obtain ⟨next, added⟩ := h.exists_addDefinition_iff.mpr ⟨fresh, fits⟩
      obtain ⟨built'', rest⟩ := (ih (h.step added)).mpr ⟨distinct, later⟩
      exact ⟨built'', next, added, rest⟩

theorem run (h : Adds ds built) {more : List Definition}
    (added : more.foldlM addDefinition built = .ok built') : Adds (ds ++ more) built' := by
  induction more generalizing ds built with
  | nil =>
    obtain rfl : built = built' := Except.ok.inj added
    rwa [List.append_nil]
  | cons d more ih =>
    rw [List.foldlM_cons, bind_eq_ok_iff] at added
    obtain ⟨next, first, rest⟩ := added
    simpa using ih (h.step first) rest

end Adds

end GraphFile

end TensorEngine
