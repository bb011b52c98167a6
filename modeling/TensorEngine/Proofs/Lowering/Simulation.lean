import TensorEngine.Lowering.RuleTable
import TensorEngine.Proofs.Lowering.Following
import TensorEngine.Proofs.Network.Calls

/-!
# Simulations between lowerings

Rules of the library read types of tensors, add layers over the tensors they know, and bind the output
of their node to a layer that they have just added. A relation between the states of two lowerings that
these steps keep is therefore kept by every rule: on arguments that are alike, a rule in the one
lowering follows itself in the other one. Only flattening and reshaping ask for the mode of the
lowering, and need more than the steps.

## Main definitions

* `Simulation`: a relation that the steps of rules keep
* `Simulation.Lowers`: a rule that follows itself
* `Simulation.Joins`, `Simulation.SameMode`: what flattening and reshaping need

## Main results

* `Simulation.lowers_builtin`: the rules of the library follow themselves
-/

namespace TensorEngine

/-- Calls that add the same kind of layer, under the same name, over tensors that are alike. Constants
are of an allowed kind. -/
structure Network.Edit.Alike (same : TensorId → TensorId → Prop) (allowed : Tensor → Prop)
    (e e' : Network.Edit) : Prop where
  name : e'.name = e.name
  kind : ∃ kind, e.kind? = some kind ∧ e'.kind? = some kind ∧
    ∀ weights, kind = .constant weights → allowed weights
  inputs : List.Forall₂ same e.inputs e'.inputs

namespace Lowering

/-- Inputs of nodes are alike if they are the same constant or tensors that are alike. -/
inductive Argument.Alike (same : TensorId → TensorId → Prop) (allowed : Tensor → Prop) :
    Argument → Argument → Prop
  | tensor {x y : TensorId} (alike : same x y) : Alike same allowed (.tensor x) (.tensor y)
  | constant {c : Constant} (fair : ∀ t, c = .tensor t → allowed t) :
      Alike same allowed (.constant c) (.constant c)

/-- A relation between the states of two lowerings, and between their tensors, that is kept by what
rules do. Tensors that a rule has added itself may be more alike than others. -/
structure Simulation where
  Alike : State → State → Prop
  Same : Networks → TensorId → TensorId → Prop
  Made : Networks → TensorId → TensorId → Prop
  /-- The constants that may be added. -/
  Allowed : Tensor → Prop
  /-- The values that may be bound. -/
  Binds : ValueId → Prop
  same_of_grow {w v : Networks} {x y : TensorId} : w.Grow v → Same w x y → Same v x y
  made_of_grow {w v : Networks} {x y : TensorId} : w.Grow v → Made w x y → Made v x y
  same_of_made {w : Networks} {x y : TensorId} : Made w x y → Same w x y
  allowed_permute {t u : Tensor} {order : List Nat} :
    Allowed t → t.permute order = .ok u → Allowed u
  allowed_scalar {rank : Nat} {pattern : UInt32} {t : Tensor} :
    scalarTensor rank pattern = .ok t → Allowed t
  types {state state' : State} {x y : TensorId} {type : TensorType} : Alike state state' →
    Same (.ofStates state state') x y → state.network.types[x.index]? = some type →
    state'.network.types[y.index]? = some type
  edit {state state' next : State} {e e' : Network.Edit} {x : TensorId} : Alike state state' →
    e.Alike (Same (.ofStates state state')) Allowed e' → state.edit e = (.ok x, next) →
    ∃ y next', state'.edit e' = (.ok y, next') ∧ Alike next next' ∧
      Made (.ofStates next next') x y
  freeze {state state' : State} {weights : Tensor} : Alike state state' → Allowed weights →
    Alike (state.freeze weights).2 (state'.freeze weights).2 ∧
      Made (.ofStates (state.freeze weights).2 (state'.freeze weights).2)
        (state.freeze weights).1 (state'.freeze weights).1
  bind {state state' next : State} {value : ValueId} {x y z : TensorId} : Alike state state' →
    Binds value → Made (.ofStates state state') x y → state.bind value x = (.ok z, next) →
    ∃ z' next', state'.bind value y = (.ok z', next') ∧ Alike next next'

namespace Simulation

variable (sim : Simulation) {ε α β : Type} {w v : Networks} {node : Node} {x y x' y' : TensorId}
  {dims : Dims}

/-- A program that follows another one in the simulation. -/
abbrev Follows (w : Networks) (program program' : Program ε α) (post : Networks → α → α → Prop) :
    Prop :=
  Program.Follows sim.Alike w program program' post

/-- The first network records these dimensions. -/
def Records (w : Networks) (x : TensorId) (dims : Dims) : Prop :=
  ∃ dtype, w.1.types[x.index]? = some ⟨dtype, dims⟩

/-- Joining axes of tensors that are alike gives tensors that are alike, each in the mode of its
lowering. -/
def Joins : Prop :=
  ∀ {state state' next : State} {name : String} {x y z : TensorId} {dims target : Dims}
    {first last : Nat}, sim.Alike state state' → sim.Same (.ofStates state state') x y →
    Records (.ofStates state state') x dims → first ≤ last →
    flattenTarget state.settings.dynamicShape dims first last = .ok target →
    state.edit (.addShuffle name x (.reshaping target)) = (.ok z, next) →
    ∃ target' z' next',
      flattenTarget state'.settings.dynamicShape dims first last = .ok target' ∧
      state'.edit (.addShuffle name y (.reshaping target')) = (.ok z', next') ∧
      sim.Alike next next' ∧ sim.Made (.ofStates next next') z z'

/-- States that are alike are those of lowerings in the same mode. -/
def SameMode : Prop :=
  ∀ {state state' : State}, sim.Alike state state' →
    state.settings.dynamicShape = state'.settings.dynamicShape

/-- On arguments that are alike, the rule follows itself if the first output may be bound. -/
def Lowers (rule : Rule) : Prop :=
  ∀ (w : Networks) (node : Node) (arguments arguments' : List Argument),
    (∀ id ∈ node.outputs.head?, sim.Binds id) →
    List.Forall₂ (Argument.Alike (sim.Same w) sim.Allowed) arguments arguments' →
    sim.Follows w (rule node arguments) (rule node arguments') fun _ _ _ => True

variable {sim}

/-! ### Steps -/

/-- Tensors that are alike have the same type. -/
theorem follows_tensorOf (same : sim.Same w x y) :
    sim.Follows w (tensorOf x) (tensorOf y) fun v t t' =>
      t'.type = t.type ∧ v.1.types[x.index]? = some t.type := by
  refine .inspect fun state state' grow alike => .ofExcepts fun t read => ?_
  have known := Network.types_getElem?_of_tensor (mapError_eq_ok_iff.mp read)
  have known' := sim.types alike (sim.same_of_grow grow same) known
  obtain ⟨t', found, type⟩ := Network.exists_tensor_of_types known'
  refine ⟨t', mapError_eq_ok_iff.mpr found, fun v grown => ⟨type, ?_⟩⟩
  exact getElem?_of_isPrefix grown.1.types known

/-- Tensors that are alike have the same dimensions. -/
theorem follows_dimsOf (same : sim.Same w x y) :
    sim.Follows w (dimsOf x) (dimsOf y) fun v dims dims' => dims' = dims ∧ Records v x dims :=
  (follows_tensorOf same).bind fun _ t _ _ h =>
    .pure fun _ grow => ⟨congrArg TensorType.dims h.1, t.dtype,
      getElem?_of_isPrefix grow.1.types h.2⟩

/-- Calls that are alike add tensors that are alike. -/
theorem follows_edit {e e' : Network.Edit} (alike : e.Alike (sim.Same w) sim.Allowed e') :
    sim.Follows w (Program.perform e) (Program.perform e') sim.Made := by
  intro state state' grow states x next ran
  have edited := Program.run_perform_eq_ok_iff.mp ran
  have calls : e.Alike (sim.Same (.ofStates state state')) sim.Allowed e' :=
    ⟨alike.name, alike.kind, alike.inputs.imp fun _ _ => sim.same_of_grow grow⟩
  obtain ⟨y, next', edited', rest⟩ := sim.edit states calls edited
  exact ⟨y, next', Program.run_perform_eq_ok_iff.mpr edited', rest⟩

theorem follows_perform {e e' : Network.Edit} (alike : e.Alike (sim.Same w) sim.Allowed e') :
    sim.Follows w (perform e) (perform e') sim.Made :=
  (follows_edit alike).mapError

theorem follows_frozen {weights : Tensor} (fair : sim.Allowed weights) :
    sim.Follows w (.frozen weights : Program ε TensorId) (.frozen weights) sim.Made := by
  rintro state state' - states _ _ ⟨⟩
  exact ⟨_, _, rfl, sim.freeze states fair⟩

theorem follows_bindOutput (binds : ∀ id ∈ node.outputs.head?, sim.Binds id) (made : sim.Made w x y) :
    sim.Follows w (bindOutput node x) (bindOutput node y) fun _ _ _ => True := by
  unfold bindOutput
  split
  next => exact .refuse _
  next value rest outputs =>
    have bound : sim.Follows w (.associate value x) (.associate value y) fun _ _ _ => True := by
      intro state state' grow states z next ran
      have bound := Program.run_associate_eq_ok_iff.mp ran
      obtain ⟨z', next', bound', alike⟩ := sim.bind states (binds value (outputs ▸ rfl))
        (sim.made_of_grow grow made) bound
      exact ⟨z', next', Program.run_associate_eq_ok_iff.mpr bound', alike, trivial⟩
    exact bound.bind fun _ _ _ _ _ => .pure fun _ _ => trivial

theorem follows_requireStatic {activity : String} :
    sim.Follows w (requireStatic dims activity) (requireStatic dims activity)
      fun _ _ _ => True := by
  unfold requireStatic
  split
  next => exact .done fun _ _ => trivial
  next => exact .inspect fun _ _ _ _ => .refuse _

theorem follows_reshape {target : Dims} {part : String} (same : sim.Same w x y) :
    sim.Follows w (reshape node x target part) (reshape node y target part) sim.Made :=
  follows_perform ⟨rfl, ⟨_, rfl, rfl, nofun⟩, .cons same .nil⟩

theorem follows_expandRank {rank : Nat} {part : String} (same : sim.Same w x y) :
    sim.Follows w (expandRank node x rank part) (expandRank node y rank part) sim.Same := by
  refine (follows_dimsOf same).bind fun v dims _ grow h => ?_
  obtain ⟨rfl, -⟩ := h
  have same := sim.same_of_grow grow same
  split
  next => exact .pure fun _ grow => sim.same_of_grow grow same
  next =>
    refine follows_requireStatic.bind fun v _ _ grow _ => ?_
    have same := sim.same_of_grow grow same
    refine (Program.Follows.ofExcept _).bind fun v target _ grow h => ?_
    obtain ⟨rfl, -⟩ := h
    have same := sim.same_of_grow grow same
    exact (follows_reshape same).mono fun _ _ _ => sim.same_of_made

/-! ### Arguments -/

variable {arguments arguments' : List Argument}
  (alike : List.Forall₂ (Argument.Alike (sim.Same w) sim.Allowed) arguments arguments')

theorem Argument.Alike.grow {argument argument' : Argument} (grow : w.Grow v)
    (h : argument.Alike (sim.Same w) sim.Allowed argument') :
    argument.Alike (sim.Same v) sim.Allowed argument' := by
  cases h with
  | tensor same => exact .tensor (sim.same_of_grow grow same)
  | constant fair => exact .constant fair

/-- What is read of a constant is read of the same constant. -/
theorem Argument.Alike.read_eq {argument argument' : Argument}
    (h : argument.Alike (sim.Same w) sim.Allowed argument') {read : Argument → Except RuleError α}
    (refused : ∀ x a, read (.tensor x) ≠ .ok a) {a : α} (result : read argument = .ok a) :
    argument' = argument := by
  cases h with
  | tensor => exact absurd result (refused _ _)
  | constant => rfl

include alike

theorem exists_argumentAt {position : Nat} {argument : Argument}
    (found : argumentAt arguments position = .ok argument) :
    ∃ argument', argumentAt arguments' position = .ok argument' ∧
      argument.Alike (sim.Same w) sim.Allowed argument' := by
  unfold argumentAt at found
  split at found
  next argument' entry =>
    cases found
    obtain ⟨argument', entry', alike⟩ := forall₂_getElem? alike entry
    exact ⟨argument', by rw [argumentAt, entry'], alike⟩
  next => cases found

theorem follows_argumentAt {position : Nat} :
    sim.Follows w (Program.ofExcept (argumentAt arguments position))
      (Program.ofExcept (argumentAt arguments' position))
      fun v => Argument.Alike (sim.Same v) sim.Allowed :=
  .ofExcepts fun argument found => by
    obtain ⟨argument', found', alike⟩ := exists_argumentAt alike found
    exact ⟨argument', found', fun _ grow => Argument.Alike.grow grow alike⟩

/-- What is read of a constant among the arguments is read on both sides. -/
theorem follows_constantAt {position : Nat} {read : Argument → Except RuleError α}
    (refused : ∀ x a, read (.tensor x) ≠ .ok a) :
    sim.Follows w (Program.ofExcept (argumentAt arguments position >>= read))
      (Program.ofExcept (argumentAt arguments' position >>= read))
      fun _ a a' => a' = a ∧ ∃ argument argument', argument.Alike (sim.Same w) sim.Allowed argument' ∧
        read argument = .ok a := by
  refine .ofExcepts fun a result => ?_
  obtain ⟨argument, found, result⟩ := bind_eq_ok_iff.mp result
  obtain ⟨argument', found', alike⟩ := exists_argumentAt alike found
  obtain rfl := Argument.Alike.read_eq alike refused result
  exact ⟨a, bind_eq_ok_iff.mpr ⟨_, found', result⟩, fun _ _ => ⟨rfl, _, _, alike, result⟩⟩

theorem follows_operandAt {position : Nat} :
    sim.Follows w (operandAt arguments position) (operandAt arguments' position) sim.Same := by
  refine (follows_argumentAt alike).bind fun v argument argument' grow h => ?_
  cases h with
  | tensor same => exact .done fun _ grow => sim.same_of_grow grow same
  | @constant c fair =>
    cases c with
    | tensor t => exact (follows_frozen (fair t rfl)).mono fun _ _ _ => sim.same_of_made
    | none | bool | int | double | ints => exact .refuse _

theorem follows_factors : sim.Follows w (factors arguments) (factors arguments')
    fun v xs ys => sim.Same v xs.1 ys.1 ∧ sim.Same v xs.2 ys.2 := by
  have floating : ∀ {w x y}, sim.Same w x y → sim.Follows w (requireFloatingPoint x)
      (requireFloatingPoint y) fun _ _ _ => True := by
    intro w x y same
    refine (follows_tensorOf same).bind fun v t t' _ h => ?_
    have dtype : t'.dtype = t.dtype := congrArg TensorType.dtype h.1
    dsimp only
    rw [dtype]
    split
    next => exact .pure fun _ _ => trivial
    next => exact .refuse _
  refine (follows_operandAt alike).bind fun v x y grow lhs => ?_
  have alike := alike.imp fun _ _ => Argument.Alike.grow grow
  refine (follows_operandAt alike).bind fun v x' y' grow rhs => ?_
  have lhs := sim.same_of_grow grow lhs
  refine (floating lhs).bind fun v _ _ grow _ => ?_
  have lhs := sim.same_of_grow grow lhs
  have rhs := sim.same_of_grow grow rhs
  refine (floating rhs).bind fun v _ _ grow _ => ?_
  exact .pure fun _ grow' => ⟨sim.same_of_grow (grow.trans grow') lhs,
    sim.same_of_grow (grow.trans grow') rhs⟩

theorem follows_broadcastOperands : sim.Follows w (broadcastOperands node arguments)
    (broadcastOperands node arguments')
    fun v xs ys => sim.Same v xs.1 ys.1 ∧ sim.Same v xs.2 ys.2 := by
  refine (follows_operandAt alike).bind fun v x y grow lhs => ?_
  have alike := alike.imp fun _ _ => Argument.Alike.grow grow
  refine (follows_operandAt alike).bind fun v x' y' grow rhs => ?_
  have lhs := sim.same_of_grow grow lhs
  refine (follows_dimsOf lhs).bind fun v dimsA _ grow h => ?_
  obtain ⟨rfl, -⟩ := h
  have lhs := sim.same_of_grow grow lhs
  have rhs := sim.same_of_grow grow rhs
  refine (follows_dimsOf rhs).bind fun v dimsB _ grow h => ?_
  obtain ⟨rfl, -⟩ := h
  have lhs := sim.same_of_grow grow lhs
  have rhs := sim.same_of_grow grow rhs
  refine (follows_expandRank lhs).bind fun v x y grow lhs => ?_
  have rhs := sim.same_of_grow grow rhs
  refine (follows_expandRank rhs).bind fun v x' y' grow rhs => ?_
  exact .pure fun _ grow' => ⟨sim.same_of_grow (grow.trans grow') lhs,
    sim.same_of_grow grow' rhs⟩

omit alike

/-! ### Products -/

theorem follows_multiply (lhs : sim.Same w x y) (rhs : sim.Same w x' y') :
    sim.Follows w (multiply node x x') (multiply node y y') sim.Made :=
  follows_perform ⟨rfl, ⟨_, rfl, rfl, nofun⟩, .cons lhs (.cons rhs .nil)⟩

theorem follows_foldedProduct (lhs : sim.Same w x y) (rhs : sim.Same w x' y') :
    sim.Follows w (foldedProduct node x dims x') (foldedProduct node y dims y') sim.Made := by
  refine follows_requireStatic.bind fun v _ _ grow _ => ?_
  have lhs := sim.same_of_grow grow lhs
  have rhs := sim.same_of_grow grow rhs
  refine (Program.Follows.ofExcept _).bind fun v plan _ grow h => ?_
  obtain ⟨rfl, -⟩ := h
  have lhs := sim.same_of_grow grow lhs
  have rhs := sim.same_of_grow grow rhs
  refine (follows_reshape lhs).bind fun v _ _ grow folded => ?_
  have rhs := sim.same_of_grow grow rhs
  refine (follows_multiply (sim.same_of_made folded) rhs).bind fun v _ _ _ product => ?_
  exact follows_reshape (sim.same_of_made product)

theorem follows_stackedProduct (lhs : sim.Same w x y) (rhs : sim.Same w x' y') :
    sim.Follows w (stackedProduct node x x') (stackedProduct node y y') sim.Made := by
  refine (follows_dimsOf lhs).bind fun v dimsA _ grow h => ?_
  obtain ⟨rfl, -⟩ := h
  have lhs := sim.same_of_grow grow lhs
  have rhs := sim.same_of_grow grow rhs
  refine (follows_dimsOf rhs).bind fun v dimsB _ grow h => ?_
  obtain ⟨rfl, -⟩ := h
  have lhs := sim.same_of_grow grow lhs
  have rhs := sim.same_of_grow grow rhs
  split
  next => exact follows_foldedProduct lhs rhs
  next =>
    refine (follows_expandRank lhs).bind fun v x y grow lhs => ?_
    have rhs := sim.same_of_grow grow rhs
    refine (follows_expandRank rhs).bind fun v x' y' grow rhs => ?_
    exact follows_multiply (sim.same_of_grow grow lhs) rhs

theorem follows_lift {target : Dims} {part : String} (same : sim.Same w x y) :
    sim.Follows w (lift node x dims target part) (lift node y dims target part) sim.Same :=
  follows_requireStatic.bind fun _ _ _ grow _ =>
    (follows_reshape (sim.same_of_grow grow same)).mono fun _ _ _ => sim.same_of_made

theorem lowers_matmul : sim.Lowers matmul := by
  intro w node arguments arguments' binds alike
  refine (follows_factors alike).bind fun v (x, x') (y, y') grow ⟨lhs, rhs⟩ => ?_
  refine (follows_dimsOf lhs).bind fun v dimsA _ grow h => ?_
  obtain ⟨rfl, -⟩ := h
  have lhs := sim.same_of_grow grow lhs
  have rhs := sim.same_of_grow grow rhs
  refine (follows_dimsOf rhs).bind fun v dimsB _ grow h => ?_
  obtain ⟨rfl, -⟩ := h
  have lhs := sim.same_of_grow grow lhs
  have rhs := sim.same_of_grow grow rhs
  split
  next => exact .refuse _
  next =>
    refine Program.Follows.ite_bind (fun _ => follows_lift lhs)
      (fun _ => .pure fun _ grow => sim.same_of_grow grow lhs) fun v x y grow lhs => ?_
    have rhs := sim.same_of_grow grow rhs
    refine Program.Follows.ite_bind (fun _ => follows_lift rhs)
      (fun _ => .pure fun _ grow => sim.same_of_grow grow rhs) fun v x' y' grow rhs => ?_
    have lhs := sim.same_of_grow grow lhs
    refine (follows_stackedProduct lhs rhs).bind fun v z z' _ product => ?_
    split
    next =>
      have same := sim.same_of_made product
      refine (follows_dimsOf same).bind fun v dims _ grow h => ?_
      obtain ⟨rfl, -⟩ := h
      have same := sim.same_of_grow grow same
      refine follows_requireStatic.bind fun v _ _ grow _ => ?_
      have same := sim.same_of_grow grow same
      refine (Program.Follows.ofExcept _).bind fun v target _ grow h => ?_
      obtain ⟨rfl, -⟩ := h
      have same := sim.same_of_grow grow same
      exact (follows_reshape same).bind fun _ _ _ _ made => follows_bindOutput binds made
    next => exact follows_bindOutput binds product

theorem lowers_productOfRank (operation : String) (rank : Nat) :
    sim.Lowers (productOfRank operation rank) := by
  intro w node arguments arguments' binds alike
  have ranked : ∀ {w x y}, sim.Same w x y → sim.Follows w (requireRank operation rank x)
      (requireRank operation rank y) fun _ _ _ => True := by
    intro w x y same
    refine (follows_dimsOf same).bind fun v dims _ _ h => ?_
    obtain ⟨rfl, -⟩ := h
    split
    next => exact .pure fun _ _ => trivial
    next => exact .refuse _
  refine (follows_factors alike).bind fun v (x, x') (y, y') grow ⟨lhs, rhs⟩ => ?_
  refine (ranked lhs).bind fun v _ _ grow _ => ?_
  have lhs := sim.same_of_grow grow lhs
  have rhs := sim.same_of_grow grow rhs
  refine (ranked rhs).bind fun v _ _ grow _ => ?_
  have lhs := sim.same_of_grow grow lhs
  have rhs := sim.same_of_grow grow rhs
  exact (follows_multiply lhs rhs).bind fun _ _ _ _ made => follows_bindOutput binds made

/-! ### Elementwise operations -/

theorem follows_combine {op : ElementWiseOp} {part : String} (lhs : sim.Same w x y)
    (rhs : sim.Same w x' y') :
    sim.Follows w (combine node x x' op part) (combine node y y' op part) sim.Made :=
  follows_perform ⟨rfl, ⟨_, rfl, rfl, nofun⟩, .cons lhs (.cons rhs .nil)⟩

theorem follows_constant {name : String} {weights : Tensor} (fair : sim.Allowed weights) :
    sim.Follows w (perform (.addConstant name weights)) (perform (.addConstant name weights))
      sim.Made :=
  follows_perform ⟨rfl, ⟨_, rfl, rfl, fun _ same => LayerKind.constant.inj same ▸ fair⟩, .nil⟩

theorem follows_scale {factor : UInt64} (same : sim.Same w x y) :
    sim.Follows w (scale node x factor) (scale node y factor) sim.Same := by
  unfold scale
  split
  next => exact .pure fun _ grow => sim.same_of_grow grow same
  next =>
    refine (follows_tensorOf same).bind fun v t t' grow h => ?_
    have same := sim.same_of_grow grow same
    have type : t'.dtype = t.dtype ∧ t'.dims = t.dims := TensorType.mk.inj h.1
    rw [type.1, type.2]
    split
    next => exact .refuse _
    next =>
      refine (Program.Follows.ofExcept _).bind fun v weights _ grow h => ?_
      obtain ⟨rfl, scalar⟩ := h
      have same := sim.same_of_grow grow same
      refine (follows_constant (sim.allowed_scalar scalar)).bind fun v _ _ grow made => ?_
      have same := sim.same_of_grow grow same
      exact (follows_combine same (sim.same_of_made made)).mono fun _ _ _ => sim.same_of_made

/-- The factor of a second operand is a constant. -/
theorem scaleFactor_eq {factor : UInt64}
    (alike : List.Forall₂ (Argument.Alike (sim.Same w) sim.Allowed) arguments arguments')
    (h : scaleFactor arguments = .ok factor) : scaleFactor arguments' = .ok factor := by
  unfold scaleFactor at h ⊢
  cases entry : arguments[2]? with
  | none =>
    have missing : arguments'[2]? = none := by
      rw [List.getElem?_eq_none_iff] at entry ⊢
      rwa [← List.Forall₂.length_eq alike]
    rw [entry] at h
    rwa [missing]
  | some argument =>
    obtain ⟨argument', entry', same⟩ := forall₂_getElem? alike entry
    rw [entry] at h
    rw [entry']
    cases same with
    | tensor => cases h
    | constant => exact h

theorem lowers_scaled (op : ElementWiseOp) : sim.Lowers (scaled op) := by
  intro w node arguments arguments' binds alike
  refine (follows_broadcastOperands alike).bind fun v (x, x') (y, y') grow ⟨lhs, rhs⟩ => ?_
  have read : sim.Follows v (Program.ofExcept (scaleFactor arguments))
      (Program.ofExcept (scaleFactor arguments')) fun _ factor factor' => factor' = factor :=
    .ofExcepts fun factor h => ⟨factor, scaleFactor_eq alike h, fun _ _ => rfl⟩
  refine read.bind fun v factor _ grow h => ?_
  obtain rfl := h
  have lhs := sim.same_of_grow grow lhs
  refine (follows_scale (sim.same_of_grow grow rhs)).bind fun v _ _ grow rhs => ?_
  have lhs := sim.same_of_grow grow lhs
  exact (follows_combine lhs rhs).bind fun _ _ _ _ made => follows_bindOutput binds made

theorem lowers_elementProduct : sim.Lowers elementProduct := by
  intro w node arguments arguments' binds alike
  refine (follows_broadcastOperands alike).bind fun v (x, x') (y, y') grow ⟨lhs, rhs⟩ => ?_
  exact (follows_combine lhs rhs).bind fun _ _ _ _ made => follows_bindOutput binds made

/-! ### Shuffles and constants -/

/-- Joining axes and binding the result. -/
theorem follows_joined (joins : sim.Joins) {first last : Nat} (ordered : first ≤ last)
    (binds : ∀ id ∈ node.outputs.head?, sim.Binds id) (same : sim.Same w x y)
    (records : Records w x dims) :
    sim.Follows w
      (do
        let dynamicShape ← Program.gets (·.settings.dynamicShape)
        let target ← Program.ofExcept (flattenTarget dynamicShape dims first last)
        let output ← reshape node x target ""
        bindOutput node output)
      (do
        let dynamicShape ← Program.gets (·.settings.dynamicShape)
        let target ← Program.ofExcept (flattenTarget dynamicShape dims first last)
        let output ← reshape node y target ""
        bindOutput node output)
      fun _ _ _ => True := by
  intro state state' grow states _ final ran
  obtain ⟨_, _, read, flattened⟩ := Program.run_bind_eq_ok_iff.mp ran
  cases read
  obtain ⟨target, _, taken, joined⟩ := Program.run_bind_eq_ok_iff.mp flattened
  obtain ⟨targeted, rfl⟩ := Program.run_ofExcept_eq_ok_iff.mp taken
  obtain ⟨z, middle, reshaped, bound⟩ := Program.run_bind_eq_ok_iff.mp joined
  have edited := Program.run_perform_eq_ok_iff.mp (Program.run_mapError_eq_ok_iff.mp reshaped)
  obtain ⟨dtype, type⟩ := records
  obtain ⟨target', z', middle', targeted', edited', states, made⟩ :=
    joins states (sim.same_of_grow grow same) ⟨dtype, getElem?_of_isPrefix grow.1.types type⟩
      ordered targeted edited
  obtain ⟨_, final', bound', rest⟩ :=
    follows_bindOutput binds made middle middle' (.refl _) states _ _ bound
  refine ⟨(), final', Program.run_bind_eq_ok_iff.mpr ⟨_, state', rfl, ?_⟩, rest⟩
  refine Program.run_bind_eq_ok_iff.mpr
    ⟨target', state', Program.run_ofExcept_eq_ok_iff.mpr ⟨targeted', rfl⟩, ?_⟩
  exact Program.run_bind_eq_ok_iff.mpr ⟨z', middle', Program.run_mapError_eq_ok_iff.mpr
    (Program.run_perform_eq_ok_iff.mpr edited'), bound'⟩

/-- Lowerings in the same mode join axes to the same target. -/
theorem joins_of_sameMode (mode : sim.SameMode) : sim.Joins := by
  intro state state' next name x y z dims target first last states same _ _ asked accepted
  have alike : Network.Edit.Alike (sim.Same (.ofStates state state')) sim.Allowed
      (.addShuffle name x (.reshaping target)) (.addShuffle name y (.reshaping target)) :=
    ⟨rfl, ⟨_, rfl, rfl, nofun⟩, .cons same .nil⟩
  obtain ⟨z', next', accepted', rest⟩ := sim.edit states alike accepted
  exact ⟨target, z', next', mode states ▸ asked, accepted', rest⟩

theorem lowers_flatten (joins : sim.Joins) : sim.Lowers flatten := by
  intro w node arguments arguments' binds alike
  have axis : ∀ {w : Networks} (_ : List.Forall₂ (Argument.Alike (sim.Same w) sim.Allowed)
      arguments arguments') (position rank : Nat),
      sim.Follows w (Program.ofExcept (axisAt arguments position rank))
        (Program.ofExcept (axisAt arguments' position rank)) fun _ n n' => n' = n :=
    fun alike position rank => by
      have refused : ∀ x n, (Argument.tensor x).int >>= (normalizeAxis · rank) ≠ .ok n :=
        fun _ _ read => by cases read
      exact (follows_constantAt alike refused).mono fun _ _ _ h => h.1
  refine (follows_operandAt alike).bind fun v x y grow same => ?_
  have alike := alike.imp fun _ _ => Argument.Alike.grow grow
  refine (follows_dimsOf same).bind fun v dims _ grow h => ?_
  obtain ⟨rfl, dtype, records⟩ := h
  have same := sim.same_of_grow grow same
  have alike := alike.imp fun _ _ => Argument.Alike.grow grow
  split
  next =>
    exact (follows_reshape same).bind fun _ _ _ _ made => follows_bindOutput binds made
  next =>
    refine (axis alike 1 _).bind fun v first _ grow h => ?_
    obtain rfl := h
    have same := sim.same_of_grow grow same
    have records := getElem?_of_isPrefix grow.1.types records
    have alike := alike.imp fun _ _ => Argument.Alike.grow grow
    refine (axis alike 2 _).bind fun v last _ grow h => ?_
    obtain rfl := h
    have same := sim.same_of_grow grow same
    have records := getElem?_of_isPrefix grow.1.types records
    split
    next => exact .refuse _
    next ordered => exact follows_joined joins (Nat.not_lt.mp ordered) binds same ⟨dtype, records⟩

theorem lowers_reshapeTo (mode : sim.SameMode) : sim.Lowers reshapeTo := by
  intro w node arguments arguments' binds alike
  refine (follows_operandAt alike).bind fun v x y grow same => ?_
  have alike := alike.imp fun _ _ => Argument.Alike.grow grow
  have refused : ∀ x requested, (Argument.tensor x).ints ≠ .ok requested :=
    fun _ _ read => by cases read
  refine (follows_constantAt alike refused).bind fun v requested _ grow h => ?_
  obtain ⟨rfl, -⟩ := h
  have same := sim.same_of_grow grow same
  refine (Program.Follows.gets _ _).bind fun v dynamicShape _ grow h => ?_
  obtain ⟨state, state', states, -, rfl, rfl⟩ := h
  have same := sim.same_of_grow grow same
  rw [← mode states]
  split
  next => exact .refuse _
  next =>
    refine (follows_dimsOf same).bind fun v dims _ grow h => ?_
    obtain ⟨rfl, -⟩ := h
    have same := sim.same_of_grow grow same
    refine follows_requireStatic.bind fun v _ _ grow _ => ?_
    have same := sim.same_of_grow grow same
    refine (Program.Follows.ofExcept _).bind fun v target _ grow h => ?_
    obtain ⟨rfl, -⟩ := h
    have same := sim.same_of_grow grow same
    exact (follows_reshape same).bind fun _ _ _ _ made => follows_bindOutput binds made

theorem follows_transpose {name : String} {order : List Nat} (same : sim.Same w x y) :
    sim.Follows w (perform (.addShuffle name x (.transposing order)))
      (perform (.addShuffle name y (.transposing order))) sim.Made :=
  follows_perform ⟨rfl, ⟨_, rfl, rfl, nofun⟩, .cons same .nil⟩

theorem lowers_permuteAxes : sim.Lowers permuteAxes := by
  intro w node arguments arguments' binds alike
  refine (follows_operandAt alike).bind fun v x y grow same => ?_
  have alike := alike.imp fun _ _ => Argument.Alike.grow grow
  refine (follows_dimsOf same).bind fun v _ dims grow h => ?_
  obtain ⟨rfl, -⟩ := h
  have same := sim.same_of_grow grow same
  have alike := alike.imp fun _ _ => Argument.Alike.grow grow
  have refused : ∀ x order, (Argument.tensor x).ints >>= (axisOrder · dims.rank) ≠ .ok order :=
    fun _ _ read => by cases read
  refine (follows_constantAt alike refused).bind fun v order _ grow h => ?_
  obtain ⟨rfl, -⟩ := h
  have same := sim.same_of_grow grow same
  exact (follows_transpose same).bind fun _ _ _ _ made => follows_bindOutput binds made

/-- A constant tensor that is read is one that may be added. -/
theorem allowed_of_constantTensor {argument argument' : Argument} {weights : Tensor}
    (h : argument.Alike (sim.Same w) sim.Allowed argument')
    (read : argument.constantTensor = .ok weights) : sim.Allowed weights := by
  cases h with
  | tensor => cases read
  | @constant c fair =>
    cases c with
    | tensor t =>
      cases read
      exact fair _ rfl
    | none | bool | int | double | ints => cases read

theorem lowers_transposeAll : sim.Lowers transposeAll := by
  intro w node arguments arguments' binds alike
  refine (follows_argumentAt alike).bind fun v argument argument' grow h => ?_
  have argumentAlike := h
  cases h with
  | tensor same =>
    refine (follows_dimsOf same).bind fun v dims _ grow h => ?_
    obtain ⟨rfl, -⟩ := h
    have same := sim.same_of_grow grow same
    exact (follows_transpose same).bind fun _ _ _ _ made => follows_bindOutput binds made
  | constant =>
    refine (Program.Follows.ofExcept _).bind fun v weights _ grow h => ?_
    obtain ⟨rfl, read⟩ := h
    refine (Program.Follows.ofExcept _).bind fun v transposed _ grow h => ?_
    obtain ⟨rfl, moved⟩ := h
    have fair := sim.allowed_permute (allowed_of_constantTensor argumentAlike read)
      (mapError_eq_ok_iff.mp moved)
    exact (follows_constant fair).bind fun _ _ _ _ made => follows_bindOutput binds made

theorem lowers_constantTensor : sim.Lowers constantTensor := by
  intro w node arguments arguments' binds alike
  have refused : ∀ x weights, (Argument.tensor x).constantTensor ≠ .ok weights :=
    fun _ _ read => by cases read
  refine (follows_constantAt alike refused).bind fun v weights _ grow h => ?_
  obtain ⟨rfl, argument, argument', argumentAlike, read⟩ := h
  have fair := allowed_of_constantTensor argumentAlike read
  exact (follows_constant fair).bind fun _ _ _ _ made => follows_bindOutput binds made

end Simulation

/-- The signatures of nodes that are reshaped to a shape which is asked for. -/
def reshapingSignatures : List Signature :=
  [⟨"aten::reshape(Tensor self, int[] shape) -> (Tensor)"⟩,
    ⟨"aten::view(Tensor(a) self, int[] size) -> (Tensor(a))"⟩]

/-- The rules of the library follow themselves. Those that reshape need lowerings in the same mode. -/
theorem Simulation.lowers_builtin {sim : Simulation} (joins : sim.Joins) {signature : Signature}
    {rule : Rule} (found : RuleTable.builtin.find? signature = some rule)
    (mode : sim.SameMode ∨ signature ∉ reshapingSignatures) : sim.Lowers rule := by
  have all : ∀ entry ∈ builtinRules, (sim.SameMode ∨ entry.1 ∉ reshapingSignatures) →
      sim.Lowers entry.2 := by
    have reshapes : ∀ {signature : Signature}, signature ∈ reshapingSignatures →
        (sim.SameMode ∨ signature ∉ reshapingSignatures) → sim.Lowers reshapeTo :=
      fun listed mode => lowers_reshapeTo (mode.resolve_right fun absent => absent listed)
    simp only [builtinRules, List.forall_mem_cons]
    exact ⟨fun _ => lowers_matmul, fun _ => lowers_productOfRank _ _,
      fun _ => lowers_productOfRank _ _, fun _ => lowers_flatten joins,
      reshapes List.mem_cons_self, reshapes (List.mem_cons_of_mem _ List.mem_cons_self),
      fun _ => lowers_permuteAxes, fun _ => lowers_transposeAll, fun _ => lowers_scaled _,
      fun _ => lowers_scaled _, fun _ => lowers_scaled _, fun _ => lowers_elementProduct,
      fun _ => lowers_constantTensor, nofun⟩
  exact all (signature, rule) (mem_of_lookup found) mode

end Lowering

end TensorEngine
