import TensorEngine.Proofs.Lowering.Simulation
import TensorEngine.Proofs.Lowering.Zeros
import TensorEngine.Proofs.Network.Counts
import TensorEngine.Proofs.Network.Refusals

/-!
# Requested shapes and what the network infers

The rule for nodes that ask for a shape resolves the request on its own before it asks the network for
a reshape: it scans the sizes once, multiplies those that are given and divides the number of elements
by their product. The network copies the entries of a target first, and counts afterwards. For known
dimensions without empty axes and requests without zeros, both accept the same requests, with the same
shapes. So the network never refuses the reshape that a node of this kind becomes.

## Main definitions

* `Means`: the shape that a request means, which both compute
* `Requests`: nodes that ask for a shape
* `RefusesRequest`, `EmitsReshape`: how lowering such a node may end

## Main results

* `scanRequest_eq_ok_iff`: scanning a request and copying it
* `requestedShape_eq_ok_iff`, `reshapes_iff_means`: what the rule and the network accept
* `Requests.ends`: how lowering a node ends
* `requested_shapes_are_inferred`: the rule and the network agree
-/

namespace TensorEngine

namespace Lowering

variable {dims requested target : Dims}

/-! ### Scanning and copying -/

/-- The sizes that are given are those besides the one that is left to be inferred. -/
theorem filter_given {sizes : List Int} {k : Nat} (entry : sizes[k]? = some (-1))
    (once : sizes.count (-1) ≤ 1) : sizes.filter (· ≠ -1) = sizes.eraseIdx k := by
  induction sizes generalizing k with
  | nil => cases entry
  | cons d sizes ih =>
    cases k with
    | zero =>
      cases entry
      rw [List.count_cons_self] at once
      have rest : sizes.count (-1) = 0 := by omega
      rw [List.filter_cons_of_neg (by simp), List.eraseIdx_cons_zero]
      exact List.filter_eq_self.mpr fun d member => by
        simpa using fun same : d = -1 => List.count_eq_zero.mp rest (same ▸ member)
    | succ k =>
      have entry : sizes[k]? = some (-1) := entry
      have present : 0 < sizes.count (-1) := List.count_pos_iff.mpr (List.mem_of_getElem? entry)
      have given : d ≠ -1 := by
        rintro rfl
        rw [List.count_cons_self] at once
        omega
      rw [List.count_cons_of_ne given] at once
      rw [List.filter_cons_of_pos (by simpa using given), List.eraseIdx_cons_succ, ih entry once]

/-- Scanning a request without zeros and copying it come to the same, except that the one multiplies
the sizes that are given. -/
theorem scanRequest_eq_ok_iff {sizes : List Int} {place : Nat} {inferred place? : Option Nat}
    {known product : Int} (source : Dims) (sized : 0 ∉ sizes) :
    scanRequest place inferred known sizes = .ok (place?, product) ↔
      copyExtents source place inferred sizes = .ok (sizes, place?) ∧
        (sizes.filter (· ≠ -1)).foldlM Signed.mul? known = some product := by
  induction sizes generalizing place inferred known with
  | nil => simp [scanRequest, copyExtents]
  | cons d sizes ih =>
    rw [List.mem_cons, not_or] at sized
    obtain ⟨nonzero, sized⟩ := sized
    have nonzero : d ≠ 0 := Ne.symm nonzero
    by_cases minusOne : d = -1
    · subst minusOne
      cases inferred with
      | some p => simp [scanRequest, copyExtents, throw, throwThe, MonadExceptOf.throw]
      | none => simp [scanRequest, copyExtents, ih sized, bind_eq_ok_iff, pure, Except.pure]
    rw [List.filter_cons_of_pos (by simpa using minusOne), Signed.foldlM_mul?_cons]
    by_cases positive : 0 < d
    · have copied : copyExtents source place inferred (d :: sizes) = .ok (d :: sizes, place?) ↔
          copyExtents source (place + 1) inferred sizes = .ok (sizes, place?) := by
        simp [copyExtents, bind_eq_ok_iff, pure, Except.pure, minusOne, nonzero, positive]
      rw [copied, scanRequest, if_neg minusOne, if_pos positive]
      by_cases range : Signed.InRange (known * d)
      · rw [Signed.mul?_eq_some_iff.mpr ⟨range, rfl⟩]
        simp [ih sized, range]
      · rw [Signed.mul?, if_neg range]
        simp [range]
    · simp [scanRequest, copyExtents, minusOne, nonzero, positive, throw, throwThe,
        MonadExceptOf.throw]

/-- The sizes that a target without zeros gives are all of them, or all but the one to infer. -/
theorem given_of_copies {place? : Option Nat} {copied : Dims}
    (copies : Copies dims 0 place? requested copied) :
    requested.filter (· ≠ -1) = place?.elim requested requested.eraseIdx := by
  obtain ⟨once, none⟩ := copies.count_inferred
  cases place? with
  | none =>
    refine List.filter_eq_self.mpr fun d member => ?_
    simpa using fun same : d = -1 => List.count_eq_zero.mp (none rfl) (same ▸ member)
  | some place =>
    obtain ⟨k, same, entry, -⟩ := copies.getElem?_inferred rfl
    obtain rfl : place = k := by omega
    exact filter_given entry once

/-! ### Two ways to the same shape -/

/-- What a request without zeros means for known dimensions: its sizes, of which one may be inferred,
with the exact count of the elements. -/
def Means (dims requested target : Dims) : Prop :=
  ∃ place?, Copies dims 0 place? requested requested ∧
    CompletesExactly dims requested place? target

/-- The network accepts the requests that mean a shape. -/
theorem reshapes_iff_means (static : dims.isStatic) (sized : 0 ∉ requested) :
    Reshapes (some requested) dims target ↔ Means dims requested target := by
  constructor
  · rintro ⟨copied, place?, copies, completes⟩
    obtain rfl : copied = requested :=
      copies.eq_target_iff.mpr fun k entry => absurd (List.mem_of_getElem? entry) sized
    exact ⟨place?, copies, (completes_iff_exactly static copies).mp completes⟩
  · rintro ⟨place?, copies, completes⟩
    exact ⟨requested, place?, copies, (completes_iff_exactly static copies).mpr completes⟩

/-- Scanning a request finds the place of the size to infer and the exact product of the others. -/
theorem scanRequest_iff_copies (dims : Dims) {place? : Option Nat} {known : Int}
    (sized : 0 ∉ requested) :
    scanRequest 0 none 1 requested = .ok (place?, known) ↔
      Copies dims 0 place? requested requested ∧
        Signed.Multiplies (place?.elim requested requested.eraseIdx) ∧
        List.prod (place?.elim requested requested.eraseIdx) = known := by
  rw [scanRequest_eq_ok_iff dims sized, ← Copies.iff_copyExtents]
  refine and_congr_right fun copies => ?_
  rw [given_of_copies copies]
  exact Signed.product?_eq_some_iff

/-- The sizes that are given have a positive product. -/
theorem given_pos {place? : Option Nat} {copied : Dims} (sized : 0 ∉ requested)
    (copies : Copies dims 0 place? requested copied) :
    0 < List.prod (place?.elim requested requested.eraseIdx) := by
  have entries : ∀ d ∈ requested, d = -1 ∨ 0 < d := by
    intro d member
    have nonzero : d ≠ 0 := fun zero => sized (zero ▸ member)
    have := copies.mem_target d member
    omega
  exact given_of_copies copies ▸ prod_given_pos entries

/-- An extent is inferred by a division that leaves no remainder. -/
theorem division_eq_ok_iff {total known : Int} {place : Nat} {e : RuleError}
    (positive : 0 < known) :
    (do
      let rest ← Signed.remainder total known
      if rest ≠ 0 then throw e
      let extent ← Signed.quotient total known
      return requested.set place extent : Except RuleError Dims) = .ok target ↔
      ∃ extent, (total = known * extent ∧ Signed.InRange extent) ∧
        requested.set place extent = target := by
  constructor
  · intro h
    obtain ⟨rest, remainder, h⟩ := bind_eq_ok_iff.mp h
    split at h
    next => cases h
    next exact =>
      obtain ⟨extent, quotient, result⟩ := bind_eq_ok_iff.mp h
      obtain rfl : rest = 0 := not_not.mp exact
      exact ⟨extent, (divides_iff (Int.ne_of_gt positive)).mp ⟨remainder, quotient⟩,
        Except.ok.inj result⟩
  · rintro ⟨extent, divides, rfl⟩
    obtain ⟨remainder, quotient⟩ :=
      (divides_iff (ε := RuleError) (Int.ne_of_gt positive)).mpr divides
    simp [remainder, quotient, bind, Except.bind, pure, Except.pure]

/-- The rule accepts the requests that mean a shape, if there are elements to count. -/
theorem requestedShape_eq_ok_iff (static : dims.isStatic) (count : dims.prod ≠ 0)
    (sized : 0 ∉ requested) :
    requestedShape dims requested = .ok target ↔ Means dims requested target := by
  unfold requestedShape
  dsimp only
  rw [static, if_neg (by decide)]
  cases volume : dims.volume with
  | none =>
    refine iff_of_false nofun ?_
    rintro ⟨place?, -, completes⟩
    have counted : ∃ total, dims.volume = some total := by
      cases completes with
      | compared multiplies | divided _ _ multiplies =>
        exact ⟨_, Dims.volume_eq_some_iff.mpr ⟨static, multiplies, rfl⟩⟩
    simp [volume] at counted
  | some total =>
    obtain ⟨-, multiplies, rfl⟩ := Dims.volume_eq_some_iff.mp volume
    simp only [bind_eq_ok_iff, mapError_eq_ok_iff, Prod.exists,
      scanRequest_iff_copies dims sized]
    refine exists_congr fun place? => ?_
    constructor
    · rintro ⟨_, ⟨copies, given, rfl⟩, h⟩
      refine ⟨copies, ?_⟩
      cases place? with
      | none =>
        dsimp only at h
        split at h
        next same =>
          cases h
          exact .compared multiplies given same
        next => cases h
      | some place =>
        have positive := given_pos sized copies
        simp only [if_neg count] at h
        obtain ⟨extent, ⟨counts, range⟩, rfl⟩ := (division_eq_ok_iff positive).mp h
        exact .divided place extent multiplies given positive counts range
    · rintro ⟨copies, completes⟩
      cases completes with
      | compared _ given same =>
        exact ⟨_, ⟨copies, given, rfl⟩, if_pos same⟩
      | divided place extent _ given positive counts range =>
        refine ⟨_, ⟨copies, given, rfl⟩, ?_⟩
        simp only [if_neg count]
        exact (division_eq_ok_iff positive).mpr ⟨extent, ⟨counts, range⟩, rfl⟩

/-! ### The rule -/

/-- A request is met, or it is refused with a reason. -/
theorem requestedShape_refuses (dims requested : Dims) :
    Ends (fun e => ∃ reason, e = .invalid (.reshape dims requested reason)) (fun _ => True)
      (requestedShape dims requested) := by
  unfold requestedShape
  dsimp only
  split
  next => exact ⟨_, rfl⟩
  next =>
    cases volume : dims.volume with
    | none => exact ⟨_, rfl⟩
    | some total =>
      refine Ends.bind (Ends.mapError_any (fun _ _ => trivial) fun _ => ⟨_, rfl⟩) ?_
      rintro ⟨inferred, known⟩ scanned -
      obtain ⟨entries, product, -⟩ := scanRequest_eq_ok (mapError_eq_ok_iff.mp scanned)
      have positive : 0 < known := by
        rw [product, Int.one_mul]
        exact prod_given_pos entries
      obtain ⟨quotient, remainder⟩ :=
        Signed.divides_of_pos (ε := RuleError) (Dims.inRange_of_volume volume) positive
      cases inferred with
      | none =>
        dsimp only
        split
        · trivial
        · exact ⟨_, rfl⟩
      | some place =>
        simp only [remainder, quotient, ok_bind]
        split
        · exact ⟨_, rfl⟩
        · split
          · exact ⟨_, rfl⟩
          · trivial

variable {graph : Graph} {state : State} {node : Node} {v : ValueId} {operand : Argument}

/-- The node asks for a shape of an operand, which a constant lists, and has one output that is not
bound yet. -/
structure Requests (graph : Graph) (state : State) (node : Node) (operand : Argument) (v : ValueId)
    (type : TensorType) (requested : List Int) : Prop where
  signature : node.signature ∈ reshapingSignatures
  inputs : List.Forall₂ (fun id argument => argument? graph state id = some argument) node.inputs
    [operand, .constant (.ints requested)]
  outputs : node.outputs = [v]
  fresh : state.binding? v = none
  typed : operand.type? state.network = some type

/-- How a node that asks for a shape is refused: for dynamic shapes whatever it asks for, and otherwise
with a reason why the dimensions cannot be given the shape. -/
def RefusesRequest (state : State) (node : Node) (dims requested : Dims) (e : LoweringError) : Prop :=
  (state.settings.dynamicShape ∧ e = .rule (.node node) (.dynamicShape .dynamicReshape)) ∨
    (∀ t, requestedShape dims requested ≠ .ok t) ∧
      ∃ reason, e = .rule (.node node) (.invalid (.reshape dims requested reason))

/-- Lowering the node has added a shuffle to the target, whose result its output is bound to. -/
def EmitsReshape (state : State) (node : Node) (v : ValueId) (type : TensorType) (next : State) :
    Prop :=
  ∃ layers x z, state.Emits next layers v z type ∧
    ⟨layerName node "", .shuffle (.reshaping type.dims), [x], z⟩ ∈ layers

/-- Layers for a node of whose operands only the types are considered. -/
def Trial.ofTypes (state : State) : Trial where
  start := state
  Given _ := False
  fits := False

/-- A reshape to an inferred shape is a layer that is added. -/
theorem ends_reshapeTo {fair : RuleError → Prop} {s : State} {x : TensorId} {type : TensorType}
    (reaches : (Trial.ofTypes state).Reaches s)
    (recorded : s.network.types[x.index]? = some type)
    (inferred : inferShuffle type.dims (.reshaping target) = .ok target)
    (outputs : node.outputs = [v]) (fresh : state.binding? v = none) :
    (reshape node x target "" >>= fun z => bindOutput node z).EndsFrom s fair
      fun _ => EmitsReshape state node v ⟨type.dtype, target⟩ := by
  have added : (reshape node x target "").EndsFrom s fair fun z next =>
      (Trial.ofTypes state).Makes s ⟨type.dtype, target⟩ (fun _ _ => True) z next ∧
        next.network.layers = s.network.layers ++
          [⟨layerName node "", .shuffle (.reshaping target), [x], z⟩] := by
    have infers : (LayerKind.shuffle (.reshaping target)).Infers [type] ⟨type.dtype, target⟩ :=
      .shuffle inferred
    refine .perform rfl (.cons recorded .nil) infers ⟨?_, rfl⟩
    exact Trial.makes_push reaches rfl rfl rfl (fun impossible => impossible.elim)
      fun _ _ _ _ _ => trivial
  refine added.bind fun z s' ⟨made, layers⟩ => ?_
  have unbound : s'.binding? v = none := (made.reaches.binding?_eq v).trans fresh
  refine (ends_bindOutput made.holds.recorded outputs unbound).mono ?_
  rintro _ _ rfl
  obtain ⟨before, split⟩ : state.network.layers <+: s.network.layers := reaches.layers
  refine ⟨before ++ [⟨layerName node "", .shuffle (.reshaping target), [x], z⟩], x, z,
    ⟨?_, binding?_bound unbound, made.holds.recorded⟩, by simp⟩
  rw [← List.append_assoc, split]
  exact layers

namespace Requests

variable {dtype : DType}
  (requests : Requests graph state node operand v ⟨dtype, dims⟩ requested)
include requests

/-- The node becomes a shuffle to the requested shape, if there is one that inference accepts. -/
theorem ends (static : dims.isStatic)
    (accepted : ∀ t, requestedShape dims requested = .ok t →
      inferShuffle dims (.reshaping t) = .ok t) :
    (lowerNode .builtin graph node).EndsFrom state (RefusesRequest state node dims requested)
      fun _ next => ∃ t, requestedShape dims requested = .ok t ∧
        EmitsReshape state node v ⟨dtype, t⟩ next := by
  have found : RuleTable.builtin.find? node.signature = some reshapeTo := by
    have signature := requests.signature
    rw [reshapingSignatures, List.mem_pair] at signature
    rcases signature with same | same <;> rw [same] <;> rfl
  have reaches : (Trial.ofTypes state).Reaches state := Trial.reaches_start
  refine ends_lowerNode found requests.inputs requests.outputs ?_
  refine (Trial.ends_operandAt (P := fun _ _ => True) reaches (.refl _) rfl requests.typed
    fun _ given => given.elim).bind fun x s made => ?_
  refine .ofExcept_bind rfl (.gets_bind ?_)
  rw [show s.settings = state.settings from made.reaches.settings]
  split
  next dynamic => exact .inl ⟨dynamic, rfl⟩
  next =>
    refine .dimsOf_bind made.holds.recorded (.requireStatic_bind static ?_)
    rcases asked : requestedShape dims requested with e | t
    · have refuses := requestedShape_refuses dims requested
      rw [asked] at refuses
      obtain ⟨reason, rfl⟩ := refuses
      exact .inr ⟨fun t => by simp [asked], reason, rfl⟩
    · refine .ofExcept_bind rfl ?_
      refine (ends_reshapeTo made.reaches made.holds.recorded (accepted t asked) requests.outputs
        requests.fresh).mono fun _ next emitted => ⟨⟨t, rfl, emitted⟩, ?_⟩
      obtain ⟨_, _, z, emits, -⟩ := emitted
      exact ⟨z, _, emits.bound, emits.recorded⟩

end Requests

/-- What a target means for known dimensions without empty axes has no empty axis either, and is
accepted as a target itself. -/
theorem reshapes_again (positive : ∀ d ∈ dims, 1 ≤ d)
    (h : Reshapes (some requested) dims target) :
    (∀ d ∈ target, 0 < d) ∧ Reshapes (some target) dims target := by
  have static : dims.isStatic :=
    Dims.isStatic_iff.mpr fun d member => Int.le_of_lt (positive d member)
  obtain ⟨total, volume⟩ := h.volume_isSome static
  obtain ⟨static', counts⟩ := h.prod_eq static
  have nonzero : 0 ∉ dims := fun member => absurd (positive 0 member) (by decide)
  have nonzero' : 0 ∉ target := h.zero_notMem nonzero
  obtain ⟨shape, rfl⟩ := Dims.exists_toDims static
  obtain ⟨shape', rfl⟩ := Dims.exists_toDims static'
  have sizes : shape'.size = shape.size := by
    rw [Dims.prod_toDims, Dims.prod_toDims] at counts
    exact_mod_cast counts
  have extents : ∀ {s : Shape}, 0 ∉ s.toDims → ∀ n ∈ s, 0 < n := by
    intro s absent n member
    refine Nat.pos_of_ne_zero fun zero => absent ?_
    exact List.mem_map.mpr ⟨n, member, by rw [zero]; rfl⟩
  refine ⟨fun d member => ?_, ?_⟩
  · obtain ⟨n, listed, rfl⟩ := List.mem_map.mp member
    exact_mod_cast extents nonzero' n listed
  · exact reshapes_of_listed (extents nonzero) (extents nonzero') sizes
      (Shape.size_le_of_volume volume)

/-- For known dimensions without empty axes, a request without zeros means the same shape to the rule
that resolves it and to the network. The shape has no empty axis and means itself, so that a node that
asks for it becomes a shuffle which the network accepts. -/
theorem requested_shapes_are_inferred (positive : ∀ d ∈ dims, 1 ≤ d) (sized : 0 ∉ requested) :
    (∀ t, requestedShape dims requested = .ok t ↔
      inferShuffle dims (.reshaping requested) = .ok t) ∧
    (∀ t, requestedShape dims requested = .ok t →
      (∀ d ∈ t, 0 < d) ∧ inferShuffle dims (.reshaping t) = .ok t) ∧
    ∀ graph state node operand v dtype,
      Requests graph state node operand v ⟨dtype, dims⟩ requested →
      (∀ e next, (lowerNode .builtin graph node).run state = (.error e, next) →
        RefusesRequest state node dims requested e) ∧
      ∀ next, (lowerNode .builtin graph node).run state = (.ok (), next) →
        ∃ t, requestedShape dims requested = .ok t ∧ EmitsReshape state node v ⟨dtype, t⟩ next := by
  have static : dims.isStatic :=
    Dims.isStatic_iff.mpr fun d member => Int.le_of_lt (positive d member)
  have count : dims.prod ≠ 0 := by
    intro zero
    exact absurd (positive 0 (List.prod_eq_zero_iff.mp zero)) (by decide)
  have agree : ∀ t, requestedShape dims requested = .ok t ↔
      inferShuffle dims (.reshaping requested) = .ok t := by
    intro t
    rw [requestedShape_eq_ok_iff static count sized, Tensor.inferShuffle_reshaping,
      reshapes_iff_means static sized]
  have again : ∀ t, requestedShape dims requested = .ok t →
      (∀ d ∈ t, 0 < d) ∧ inferShuffle dims (.reshaping t) = .ok t := by
    intro t asked
    obtain ⟨extents, reshapes⟩ :=
      reshapes_again positive (Tensor.inferShuffle_reshaping.mp ((agree t).mp asked))
    exact ⟨extents, Tensor.inferShuffle_reshaping.mpr reshapes⟩
  refine ⟨agree, again, fun graph state node operand v dtype requests => ?_⟩
  have ends := requests.ends static fun t asked => (again t asked).2
  exact ⟨fun _ _ ran => ends.error ran, fun _ ran => ends.result ran⟩

/-- Without elements the two differ: nothing follows from their number for the rule. -/
example : inferShuffle [0, 3] (.reshaping [3, -1]) = .ok [3, 0] ∧
    requestedShape [0, 3] [3, -1] =
      .error (.invalid (.reshape [0, 3] [3, -1] .notDivisible)) := by
  constructor <;> rfl

/-- Asks for rows of a grid. -/
def viewingNode : Node :=
  ⟨⟨"aten::view(Tensor(a) self, int[] size) -> (Tensor(a))"⟩, [⟨0⟩, ⟨1⟩], [⟨2⟩]⟩

/-- The graph of that node. -/
def viewingGraph : Graph where
  values := [⟨"grid", .input .f32 [2, 3, 4]⟩, ⟨"size", .constant (.ints [6, -1])⟩,
    ⟨"rows", .tensor⟩]
  nodes := [viewingNode]
  inputs := [⟨0⟩]
  outputs := [⟨2⟩]

/-- The state in which the node is lowered. -/
def viewingState : State where
  settings := ⟨false, ⟨0, 8, 6⟩⟩
  network := ⟨[⟨"input_0", .f32, [2, 3, 4]⟩], [], [⟨0⟩], []⟩
  bindings := [(⟨0⟩, ⟨0⟩)]
  frozen := 0
  journal := []

theorem requests_viewing :
    Requests viewingGraph viewingState viewingNode (.tensor ⟨0⟩) ⟨2⟩ ⟨.f32, [2, 3, 4]⟩ [6, -1] where
  signature := by decide
  inputs := .cons rfl (.cons rfl .nil)
  outputs := rfl
  fresh := rfl
  typed := rfl

/-- A grid of six rows with four numbers each becomes a matrix of them. -/
theorem requested_shapes_are_inferred_viewed :
    inferShuffle [2, 3, 4] (.reshaping [6, -1]) = .ok [6, 4] ∧
    inferShuffle [2, 3, 4] (.reshaping [6, 4]) = .ok [6, 4] ∧
    ∃ next, (lowerNode .builtin viewingGraph viewingNode).run viewingState = (.ok (), next) ∧
      EmitsReshape viewingState viewingNode ⟨2⟩ ⟨.f32, [6, 4]⟩ next := by
  have asked : requestedShape [2, 3, 4] [6, -1] = .ok [6, 4] := by rfl
  have lowered : ∃ next, (lowerNode .builtin viewingGraph viewingNode).run viewingState =
      (.ok (), next) := ⟨_, rfl⟩
  have positive : ∀ d ∈ ([2, 3, 4] : Dims), 1 ≤ d := by decide
  have sized : 0 ∉ ([6, -1] : Dims) := by decide
  obtain ⟨agree, again, nodes⟩ := requested_shapes_are_inferred positive sized
  obtain ⟨next, ran⟩ := lowered
  obtain ⟨t, asked', emitted⟩ := (nodes _ _ _ _ _ _ requests_viewing).2 next ran
  obtain rfl : t = [6, 4] := Except.ok.inj (asked'.symm.trans asked)
  exact ⟨(agree _).mp asked, (again _ asked).2, next, ran, emitted⟩

end Lowering

end TensorEngine
