import TensorEngine.Proofs.Lowering.Graph
import TensorEngine.Proofs.Network.Words

/-!
# Rules keep to words

The rules of the library add layers whose numbers are words: the targets of their reshapes are made of
recorded extents, of products that fit and of requested sizes that divide them, and their constants
have the elements of constants of the graph. Lowering a graph whose numbers are words therefore
reaches a network by sized calls, whose inputs and outputs are those of the graph and no others.

## Main definitions

* `Argument.Compact`, `Rule.IsSized`: arguments whose constants have elements, and rules that only
  make sized calls on them
* `Graph.InWords`: graphs whose numbers are words
* `Network.Numbered`: networks whose inputs and outputs are named by their places

## Main results

* `inWords_of_flattenTarget`, `inWords_of_requestedShape`, `inWords_of_folding`: targets are words
* `isSized_builtin`: the rules of the library only make sized calls
* `lowering_reached`: the network of a lowered graph, its inputs and its outputs
-/

namespace TensorEngine

namespace Dims.InWords

variable {xs ys : Dims} {d : Int}

theorem nil : Dims.InWords [] :=
  nofun

theorem cons (first : Signed.InRange d) (rest : xs.InWords) : Dims.InWords (d :: xs) :=
  List.forall_mem_cons.mpr ⟨first, rest⟩

theorem append (h : xs.InWords) (h' : ys.InWords) : Dims.InWords (xs ++ ys) :=
  List.forall_mem_append.mpr ⟨h, h'⟩

theorem replicate (n : Nat) (range : Signed.InRange d) : Dims.InWords (List.replicate n d) :=
  fun _ member => List.eq_of_mem_replicate member ▸ range

theorem set (h : xs.InWords) (range : Signed.InRange d) (place : Nat) :
    Dims.InWords (xs.set place d) := by
  intro e member
  rcases List.mem_or_eq_of_mem_set member with old | rfl
  · exact h e old
  · exact range

theorem of_slice {ε : Type} [HasFault ε] {start stop : Nat} (h : xs.InWords)
    (cut : (slice xs start stop : Except ε Dims) = .ok ys) : ys.InWords := by
  obtain ⟨-, rfl⟩ := Lowering.slice_eq_ok_iff.mp cut
  exact fun d member => h d (List.mem_of_mem_drop (List.mem_of_mem_take member))

end Dims.InWords

theorem Signed.inRange_of_quotient {ε : Type} [HasFault ε] {a b q : Int}
    (h : (quotient a b : Except ε Int) = .ok q) : InRange q := by
  unfold quotient at h
  split at h
  next => cases h
  next =>
    split at h
    next range =>
      cases h
      exact range
    next => cases h

/-- The dimensions of inputs are words, and so are the numbers of bytes of constants. -/
structure Graph.InWords (graph : Graph) : Prop where
  inputs : ∀ id name dtype dims, graph.value id = .ok ⟨name, .input dtype dims⟩ → dims.InWords
  constants : ∀ id name t, graph.value id = .ok ⟨name, .constant (.tensor t)⟩ → t.Addressable

/-- Inputs and outputs are named by their places. -/
structure Network.Numbered (network : Network) : Prop where
  inputs : ∀ k x, network.inputs[k]? = some x → network.IsNamed x (.input k)
  outputs : ∀ k x, network.outputs[k]? = some x → network.IsNamed x (.output k)

namespace Lowering

open Program Network.Edit

variable {allowed : Network.Edit → Prop} {node : Node} {arguments : List Argument} {x y : TensorId}
  {dims target : Dims}

/-! ### Targets -/

theorem inRange_of_collapsedExtent {first last : Nat} {extent : Int}
    (h : collapsedExtent dims first last = .ok extent) : Signed.InRange extent := by
  obtain ⟨joined, -, h⟩ := bind_eq_ok_iff.mp h
  split at h
  next product =>
    cases h
    exact (Signed.product?_eq_some product).2
  next => cases h

/-- The target that joins a range of axes has recorded extents, and one that is computed. -/
theorem inWords_of_flattenTarget (words : dims.InWords) {dynamicShape : Bool} {first last : Nat}
    (h : flattenTarget dynamicShape dims first last = .ok target) : target.InWords := by
  unfold flattenTarget at h
  split at h
  next =>
    obtain ⟨trailing, cut, h⟩ := bind_eq_ok_iff.mp h
    obtain ⟨joined, -, h⟩ := bind_eq_ok_iff.mp h
    have trailingWords := words.of_slice cut
    have copies := Dims.InWords.replicate (d := 0) first (by decide)
    dsimp only at h
    split at h
    next =>
      cases h
      exact copies.append (.cons (by decide) trailingWords)
    next =>
      split at h
      next =>
        obtain ⟨extent, collapsed, h⟩ := bind_eq_ok_iff.mp h
        cases h
        exact copies.append (.cons (inRange_of_collapsedExtent collapsed) trailingWords)
      next => cases h
  next =>
    obtain ⟨leading, cut, h⟩ := bind_eq_ok_iff.mp h
    obtain ⟨extent, collapsed, h⟩ := bind_eq_ok_iff.mp h
    obtain ⟨trailing, cut', h⟩ := bind_eq_ok_iff.mp h
    cases h
    exact (words.of_slice cut).append
      (.cons (inRange_of_collapsedExtent collapsed) (words.of_slice cut'))

/-- Sizes of a request whose product fits are words. -/
theorem inWords_of_scanRequest {sizes : List Int} {place : Nat} {inferred : Option Nat}
    {known : Int} {result : Option Nat × Int} (positive : 0 < known)
    (h : scanRequest place inferred known sizes = .ok result) : Dims.InWords sizes := by
  induction sizes generalizing place inferred known with
  | nil => exact .nil
  | cons d sizes ih =>
    unfold scanRequest at h
    split at h
    next minusOne =>
      subst minusOne
      split at h
      next => cases h
      next => exact .cons (by decide) (ih positive h)
    next =>
      split at h
      next size =>
        split at h
        -- A positive factor is at most the product, which fits.
        next product fits =>
          obtain ⟨range, rfl⟩ := Signed.mul?_eq_some_iff.mp fits
          have factor : d ≤ known * d := by
            simpa using Int.mul_le_mul_of_nonneg_right positive (Int.le_of_lt size)
          refine .cons ⟨?_, Int.le_trans factor range.2⟩ (ih (Int.mul_pos positive size) h)
          exact Int.le_trans (by decide) (Int.le_of_lt size)
        next => cases h
      next => split at h <;> cases h

/-- The target of a request has its sizes, and one that is inferred. -/
theorem inWords_of_requestedShape {requested : List Int}
    (h : requestedShape dims requested = .ok target) : target.InWords := by
  unfold requestedShape at h
  dsimp only at h
  split at h
  next => cases h
  next =>
    split at h
    next => cases h
    next total volume =>
      obtain ⟨⟨inferred, known⟩, scanned, h⟩ := bind_eq_ok_iff.mp h
      have sizes := inWords_of_scanRequest (by decide) (mapError_eq_ok_iff.mp scanned)
      dsimp only at h
      split at h
      next place =>
        split at h
        next => cases h
        next =>
          obtain ⟨rest, -, h⟩ := bind_eq_ok_iff.mp h
          split at h
          next => cases h
          next =>
            obtain ⟨extent, quotient, h⟩ := bind_eq_ok_iff.mp h
            cases h
            exact sizes.set (Signed.inRange_of_quotient quotient) place
      next =>
        split at h
        next =>
          cases h
          exact sizes
        next => cases h

theorem inWords_of_folding (words : dims.InWords) {plan : Folding}
    (h : folding dims = .ok plan) : plan.folded.InWords ∧ plan.unfolded.InWords := by
  obtain ⟨last, -, h⟩ := bind_eq_ok_iff.mp h
  obtain ⟨rows, cut, h⟩ := bind_eq_ok_iff.mp h
  split at h
  next => cases h
  next count product =>
    obtain ⟨columns, found, h⟩ := bind_eq_ok_iff.mp h
    cases h
    have column := words columns (List.mem_of_getElem? (entry_eq_ok_iff.mp found))
    exact ⟨.cons (Signed.product?_eq_some product).2 (.cons column .nil),
      (words.of_slice cut).append (.cons (by decide) .nil)⟩

theorem inWords_of_squeezedDims (words : dims.InWords) {liftedLhs liftedRhs : Bool}
    (h : squeezedDims dims liftedLhs liftedRhs = .ok target) : target.InWords := by
  -- Whichever operands were lifted, the target keeps some of the extents.
  obtain ⟨places, rfl⟩ : ∃ places, target = withoutPlaces places dims := by
    unfold squeezedDims at h
    dsimp only at h
    split at h <;> obtain ⟨row, -, h⟩ := bind_eq_ok_iff.mp h <;>
      split at h <;> obtain ⟨column, -, h⟩ := bind_eq_ok_iff.mp h <;>
      exact ⟨row ++ column, (Except.ok.inj h).symm⟩
  intro d member
  obtain ⟨⟨_, place⟩, listed, rfl⟩ := List.mem_map.mp member
  exact words _ (List.fst_mem_of_mem_zipIdx (List.mem_filter.mp listed).1)

/-! ### Steps -/

/-- A call that adds a layer of a sized kind is sized. -/
theorem adds_layer {e : Network.Edit} {kind : LayerKind} (adds : e.kind? = some kind)
    (sized : kind.Sized) : Adds Sized (Lowering.perform e) fun _ => True :=
  .perform adds (sized_of_kind? adds sized)

/-- Recorded dimensions are words. -/
theorem adds_dimsOf (x : TensorId) : Adds Sized (dimsOf x) fun dims => dims.InWords := by
  refine (Adds.tensorOf x).bind fun t ⟨network, reached, known⟩ => .pure ?_
  -- The network at this point was itself reached by sized calls.
  have recorded := Network.types_getElem?_of_tensor known
  exact reached.dims_inWords_of_dims (fun _ call => call.dims) t.type (List.mem_of_getElem? recorded)

theorem adds_constant {name : String} {weights : Tensor} (compact : weights.Compact) :
    Adds Sized (Lowering.perform (.addConstant name weights)) fun _ => True :=
  .perform rfl (sized_of_kind? rfl compact.stored)

theorem adds_requireStatic {activity : String} :
    Adds allowed (requireStatic dims activity) fun _ => True := by
  unfold requireStatic
  split
  next => exact .done trivial
  next => exact .inspect fun _ _ => .refuse _

theorem adds_reshape {part : String} (words : target.InWords) :
    Adds Sized (reshape node x target part) fun _ => True :=
  adds_layer rfl ⟨rfl, fun _ given => Option.some.inj given ▸ words⟩

theorem adds_expandRank {rank : Nat} {part : String} :
    Adds Sized (expandRank node x rank part) fun _ => True := by
  refine (adds_dimsOf x).bind fun dims words => ?_
  split
  next => exact .pure trivial
  next =>
    refine adds_requireStatic.bind fun _ _ => ?_
    refine (Adds.ofExcept fun _ => id).bind fun target expanded => adds_reshape ?_
    obtain ⟨missing, -, same⟩ := bind_eq_ok_iff.mp expanded
    cases same
    exact (Dims.InWords.replicate missing (by decide)).append words

/-- An argument that is a constant tensor has elements, and the number of its bytes is a word. -/
def Argument.Compact (argument : Argument) : Prop :=
  ∀ t, argument = .constant (.tensor t) → t.Compact

theorem Argument.Compact.constantTensor {argument : Argument} (h : argument.Compact)
    {weights : Tensor} (read : argument.constantTensor = .ok weights) : weights.Compact := by
  refine h weights ?_
  cases argument with
  | tensor => cases read
  | constant c =>
    cases c with
    | tensor => cases read; rfl
    | none | bool | int | double | ints => cases read

/-- On arguments whose constants have elements, the rule only makes sized calls. -/
def Rule.IsSized (rule : Rule) : Prop :=
  ∀ (node : Node) (arguments : List Argument), (∀ argument ∈ arguments, argument.Compact) →
    Adds Sized (rule node arguments) fun _ => True

variable (compact : ∀ argument ∈ arguments, argument.Compact)
include compact

theorem compact_of_argumentAt {position : Nat} {argument : Argument}
    (h : argumentAt arguments position = .ok argument) : argument.Compact := by
  unfold argumentAt at h
  split at h
  next entry =>
    cases h
    exact compact _ (List.mem_of_getElem? entry)
  next => cases h

theorem adds_operandAt {position : Nat} :
    Adds Sized (operandAt arguments position) fun _ => True := by
  refine (Adds.ofExcept fun _ => id).bind fun argument found => ?_
  have elements := compact_of_argumentAt compact found
  cases argument with
  | tensor => exact .done trivial
  | constant c =>
    cases c with
    | tensor t => exact .frozen fun _ => sized_of_kind? rfl (elements t rfl).stored
    | none | bool | int | double | ints => exact .refuse _

theorem adds_factors : Adds Sized (factors arguments) fun _ => True := by
  have floating : ∀ x, Adds Sized (requireFloatingPoint x) fun _ => True := by
    intro x
    refine (Adds.tensorOf x).bind fun record _ => ?_
    dsimp only
    split
    next => exact .pure trivial
    next => exact .refuse _
  refine (adds_operandAt compact).bind fun x _ => (adds_operandAt compact).bind fun y _ => ?_
  exact (floating x).bind fun _ _ => (floating y).bind fun _ _ => .pure trivial

theorem adds_broadcastOperands : Adds Sized (broadcastOperands node arguments) fun _ => True := by
  refine (adds_operandAt compact).bind fun x _ => (adds_operandAt compact).bind fun y _ => ?_
  refine (adds_dimsOf x).bind fun dimsA _ => (adds_dimsOf y).bind fun dimsB _ => ?_
  exact adds_expandRank.bind fun _ _ => adds_expandRank.bind fun _ _ => .pure trivial

omit compact

/-! ### Products -/

theorem adds_multiply : Adds Sized (multiply node x y) fun _ => True :=
  adds_layer rfl trivial

theorem adds_foldedProduct (words : dims.InWords) :
    Adds Sized (foldedProduct node x dims y) fun _ => True := by
  refine adds_requireStatic.bind fun _ _ => ?_
  refine (Adds.ofExcept fun _ => id).bind fun plan folded => ?_
  obtain ⟨foldedWords, unfoldedWords⟩ := inWords_of_folding words folded
  refine (adds_reshape foldedWords).bind fun _ _ => ?_
  exact adds_multiply.bind fun _ _ => adds_reshape unfoldedWords

theorem adds_stackedProduct : Adds Sized (stackedProduct node x y) fun _ => True := by
  refine (adds_dimsOf x).bind fun dimsA words => (adds_dimsOf y).bind fun dimsB _ => ?_
  split
  next => exact adds_foldedProduct words
  next => exact adds_expandRank.bind fun _ _ => adds_expandRank.bind fun _ _ => adds_multiply

theorem adds_lift {part : String} (words : target.InWords) :
    Adds Sized (lift node x dims target part) fun _ => True :=
  adds_requireStatic.bind fun _ _ => adds_reshape words

theorem isSized_matmul : Rule.IsSized matmul := by
  intro node arguments compact
  refine (adds_factors compact).bind fun (x, y) _ => ?_
  refine (adds_dimsOf x).bind fun dimsA _ => (adds_dimsOf y).bind fun dimsB _ => ?_
  split
  next => exact .refuse _
  next =>
    refine Adds.ite_bind (fun _ => adds_lift (by decide)) (fun _ => .pure trivial) fun x' _ => ?_
    refine Adds.ite_bind (fun _ => adds_lift (by decide)) (fun _ => .pure trivial) fun y' _ => ?_
    refine adds_stackedProduct.bind fun z _ => ?_
    split
    next =>
      refine (adds_dimsOf z).bind fun dims words => adds_requireStatic.bind fun _ _ => ?_
      refine (Adds.ofExcept fun _ => id).bind fun target squeezed => ?_
      exact (adds_reshape (inWords_of_squeezedDims words squeezed)).bind fun _ _ => .bindOutput _ _
    next => exact .bindOutput _ _

theorem isSized_productOfRank (operation : String) (rank : Nat) :
    Rule.IsSized (productOfRank operation rank) := by
  intro node arguments compact
  have ranked : ∀ x, Adds Sized (requireRank operation rank x) fun _ => True := by
    intro x
    refine (adds_dimsOf x).bind fun dims _ => ?_
    split
    next => exact .pure trivial
    next => exact .refuse _
  refine (adds_factors compact).bind fun (x, y) _ => ?_
  refine (ranked x).bind fun _ _ => (ranked y).bind fun _ _ => ?_
  exact adds_multiply.bind fun _ _ => .bindOutput _ _

/-! ### Elementwise operations -/

theorem adds_combine {op : ElementWiseOp} {part : String} :
    Adds Sized (combine node x y op part) fun _ => True :=
  adds_layer rfl trivial

theorem compact_of_scalarTensor {rank : Nat} {pattern : UInt32} {weights : Tensor}
    (h : scalarTensor rank pattern = .ok weights) : weights.Compact := by
  obtain ⟨product, -, shape, data⟩ := Tensor.ofBytes_eq_ok_iff.mp (mapError_eq_ok_iff.mp h)
  refine .of_addressable ?_ (shape ▸ by simp)
  exact Unsigned.product?_lt (by decide) (data ▸ product)

theorem adds_scale {factor : UInt64} : Adds Sized (scale node x factor) fun _ => True := by
  unfold scale
  split
  next => exact .pure trivial
  next =>
    refine (Adds.tensorOf x).bind fun record _ => ?_
    split
    next => exact .refuse _
    next =>
      refine (Adds.ofExcept fun _ => id).bind fun weights scalar => ?_
      exact (adds_constant (compact_of_scalarTensor scalar)).bind fun _ _ => adds_combine

theorem isSized_scaled (op : ElementWiseOp) : Rule.IsSized (scaled op) := by
  intro node arguments compact
  refine (adds_broadcastOperands compact).bind fun (x, y) _ => ?_
  refine (Adds.ofExcept fun _ _ => trivial).bind fun factor _ => adds_scale.bind fun y' _ => ?_
  exact adds_combine.bind fun _ _ => .bindOutput _ _

theorem isSized_elementProduct : Rule.IsSized elementProduct := by
  intro node arguments compact
  refine (adds_broadcastOperands compact).bind fun (x, y) _ => ?_
  exact adds_combine.bind fun _ _ => .bindOutput _ _

/-! ### Shuffles and constants -/

theorem isSized_flatten : Rule.IsSized flatten := by
  intro node arguments compact
  refine (adds_operandAt compact).bind fun x _ => (adds_dimsOf x).bind fun dims words => ?_
  split
  next => exact (adds_reshape (by decide)).bind fun _ _ => .bindOutput _ _
  next =>
    refine (Adds.ofExcept fun _ _ => trivial).bind fun first _ => ?_
    refine (Adds.ofExcept fun _ _ => trivial).bind fun last _ => ?_
    split
    next => exact .refuse _
    next =>
      refine (Adds.gets _).bind fun dynamicShape _ => ?_
      refine (Adds.ofExcept fun _ => id).bind fun target joined => ?_
      exact (adds_reshape (inWords_of_flattenTarget words joined)).bind fun _ _ => .bindOutput _ _

theorem isSized_reshapeTo : Rule.IsSized reshapeTo := by
  intro node arguments compact
  refine (adds_operandAt compact).bind fun x _ => ?_
  refine (Adds.ofExcept fun _ _ => trivial).bind fun requested _ => ?_
  refine (Adds.gets _).bind fun dynamicShape _ => ?_
  split
  next => exact .refuse _
  next =>
    refine (adds_dimsOf x).bind fun dims _ => adds_requireStatic.bind fun _ _ => ?_
    refine (Adds.ofExcept fun _ => id).bind fun target meant => ?_
    exact (adds_reshape (inWords_of_requestedShape meant)).bind fun _ _ => .bindOutput _ _

/-- A transposition alone is sized, whatever its axes are. -/
theorem adds_transpose {name : String} {order : List Nat} :
    Adds Sized (Lowering.perform (.addShuffle name x (.transposing order))) fun _ => True :=
  adds_layer rfl ⟨rfl, nofun⟩

theorem isSized_permuteAxes : Rule.IsSized permuteAxes := by
  intro node arguments compact
  refine (adds_operandAt compact).bind fun x _ => (adds_dimsOf x).bind fun dims _ => ?_
  refine (Adds.ofExcept fun _ _ => trivial).bind fun order _ => ?_
  exact adds_transpose.bind fun _ _ => .bindOutput _ _

theorem isSized_transposeAll : Rule.IsSized transposeAll := by
  intro node arguments compact
  refine (Adds.ofExcept fun _ => id).bind fun argument found => ?_
  have elements := compact_of_argumentAt compact found
  split
  next c =>
    refine (Adds.ofExcept fun _ => id).bind fun weights read => ?_
    refine (Adds.ofExcept fun _ => id).bind fun transposed moved => ?_
    -- A constant is transposed before it is frozen, and keeps its elements.
    have turned := (elements.constantTensor read).permute (mapError_eq_ok_iff.mp moved)
    exact (adds_constant turned).bind fun _ _ => .bindOutput _ _
  next x =>
    refine (adds_dimsOf x).bind fun dims _ => ?_
    exact adds_transpose.bind fun _ _ => .bindOutput _ _

theorem isSized_constantTensor : Rule.IsSized constantTensor := by
  intro node arguments compact
  refine (Adds.ofExcept fun _ => id).bind fun weights read => ?_
  obtain ⟨argument, found, read⟩ := bind_eq_ok_iff.mp read
  have elements := (compact_of_argumentAt compact found).constantTensor read
  exact (adds_constant elements).bind fun _ _ => .bindOutput _ _

/-- Every rule of the library only makes sized calls. -/
theorem isSized_builtin {signature : Signature} {rule : Rule}
    (found : RuleTable.builtin.find? signature = some rule) : rule.IsSized := by
  have all : ∀ entry ∈ builtinRules, Rule.IsSized entry.2 := by
    simp only [builtinRules, List.forall_mem_cons]
    exact ⟨isSized_matmul, isSized_productOfRank _ _, isSized_productOfRank _ _, isSized_flatten,
      isSized_reshapeTo, isSized_reshapeTo, isSized_permuteAxes, isSized_transposeAll,
      isSized_scaled _, isSized_scaled _, isSized_scaled _, isSized_elementProduct,
      isSized_constantTensor, nofun⟩
  exact all (signature, rule) (mem_of_lookup found)

/-! ### Graphs -/

variable {graph : Graph} (words : graph.InWords) (extents : NoEmptyConstants graph)

theorem adds_checkBound (ids : List ValueId) :
    Adds allowed (checkBound node ids) fun _ => True := by
  induction ids with
  | nil => exact .done trivial
  | cons id ids ih =>
    refine (Adds.gets _).bind fun bound _ => ?_
    split
    next => exact .refuse _
    next =>
      refine (Adds.gets _).bind fun network _ => ?_
      exact (Adds.ofExcept fun _ _ => trivial).bind fun _ _ => ih

include words in
/-- Lowering itself makes sized calls. -/
theorem allows_sized (extents : NoEmptyConstants graph) : Allows graph Sized where
  input known text := ⟨fun _ _ _ same => by cases same; exact words.inputs _ _ _ _ known, nofun⟩
  constant known text := sized_of_kind? rfl
    (Tensor.Compact.of_addressable (words.constants _ _ _ known) (extents _ _ _ known)).stored
  copy text x := sized_of_kind? rfl ⟨rfl, nofun⟩
  mark x text := ⟨nofun, nofun⟩

include words extents

/-- A constant tensor that a node is given has elements. -/
theorem adds_argumentOf (id : ValueId) :
    Adds allowed (argumentOf graph node id) Argument.Compact := by
  refine (adds_ofGraph _).bind fun value known => ?_
  split
  next c isConstant =>
    refine .pure fun t same => ?_
    cases same
    have constant := constant_of_value known isConstant
    exact .of_addressable (words.constants _ _ _ constant) (extents _ _ _ constant)
  next =>
    refine (Adds.gets _).bind fun bound _ => ?_
    split
    next => exact .pure nofun
    next => exact .refuse _

theorem adds_argumentsOf (ids : List ValueId) :
    Adds allowed (argumentsOf graph node ids) fun arguments =>
      ∀ argument ∈ arguments, argument.Compact := by
  induction ids with
  | nil => exact .done nofun
  | cons id ids ih =>
    refine (adds_argumentOf words extents id).bind fun argument first => ?_
    exact ih.bind fun arguments rest => .pure (List.forall_mem_cons.mpr ⟨first, rest⟩)

/-- Nodes are lowered by sized calls. -/
theorem adds_lowerNodes (order : List Nat) :
    Adds Sized (lowerNodes .builtin graph order) fun _ => True := by
  -- Only the rule of a node adds layers; its arguments are read and its outputs are checked.
  have lowers : ∀ node, Adds Sized (lowerNode .builtin graph node) fun _ => True := by
    intro node
    unfold lowerNode
    split
    next => exact .refuse _
    next rule found =>
      refine (adds_argumentsOf words extents node.inputs).bind fun arguments compact => ?_
      exact (isSized_builtin found node arguments compact).mapError.bind fun _ _ =>
        adds_checkBound node.outputs
  induction order with
  | nil => exact .done trivial
  | cons position order ih =>
    exact (Adds.ofExcept fun _ _ => trivial).bind fun node _ => (lowers node).bind fun _ _ => ih

/-- A graph is lowered by sized calls. The network has as many inputs and outputs as the graph, named
by their places. -/
theorem lowering_reached {settings : Settings} {state : State}
    (ran : (lowering .builtin graph).run (.start settings) = (.ok (), state)) :
    state.network.Reached Sized ∧ state.network.inputs.length = graph.inputs.length ∧
      state.network.outputs.length = graph.outputs.length ∧ state.network.Numbered := by
  obtain ⟨order, start, ranOrder, ran⟩ := run_bind_eq_ok_iff.mp ran
  obtain ⟨ordered, rfl⟩ := run_ofExcept_eq_ok_iff.mp ranOrder
  obtain ⟨_, first, ranInputs, ran⟩ := run_bind_eq_ok_iff.mp ran
  obtain ⟨_, second, ranNodes, ranOutputs⟩ := run_bind_eq_ok_iff.mp ran
  have allows := allows_sized words extents
  obtain ⟨-, reached, xs, length, inputs1, outputs1, -, records⟩ :=
    lowerInputs_eq_ok (Graph.inputs_of_order (mapError_eq_ok_iff.mp ordered)) ranInputs
  obtain ⟨reached2, inputs2, outputs2, -⟩ :=
    adds_lowerNodes words extents order first (reached Sized allows .empty)
  rw [ranNodes] at reached2 inputs2 outputs2
  obtain ⟨reached3, inputs3, ys, length', outputs3, named⟩ :=
    lowerOutputs_marks allows reached2 ranOutputs
  -- The network starts without inputs and outputs, and nodes add none.
  have inputs_eq : state.network.inputs = xs := inputs3.trans (inputs2.trans inputs1)
  have outputs_eq : state.network.outputs = ys := by
    rw [outputs3, outputs2, outputs1]
    rfl
  refine ⟨reached3, inputs_eq ▸ length, outputs_eq ▸ length', fun k x input => ?_,
    fun k x output => ?_⟩
  · obtain ⟨_, _, dtype, dims, _, _, record⟩ := records k x (inputs_eq ▸ input)
    rw [Nat.zero_add] at record
    have input' : first.network.inputs[k]? = some x := inputs1.symm ▸ inputs_eq ▸ input
    have grown := (grows_of_run ranNodes).trans (grows_of_run ranOutputs)
    exact Network.IsNamed.grows ⟨_, record, rfl⟩ grown
      (List.mem_append_left _ (List.mem_of_getElem? input'))
  · have name := (named k x (outputs_eq ▸ output)).1
    rwa [Nat.zero_add] at name

end Lowering

end TensorEngine
