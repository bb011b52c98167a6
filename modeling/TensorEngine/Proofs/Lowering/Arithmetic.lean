import TensorEngine.Proofs.Execution.Refusals
import TensorEngine.Proofs.Lowering.Broadcasting
import TensorEngine.Proofs.Lowering.Flattening
import TensorEngine.Proofs.Lowering.Requests
import TensorEngine.Proofs.Lowering.Sizes
import TensorEngine.Proofs.Network.Representable
import TensorEngine.Proofs.Tensor.Made

/-!
# Arithmetic of rules

Rules compute with axes, extents and requested sizes that anyone may choose. Each of these computations
is safe because of a check made somewhere else: an axis is below the rank because it was normalized, a
range of axes is not reversed, a product that does not fit is refused before it is used, and a divisor is
a product of sizes that were found positive. So none of them runs into a fault, and what they compute is
representable again.

## Main definitions

* `RuleError.isOrderly`: errors that are no faults
* `Constant.Representable`, `Argument.Representable`: numbers of constants that a machine can represent
* `FlattenRefusal`: why axes are not joined

## Main results

* `normalizeAxis_eq`, `flattenTarget_ends`, `requestedShape_ends`, `folding_ends`, `exists_squeezed`,
  `expandedDims_eq_ok`: what the computations of the rules end with
-/

namespace TensorEngine

/-- Errors that are fair remain so where more errors are. -/
theorem Ends.fairly {ε α : Type} {fair fair' : ε → Prop} {post : α → Prop} {x : Except ε α}
    (h : Ends fair post x) (weaker : ∀ e, fair e → fair' e) : Ends fair' post x := by
  cases x with
  | ok a => exact h
  | error e => exact weaker e h

/-- A promise about results may be checked result by result. -/
theorem Ends.refined {ε α : Type} {fair : ε → Prop} {post post' : α → Prop} {x : Except ε α}
    (h : Ends fair post x) (result : ∀ a, x = .ok a → post a → post' a) : Ends fair post' x := by
  cases x with
  | ok a => exact result a rfl h
  | error e => exact h

theorem slice_orderly {ε α : Type} [HasFault ε] {fair : ε → Prop} {xs : List α} {start stop : Nat}
    (order : start ≤ stop) (within : stop ≤ xs.length) :
    Ends fair (fun ys => ys = (xs.drop start).take (stop - start)) (slice xs start stop) := by
  rw [slice, if_pos ⟨order, within⟩]
  exact rfl

theorem Unsigned.sub_orderly {ε : Type} [HasFault ε] {fair : ε → Prop} {a b : Nat} (le : b ≤ a) :
    Ends fair (fun c => c = a - b) (Unsigned.sub a b) := by
  rw [Unsigned.sub, if_pos le]
  exact rfl

/-- The error is a refusal, and not a fault of the computation. -/
def RuleError.isOrderly : RuleError → Bool
  | .invalid _ | .dynamicShape _ => true
  | .network error => error.isOrderly
  | .tensor error => error.isOrderly
  | .fault _ => false

/-! ### Constants -/

/-- An integer is a word, a list of integers holds words, and a tensor counts its elements, its strides
and its axes with words. -/
def Constant.Representable : Constant → Prop
  | .int i => Signed.InRange i
  | .ints is => Dims.Representable is
  | .tensor t => t.shape.Counts ∧ (t.rank : Int) ≤ Signed.greatest
  | .none | .bool _ | .double _ => True

namespace Lowering

variable {dims target : Dims} {first last rank : Nat}

/-- The constant that an argument may be is representable. -/
def Argument.Representable (argument : Argument) : Prop :=
  ∀ c, argument = .constant c → c.Representable

namespace Argument.Representable

variable {argument : Argument} (h : argument.Representable)
include h

theorem int : Ends (fun e => e.isOrderly) Signed.InRange argument.int := by
  unfold Argument.int
  split
  next i => exact h _ rfl
  next => exact rfl

theorem ints : Ends (fun e => e.isOrderly) Dims.Representable argument.ints := by
  unfold Argument.ints
  split
  next is => exact h _ rfl
  next => exact rfl

theorem constantTensor :
    Ends (fun e => e.isOrderly) (fun t => (t.rank : Int) ≤ Signed.greatest) argument.constantTensor := by
  unfold Argument.constantTensor
  split
  next t => exact (h _ rfl).2
  next => exact rfl

end Argument.Representable

theorem argumentAt_orderly {arguments : List Argument} {position : Nat}
    (representable : ∀ argument ∈ arguments, argument.Representable) :
    Ends (fun e => e.isOrderly) Argument.Representable (argumentAt arguments position) := by
  unfold argumentAt
  split
  next entry => exact representable _ (List.mem_of_getElem? entry)
  next => exact rfl

theorem scaleFactor_orderly (arguments : List Argument) :
    Ends (fun e => e.isOrderly) (fun _ => True) (scaleFactor arguments) := by
  unfold scaleFactor
  split
  next => trivial
  next argument _ =>
    split
    next => trivial
    next =>
      unfold Argument.scalar
      split <;> trivial

/-! ### Axes -/

/-- An axis is found, or it is refused because there is none: the number of axes is added to negative
words only, so the sum is a word. -/
theorem normalizeAxis_eq {axis : Int} (range : Signed.InRange axis)
    (bounded : (rank : Int) ≤ Signed.greatest) : normalizeAxis axis rank =
      (axis? rank axis).elim (.error (.invalid (.axisOutOfRange axis rank))) .ok := by
  have compared : ∀ wrapped : Int,
      (if 0 ≤ wrapped ∧ wrapped < rank then pure wrapped.toNat
        else throw (.invalid (.axisOutOfRange axis rank)) : Except RuleError Nat) =
      (if 0 ≤ wrapped ∧ wrapped < rank then some wrapped.toNat else none).elim
        (.error (.invalid (.axisOutOfRange axis rank))) .ok := by
    intro wrapped
    split <;> rfl
  unfold normalizeAxis axis?
  split
  next negative =>
    have sum : (Signed.add axis rank : Except RuleError Int) = .ok (axis + rank) := by
      rw [Signed.add, if_pos]
      obtain ⟨low, -⟩ := range
      exact ⟨by omega, by omega⟩
    rw [sum]
    exact compared _
  next => exact compared axis

theorem normalizeAxis_orderly {axis : Int} (range : Signed.InRange axis)
    (bounded : (rank : Int) ≤ Signed.greatest) :
    Ends (fun e => e.isOrderly) (fun k => k < rank) (normalizeAxis axis rank) := by
  rw [normalizeAxis_eq range bounded]
  cases named : axis? rank axis with
  | none => exact rfl
  | some k => exact lt_of_axis? named

theorem axisAt_orderly {arguments : List Argument} {position : Nat}
    (representable : ∀ argument ∈ arguments, argument.Representable)
    (bounded : (rank : Int) ≤ Signed.greatest) :
    Ends (fun e => e.isOrderly) (fun k => k < rank) (axisAt arguments position rank) :=
  (argumentAt_orderly representable).bind fun _ _ held => held.int.bind fun _ _ range =>
    normalizeAxis_orderly range bounded

theorem axisOrder_orderly {axes : List Int} (representable : Dims.Representable axes)
    (bounded : (rank : Int) ≤ Signed.greatest) :
    Ends (fun e => e.isOrderly) (IsPermutation · rank) (axisOrder axes rank) := by
  have normalized : Ends (fun e => e.isOrderly) (fun order => ∀ k ∈ order, k < rank)
      (axes.mapM (normalizeAxis · rank)) :=
    .mapM fun axis member => normalizeAxis_orderly (representable.1 axis member) bounded
  refine normalized.bind fun order _ _ => ?_
  split
  next permutation => exact permutation
  next => exact rfl

/-! ### Reshape targets -/

/-- Joining a range of axes is refused if the product of their extents is no word, or if an extent that
changes its place is unknown. -/
def FlattenRefusal (dims : Dims) (first last : Nat) (e : RuleError) : Prop :=
  e = .invalid (.flattenOverflows first last dims) ∧
      Signed.product? ((dims.drop first).take (last + 1 - first)) = none ∨
    e = .dynamicShape (.flattenUnknown first last dims) ∧ ¬ dims.isStatic

theorem FlattenRefusal.isOrderly {e : RuleError} (h : FlattenRefusal dims first last e) :
    e.isOrderly := by
  rcases h with ⟨rfl, -⟩ | ⟨rfl, -⟩ <;> rfl

theorem collapsedExtent_orderly (order : first ≤ last) (within : last < dims.length) :
    Ends (FlattenRefusal dims first last) (fun _ => True) (collapsedExtent dims first last) := by
  refine (slice_orderly (by omega) within).bind fun joined _ cut => ?_
  subst cut
  split
  next => trivial
  next overflow => exact .inl ⟨rfl, overflow⟩

/-- The axes are cut where the range starts and behind its end, both of which are places of the
dimensions or the place behind them. -/
theorem flattenTarget_ends (representable : dims.Representable) (dynamicShape : Bool)
    (order : first ≤ last) (within : last < dims.length) :
    Ends (FlattenRefusal dims first last) Dims.Representable
      (flattenTarget dynamicShape dims first last) := by
  have ends : Ends (FlattenRefusal dims first last) (fun target => target.rank ≤ dims.rank)
      (flattenTarget dynamicShape dims first last) := by
    unfold flattenTarget
    split
    next =>
      refine (slice_orderly within le_rfl).bind fun trailing _ behind => ?_
      refine (slice_orderly (by omega) within).bind fun joined _ _ => ?_
      -- However the joined axes are written, they become one.
      have rank : ∀ d : Int, Dims.rank (List.replicate first 0 ++ d :: trailing) ≤ dims.rank := by
        intro d
        simp only [Dims.rank, List.length_append, List.length_replicate, List.length_cons, behind,
          List.length_take, List.length_drop] at within ⊢
        omega
      dsimp only
      split
      next => exact rank _
      next some =>
        split
        next => exact (collapsedExtent_orderly order within).bind fun extent _ _ => rank extent
        next =>
          refine .inr ⟨rfl, fun static => some (List.countP_eq_zero.mpr fun d member => ?_)⟩
          have known := Dims.isStatic_iff.mp static d
            (List.mem_of_mem_drop (List.mem_of_mem_take (behind ▸ member)))
          simpa using known
    next =>
      refine (slice_orderly (Nat.zero_le _) (by omega)).bind fun leading _ before => ?_
      refine (collapsedExtent_orderly order within).bind fun extent _ _ => ?_
      refine (slice_orderly within le_rfl).bind fun trailing _ behind => ?_
      change Dims.rank (leading ++ extent :: trailing) ≤ dims.rank
      simp only [Dims.rank, List.length_append, List.length_cons, before, behind, List.length_take,
        List.length_drop] at within ⊢
      omega
  exact ends.refined fun target joined rank => ⟨inWords_of_flattenTarget representable.1 joined,
    Int.le_trans (Int.ofNat_le.mpr rank) representable.2⟩

theorem flattenTarget_orderly (representable : dims.Representable) {dynamicShape : Bool}
    (order : first ≤ last) (within : last < dims.length) :
    Ends (fun e => e.isOrderly) Dims.Representable (flattenTarget dynamicShape dims first last) :=
  (flattenTarget_ends representable dynamicShape order within).fairly fun _ refused =>
    refused.isOrderly

theorem rank_of_requestedShape {requested : List Int}
    (h : requestedShape dims requested = .ok target) : target.rank = requested.length := by
  unfold requestedShape at h
  dsimp only at h
  split at h
  next => cases h
  next =>
    split at h
    next => cases h
    next total _ =>
      obtain ⟨⟨inferred, known⟩, -, h⟩ := bind_eq_ok_iff.mp h
      dsimp only at h
      split at h
      next place =>
        split at h
        next => cases h
        next =>
          obtain ⟨rest, -, h⟩ := bind_eq_ok_iff.mp h
          split at h
          next => cases h
          next =>
            obtain ⟨extent, -, h⟩ := bind_eq_ok_iff.mp h
            cases h
            exact List.length_set
      next =>
        split at h
        next =>
          cases h
          rfl
        next => cases h

/-- A requested shape is found, or the request is refused with a reason: the product of sizes that
divides is positive. -/
theorem requestedShape_ends {requested : List Int} (representable : Dims.Representable requested) :
    Ends (fun e => ∃ reason, e = .invalid (.reshape dims requested reason)) Dims.Representable
      (requestedShape dims requested) :=
  (requestedShape_refuses dims requested).refined fun _ met _ =>
    ⟨inWords_of_requestedShape met,
      Int.le_trans (Int.ofNat_le.mpr (rank_of_requestedShape met).le) representable.2⟩

theorem requestedShape_orderly {requested : List Int} (representable : Dims.Representable requested) :
    Ends (fun e => e.isOrderly) Dims.Representable (requestedShape dims requested) := by
  refine (requestedShape_ends representable).fairly ?_
  rintro _ ⟨reason, rfl⟩
  rfl

/-- A stack has a last axis, whose extent stays apart when the others are folded; they are folded if their
product is a word. -/
theorem folding_ends (representable : dims.Representable) (axes : 2 ≤ dims.length) :
    Ends (fun e => e = .invalid (.foldOverflows dims) ∧
        Signed.product? (dims.take (dims.rank - 1)) = none)
      (fun plan => plan.folded.Representable ∧ plan.unfolded.Representable ∧ 2 ≤ plan.unfolded.rank)
      (folding dims) := by
  have ends : Ends (fun e => e = .invalid (.foldOverflows dims) ∧
        Signed.product? (dims.take (dims.rank - 1)) = none)
      (fun plan => plan.folded.rank = 2 ∧ plan.unfolded.rank = dims.rank) (folding dims) := by
    refine (Unsigned.sub_orderly (Nat.le_of_succ_le axes)).bind fun last _ before => ?_
    subst before
    have within : dims.rank - 1 < dims.length := Nat.sub_lt (Nat.zero_lt_of_lt axes) Nat.one_pos
    refine (slice_orderly (Nat.zero_le _) within.le).bind fun rows _ cut => ?_
    subst cut
    split
    next overflow => exact ⟨rfl, overflow⟩
    next count _ =>
      have found : (entry dims (dims.rank - 1) : Except RuleError Int) = .ok dims[dims.rank - 1] :=
        entry_eq_ok_iff.mpr (List.getElem?_eq_getElem _)
      rw [found]
      refine ⟨rfl, ?_⟩
      simp only [Dims.rank, List.length_append, List.length_singleton, List.length_take,
        List.length_drop]
      omega
  refine ends.refined fun plan folded ranks => ?_
  obtain ⟨foldedWords, unfoldedWords⟩ := inWords_of_folding representable.1 folded
  rw [Dims.Representable, Dims.Representable, ranks.1, ranks.2]
  exact ⟨⟨foldedWords, by decide⟩, ⟨unfoldedWords, representable.2⟩, axes⟩

theorem folding_orderly (representable : dims.Representable) (axes : 2 ≤ dims.length) :
    Ends (fun e => e.isOrderly) (fun plan => plan.folded.Representable ∧
      plan.unfolded.Representable ∧ 2 ≤ plan.unfolded.rank) (folding dims) := by
  refine (folding_ends representable axes).fairly ?_
  rintro _ ⟨rfl, -⟩
  rfl

/-- A product has rows and columns, whose places are counted from its last one. -/
theorem exists_squeezed (representable : dims.Representable) (axes : 2 ≤ dims.length)
    (liftedLhs liftedRhs : Bool) :
    ∃ target, squeezedDims dims liftedLhs liftedRhs = .ok target ∧ target.Representable := by
  have row : (Unsigned.sub dims.rank 2 : Except RuleError Nat) = .ok (dims.rank - 2) := if_pos axes
  have column : (Unsigned.sub dims.rank 1 : Except RuleError Nat) = .ok (dims.rank - 1) :=
    if_pos (Nat.le_of_succ_le axes)
  have rank : ∀ places, (withoutPlaces places dims).rank ≤ dims.rank := by
    intro places
    rw [withoutPlaces, Dims.rank, List.length_map]
    exact (List.length_filter_le _ _).trans List.length_zipIdx.le
  obtain ⟨places, squeezed⟩ : ∃ places,
      squeezedDims dims liftedLhs liftedRhs = .ok (withoutPlaces places dims) := by
    cases liftedLhs <;> cases liftedRhs <;> simp only [squeezedDims, row, column] <;> exact ⟨_, rfl⟩
  exact ⟨_, squeezed, inWords_of_squeezedDims representable.1 squeezed,
    Int.le_trans (Int.ofNat_le.mpr (rank places)) representable.2⟩

theorem expandedDims_eq_ok (lower : dims.rank ≤ rank) :
    expandedDims dims rank = .ok (List.replicate (rank - dims.rank) 1 ++ dims) := by
  rw [expandedDims, Unsigned.sub, if_pos lower]
  rfl

theorem representable_expanded (representable : dims.Representable) (lower : dims.rank ≤ rank)
    (bounded : (rank : Int) ≤ Signed.greatest) :
    Dims.Representable (List.replicate (rank - dims.rank) 1 ++ dims) := by
  refine ⟨(Dims.InWords.replicate _ (by decide)).append representable.1, ?_⟩
  simp only [Dims.rank, List.length_append, List.length_replicate] at lower ⊢
  omega

/-! ### Tensors of rules -/

/-- A tensor is permuted, or the order is refused. -/
theorem permute_orderly (t : Tensor) (order : List Nat) :
    Ends (fun e => e.isOrderly) (fun u => u.rank = t.rank) (t.permute order) := by
  by_cases permutation : IsPermutation order t.rank
  · obtain ⟨u, moved, permuted⟩ := Tensor.exists_permuted permutation
    rw [moved]
    exact permuted.rank_eq permutation
  · rw [Tensor.permute, if_neg permutation]
    exact rfl

theorem scalarTensor_orderly (rank : Nat) (pattern : UInt32) :
    Ends (fun e => e.isOrderly) (fun t => t.rank = rank) (scalarTensor rank pattern) := by
  obtain ⟨weights, made, -, single⟩ := Trial.exists_scalarTensor rank pattern
  rw [made]
  change weights.shape.rank = rank
  rw [single.shape]
  exact List.length_replicate

end Lowering

end TensorEngine
