import TensorEngine.Proofs.Network.Reshape

/-!
# Rules of inference for dimensions

Each rule that infers dimensions is described by a relation without errors: what a transposition, a
reshape, a broadcast or a matrix product makes of dimensions when it accepts them. The relations are
monotone in what is known: dimensions inferred from more knowledge are admitted by those inferred
from less.

## Main definitions

* `Transposes`: a stage of a shuffle

## Main results

* `inferShuffle_eq_ok_iff`, `inferMatrixMultiply_eq_ok_iff`: what the rules accept
* `broadcastExtents?_admits`, `inferMatrixMultiply_admits`: monotonicity
-/

namespace TensorEngine

/-! ### Shuffles -/

/-- What a transposition, if there is one, makes of a list with an entry for every axis. -/
def Transposes {α : Type} (order? : Option (List Nat)) (xs ys : List α) : Prop :=
  match order? with
  | none => ys = xs
  | some order => IsPermutation order xs.length ∧ Arranged order xs ys

namespace Transposes

variable {α β : Type} {order? : Option (List Nat)} {xs ys : List α} {xs' ys' : List β}

theorem forall₂ {R : α → β → Prop} (related : List.Forall₂ R xs xs') (h : Transposes order? xs ys)
    (h' : Transposes order? xs' ys') : List.Forall₂ R ys ys' := by
  cases order? with
  | none =>
    obtain rfl : ys = xs := h
    obtain rfl : ys' = xs' := h'
    exact related
  | some order => exact h.2.forall₂ related h'.2

theorem mem (h : Transposes order? xs ys) {y : α} (member : y ∈ ys) : y ∈ xs := by
  cases order? with
  | none => exact (show ys = xs from h) ▸ member
  | some order => exact h.2.mem member

theorem perm (h : Transposes order? xs ys) : ys.Perm xs := by
  cases order? with
  | none => exact .of_eq h
  | some order => exact h.2.perm h.1

theorem map (f : α → β) (h : Transposes order? xs ys) :
    Transposes order? (xs.map f) (ys.map f) := by
  cases order? with
  | none => exact congrArg (List.map f) (show ys = xs from h)
  | some order =>
    refine ⟨List.length_map f ▸ h.1, List.forall₂_map_right_iff.mpr (h.2.imp ?_)⟩
    intro place x entry
    rw [List.getElem?_map, entry]
    rfl

theorem isStatic {dims out : Dims} (h : Transposes order? dims out) (static : dims.isStatic) :
    out.isStatic :=
  Dims.isStatic_iff.mpr fun d member => Dims.isStatic_iff.mp static d (h.mem member)

theorem inWords {dims out : Dims} (h : Transposes order? dims out) (words : dims.InWords) :
    out.InWords :=
  fun d member => words d (h.mem member)

theorem iff_transposeDims {dims out : Dims} :
    Transposes order? dims out ↔ transposeDims dims order? = .ok out := by
  cases order? with
  | none => simp [Transposes, transposeDims, eq_comm]
  | some order => exact permuteDims_eq_ok_iff.symm

end Transposes

/-- A shuffle transposes, reshapes and transposes again. -/
theorem inferShuffle_eq_ok_iff {input out : Dims} {spec : ShuffleSpec} :
    inferShuffle input spec = .ok out ↔
      ∃ first second, Transposes spec.firstTranspose input first ∧
        Reshapes spec.reshape first second ∧ Transposes spec.secondTranspose second out := by
  simp only [inferShuffle, bind_eq_ok_iff, Transposes.iff_transposeDims]
  refine exists_congr fun first => ?_
  cases spec.reshape with
  | none =>
    rw [exists_and_left]
    refine and_congr_right fun _ => ?_
    constructor
    · exact fun h => ⟨first, rfl, h⟩
    · rintro ⟨second, same, h⟩
      exact (show second = first from same) ▸ h
  | some target =>
    rw [exists_and_left]
    refine and_congr_right fun _ => ?_
    simp only [bind_eq_ok_iff, inferReshape_eq_ok_iff, Reshapes]

/-! ### Broadcasts and matrix products -/

theorem broadcastExtent?_admits {a b a' b' c c' : Int} (left : a < 0 ∨ a = a')
    (right : b < 0 ∨ b = b') (h : broadcastExtent? a b = some c)
    (h' : broadcastExtent? a' b' = some c') : c < 0 ∨ c = c' := by
  unfold broadcastExtent? at h h'
  grind

/-- A broadcast that knows more admits no other result. -/
theorem broadcastExtents?_admits {lhs rhs lhs' rhs' out out' : Dims}
    (left : Dims.Admits lhs lhs') (right : Dims.Admits rhs rhs')
    (h : broadcastExtents? lhs rhs = some out) (h' : broadcastExtents? lhs' rhs' = some out') :
    Dims.Admits out out' := by
  induction left generalizing rhs rhs' out out' with
  | nil =>
    cases right with
    | nil =>
      cases h
      cases h'
      exact .nil
    | cons => cases h
  | cons first _ ih =>
    cases right with
    | nil => cases h
    | cons second later =>
      simp only [broadcastExtents?, Option.bind_eq_bind, Option.bind_eq_some_iff] at h h'
      obtain ⟨d, head, rest, tail, result⟩ := h
      obtain ⟨d', head', rest', tail', result'⟩ := h'
      cases result
      cases result'
      exact .cons (broadcastExtent?_admits first second head head') (ih later tail tail')

theorem inferBroadcast_eq_ok_iff {lhs rhs out : Dims} :
    inferBroadcast lhs rhs = .ok out ↔ broadcastExtents? lhs rhs = some out := by
  unfold inferBroadcast
  split <;> simp_all

/-- A broadcast takes every extent from one of its operands. -/
theorem mem_or_mem_of_broadcastExtents? {lhs rhs out : Dims}
    (h : broadcastExtents? lhs rhs = some out) {d : Int} (member : d ∈ out) :
    d ∈ lhs ∨ d ∈ rhs := by
  induction lhs generalizing rhs out with
  | nil =>
    cases rhs with
    | nil =>
      cases h
      cases member
    | cons => cases h
  | cons a lhs ih =>
    cases rhs with
    | nil => cases h
    | cons b rhs =>
      simp only [broadcastExtents?, Option.bind_eq_bind, Option.bind_eq_some_iff] at h
      obtain ⟨c, head, rest, tail, result⟩ := h
      cases result
      rcases List.mem_cons.mp member with rfl | later
      · have one : d = a ∨ d = b := by
          unfold broadcastExtent? at head
          grind
        rcases one with rfl | rfl
        · exact .inl List.mem_cons_self
        · exact .inr List.mem_cons_self
      · exact (ih tail later).imp (List.mem_cons_of_mem _) (List.mem_cons_of_mem _)

/-- A list with rows and columns is a stack, and these two. -/
theorem matrixParts?_eq_some_iff {α : Type} {xs stack : List α} {rows columns : α} :
    matrixParts? xs = some (stack, rows, columns) ↔ xs = stack ++ [rows, columns] := by
  -- The recursion of the function itself: it stops at a list of two and otherwise moves one entry
  -- to the stack.
  induction xs using matrixParts?.induct generalizing stack with
  | case1 => simp [matrixParts?]
  | case2 a => cases stack <;> simp [matrixParts?, List.append_eq_nil_iff]
  | case3 a b =>
    cases stack with
    | nil => simp [matrixParts?]
    | cons c stack => cases stack <;> simp [matrixParts?]
  | case4 a rest nonempty several ih =>
    have step : matrixParts? (a :: rest) =
        (matrixParts? rest).map fun parts => (a :: parts.1, parts.2) := by
      rw [matrixParts?.eq_def]
      split <;> simp_all
    simp only [step, Option.map_eq_some_iff, Prod.exists, Prod.mk.injEq]
    constructor
    · rintro ⟨_, _, _, parts, rfl, rfl, rfl⟩
      rw [ih.mp parts, List.cons_append]
    · intro parts
      cases stack with
      | nil =>
        obtain ⟨-, rfl⟩ := List.cons.inj parts
        exact (several _ rfl).elim
      | cons c stack =>
        obtain ⟨rfl, rfl⟩ := List.cons.inj parts
        exact ⟨stack, rows, columns, ih.mpr rfl, rfl, rfl, rfl⟩

/-- What a matrix product makes of dimensions when it accepts them. -/
theorem inferMatrixMultiply_eq_ok_iff {lhs rhs out : Dims} {op0 op1 : MatrixOp} :
    inferMatrixMultiply lhs op0 rhs op1 = .ok out ↔
      ∃ stack0 rows0 columns0 stack1 rows1 columns1 stack,
        lhs = stack0 ++ [rows0, columns0] ∧ rhs = stack1 ++ [rows1, columns1] ∧
        ¬(0 ≤ (op0.orient rows0 columns0).2 ∧ 0 ≤ (op1.orient rows1 columns1).1 ∧
          (op0.orient rows0 columns0).2 ≠ (op1.orient rows1 columns1).1) ∧
        broadcastExtents? stack0 stack1 = some stack ∧
        out = stack ++ [(op0.orient rows0 columns0).1, (op1.orient rows1 columns1).2] := by
  simp only [← @matrixParts?_eq_some_iff _ lhs, ← @matrixParts?_eq_some_iff _ rhs]
  unfold inferMatrixMultiply
  split
  next stack0 rows0 columns0 stack1 rows1 columns1 left right =>
    dsimp only
    split
    next mismatch =>
      refine iff_of_false nofun ?_
      rintro ⟨_, _, _, _, _, _, _, left', right', agree, -⟩
      cases left.symm.trans left'
      cases right.symm.trans right'
      exact agree mismatch
    next agree =>
      constructor
      · intro h
        split at h
        next stack outer =>
          cases h
          exact ⟨_, _, _, _, _, _, stack, left, right, agree, outer, rfl⟩
        next => cases h
      · rintro ⟨_, _, _, _, _, _, _, left', right', -, outer, rfl⟩
        cases left.symm.trans left'
        cases right.symm.trans right'
        rw [outer]
  next none =>
    refine iff_of_false nofun ?_
    rintro ⟨_, _, _, _, _, _, _, left, right, -⟩
    exact none _ _ _ _ _ _ left right

/-- A matrix product takes every extent from one of its operands. -/
theorem mem_or_mem_of_inferMatrixMultiply {lhs rhs out : Dims} {op0 op1 : MatrixOp}
    (h : inferMatrixMultiply lhs op0 rhs op1 = .ok out) {d : Int} (member : d ∈ out) :
    d ∈ lhs ∨ d ∈ rhs := by
  obtain ⟨stack0, rows0, columns0, stack1, rows1, columns1, stack, rfl, rfl, -, outer, rfl⟩ :=
    inferMatrixMultiply_eq_ok_iff.mp h
  rw [List.mem_append, List.mem_pair] at member
  rcases member with inStack | rfl | rfl
  · exact (mem_or_mem_of_broadcastExtents? outer inStack).imp (List.mem_append_left _)
      (List.mem_append_left _)
  · left
    cases op0 <;> simp [MatrixOp.orient]
  · right
    cases op1 <;> simp [MatrixOp.orient]

/-- A matrix product that knows more admits no other result. -/
theorem inferMatrixMultiply_admits {lhs rhs lhs' rhs' out out' : Dims} {op0 op1 : MatrixOp}
    (left : Dims.Admits lhs lhs') (right : Dims.Admits rhs rhs')
    (h : inferMatrixMultiply lhs op0 rhs op1 = .ok out)
    (h' : inferMatrixMultiply lhs' op0 rhs' op1 = .ok out') : Dims.Admits out out' := by
  obtain ⟨_, _, _, _, _, _, stack, rfl, rfl, -, outer, rfl⟩ := inferMatrixMultiply_eq_ok_iff.mp h
  obtain ⟨_, _, _, _, _, _, stack', rfl, rfl, -, outer', rfl⟩ :=
    inferMatrixMultiply_eq_ok_iff.mp h'
  obtain ⟨leftStack, leftRows, leftColumns⟩ := forall₂_append_pair.mp left
  obtain ⟨rightStack, rightRows, rightColumns⟩ := forall₂_append_pair.mp right
  refine forall₂_append_pair.mpr
    ⟨broadcastExtents?_admits leftStack rightStack outer outer', ?_, ?_⟩
  · cases op0 <;> assumption
  · cases op1 <;> assumption

end TensorEngine
