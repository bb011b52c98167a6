import TensorEngine.Lowering.RuleTable
import TensorEngine.Proofs.Lowering.Pairs
import TensorEngine.Proofs.Lowering.Products

/-!
# Nodes for matrix products

A product of two operands that have axes is lowered exactly if the inner extents agree and the stacks
are broadcast. Vectors are laid out as matrices, a stack that is multiplied by one matrix is folded,
and other operands are padded to the same rank. By multi-index, every number of the result is the sum
of the products of a row and a column.

## Main results

* `Trial.ends_stackedProduct`: operands of rank at least two
* `matmul_node_multiplies`: nodes for matrix products
-/

namespace TensorEngine

theorem Shape.size_asRow (shape : Shape) : shape.asRow.size = shape.size := by
  rcases shape with _ | ⟨k, _ | ⟨l, rest⟩⟩
  · rfl
  · exact Nat.one_mul _
  · rfl

theorem Shape.size_asColumn (shape : Shape) : shape.asColumn.size = shape.size := by
  rcases shape with _ | ⟨k, _ | ⟨l, rest⟩⟩ <;> rfl

theorem Shape.fills_asRow {shape : Shape} (vector : shape.rank = 1) :
    Fills shape 0 [1, -1] shape.asRow := by
  obtain ⟨k, rfl⟩ := List.length_eq_one_iff.mp vector
  exact .fixed Nat.one_pos (.inferred .nil)

theorem Shape.fills_asColumn {shape : Shape} (vector : shape.rank = 1) :
    Fills shape 0 [-1, 1] shape.asColumn := by
  obtain ⟨k, rfl⟩ := List.length_eq_one_iff.mp vector
  exact .inferred (.fixed Nat.one_pos .nil)

/-- Where neither operand is a vector, no extent of a product is left out. -/
theorem Shape.squeezed_of_matrices {x y : Shape} (stack : Shape) (axesA : x.rank ≠ 0)
    (axesB : y.rank ≠ 0) (matricesA : x.rank ≠ 1) (matricesB : y.rank ≠ 1) :
    stack ++ x.rows ++ y.columns = stack ++ [x.rows.size, y.columns.size] := by
  have rows := (left_parts axesA).2.2
  have columns := (right_parts axesB).2.2
  rw [if_neg matricesA] at rows
  rw [if_neg matricesB] at columns
  rw [List.append_assoc]
  conv_lhs => rw [← rows, ← columns]
  rfl

/-- A product of operands that have elements has elements. -/
theorem Shape.Counted.product {x y stack : Shape} (countedA : x.Counted) (countedB : y.Counted)
    (axesA : x.rank ≠ 0) (axesB : y.rank ≠ 0) (broadcast : broadcast? x.stack y.stack = some stack)
    (fits : (size (stack ++ [x.rows.size, y.columns.size]) : Int) ≤ Signed.greatest) :
    Counted (stack ++ [x.rows.size, y.columns.size]) := by
  refine ⟨size_pos_iff.mp ?_, fits⟩
  have left := size_pos_iff.mpr countedA.positive
  have right := size_pos_iff.mpr countedB.positive
  rw [(left_parts axesA).1, size_append, size_append] at left
  rw [(right_parts axesB).1, size_append, size_append] at right
  have stack_pos : 0 < size stack := size_pos_of_stretched? broadcast
    (by rw [size_padded]; exact Nat.pos_of_mul_pos_right left)
    (by rw [size_padded]; exact Nat.pos_of_mul_pos_right right)
  rw [size_matrix]
  exact Nat.mul_pos stack_pos (Nat.mul_pos (Nat.pos_of_mul_pos_right (Nat.pos_of_mul_pos_left left))
    (Nat.pos_of_mul_pos_left (Nat.pos_of_mul_pos_left right)))

/-- The product of operands that were laid out as stacks of matrices is the product of the operands,
under the shape that leaves out the extents that stand for vectors. -/
theorem Tensor.IsSingle.isProduct {a b a' b' u t : Tensor} {x y stack : Shape} (hA : a.IsSingle x)
    (hB : b.IsSingle y) (axesA : x.rank ≠ 0) (axesB : y.rank ≠ 0)
    (laidA : a.reshape x.asRow = .ok a') (laidB : b.reshape y.asColumn = .ok b')
    (hU : u.IsSingle (stack ++ [x.rows.size, y.columns.size])) (product : a'.product? b' = some u)
    (laid : u.reshape (stack ++ x.rows ++ y.columns) = .ok t) : a.IsProduct b t := by
  obtain rfl := hA.shape
  obtain rfl := hB.shape
  obtain ⟨stack', m, n, shapeU, -, squeezes⟩ := product?_of_lifted laidA laidB product hU.compact
  obtain ⟨rfl, last⟩ := List.append_inj' (hU.shape.symm.trans shapeU) rfl
  cases last
  refine isProduct_of_product? axesA axesB (squeezes t ?_)
  rw [rank, rank, (Shape.left_parts axesA).2.2, (Shape.right_parts axesB).2.2]
  exact laid

namespace Shape

theorem rank_matrices (stack : Shape) (m n : Nat) :
    Dims.rank (toDims (stack ++ [m, n])) = stack.rank + 2 := by
  rw [rank_toDims]
  exact List.length_append

/-- A stack of matrices as one matrix has as many elements. -/
theorem size_folded (stack : Shape) (m n : Nat) :
    size [size (stack ++ [m]), n] = size (stack ++ [m, n]) := by
  rw [List.append_cons stack m [n], size_append _ [n]]
  rfl

/-- The rows of all matrices of a stack have elements if the stack has. -/
theorem Counted.rows {stack : Shape} {m n : Nat} (h : Counted (stack ++ [m, n])) :
    ∀ d ∈ stack ++ [m], 0 < d := by
  intro d member
  refine h.positive d ?_
  rw [List.append_cons stack m [n]]
  exact List.mem_append_left _ member

/-- Unfolding rows into a stack copies no extent and infers the length of the rows. -/
theorem fills_unfolded {stack : Shape} {m n : Nat} (positive : ∀ d ∈ stack ++ [m], 0 < d) :
    Fills [size (stack ++ [m]), n] 0 (toDims (stack ++ [m]) ++ [-1]) (stack ++ [m, n]) := by
  rw [List.append_cons stack m [n]]
  refine .of_entries (List.rel_append ?_ (.cons (.inl rfl) .nil))
  exact List.forall₂_map_left_iff.mpr (List.forall₂_same.mpr fun d member =>
    .inr ⟨by exact_mod_cast positive d member, rfl⟩)

theorem count_unfolded (shape : Shape) : (shape.toDims ++ [-1]).count (-1) ≤ 1 := by
  rw [List.count_append, count_toDims]
  simp

end Shape

namespace Lowering

open Program

variable {graph : Graph} {state next : State} {node : Node} {v i j : ValueId} {first second : Argument}
  {x y : Shape} {fair : RuleError → Prop}

/-! ### Folded stacks -/

/-- Stacks that are counted by a signed word are folded. -/
theorem exists_folding {stack : Shape} {m k : Nat} (counted : Shape.Counted (stack ++ [m, k])) :
    ∃ plan, folding (Shape.toDims (stack ++ [m, k])) = .ok plan := by
  have rows_pos := counted.rows
  rw [List.append_cons stack m [k]] at counted ⊢
  have dims : Shape.toDims ((stack ++ [m]) ++ [k]) = Shape.toDims (stack ++ [m]) ++ [(k : Int)] :=
    List.map_append
  have last : (Unsigned.sub (Dims.rank (Shape.toDims ((stack ++ [m]) ++ [k]))) 1 :
      Except RuleError Nat) = .ok (Shape.toDims (stack ++ [m])).length := by
    simp [Unsigned.sub, Shape.toDims]
  have cut : (slice (Shape.toDims ((stack ++ [m]) ++ [k])) 0 (Shape.toDims (stack ++ [m])).length :
      Except RuleError Dims) = .ok (Shape.toDims (stack ++ [m])) := by
    rw [slice_eq_ok_iff, dims]
    simp
  have columns : (entry (Shape.toDims ((stack ++ [m]) ++ [k])) (Shape.toDims (stack ++ [m])).length :
      Except RuleError Int) = .ok (k : Int) := by
    rw [entry_eq_ok_iff, dims, List.getElem?_concat_length]
  -- The rows are counted by a signed word, since all elements are.
  have rows_le : Shape.size (stack ++ [m]) ≤ Shape.size ((stack ++ [m]) ++ [k]) := by
    rw [Shape.size_append _ [k], Shape.size_singleton]
    exact Nat.le_mul_of_pos_right _ (counted.positive k (by simp))
  have fits := counted.fits
  have count := Shape.product?_toDims rows_pos (by omega)
  rw [folding, last, ok_bind, cut, ok_bind, count]
  dsimp only
  rw [columns, ok_bind]
  exact ⟨_, rfl⟩

namespace Trial

variable {trial : Trial} {P Q : Values → Tensor → Prop} {p q : TensorId} {stackA stackB : Shape}
  {m k k' n : Nat}

section Stacks

variable (reaches : trial.Reaches state)
  (holdsA : trial.HoldsSingle state p (stackA ++ [m, k]) P)
  (holdsB : trial.HoldsSingle state q (stackB ++ [k', n]) Q)
  (countedA : Shape.Counted (stackA ++ [m, k])) (countedB : Shape.Counted (stackB ++ [k', n]))
include reaches holdsA holdsB countedA

/-- A stack times one matrix. -/
theorem ends_foldedProduct (single : stackB = [])
    (counted : k = k' → Shape.Counted (stackA ++ [m, n]))
    (room : trial.fits → k = k' → 4 * Shape.size (stackA ++ [m, n]) < Unsigned.bound) :
    (foldedProduct node p (Shape.toDims (stackA ++ [m, k])) q).EndsFrom state (fun _ => k ≠ k')
      fun z next => k = k' ∧ trial.MakesSingle state (stackA ++ [m, n]) (fun values t => ∃ a b,
        (a.IsSingle (stackA ++ [m, k]) ∧ P values a) ∧ (b.IsSingle (stackB ++ [k', n]) ∧ Q values b) ∧
          a.product? b = some t) z next := by
  subst single
  obtain ⟨⟨folded, unfolded⟩, plan⟩ := exists_folding countedA
  obtain ⟨folded_eq, unfolded_eq⟩ := folding_eq_ok plan
  refine .requireStatic_bind (Dims.isStatic_toDims _) (.ofExcept_bind plan ?_)
  dsimp only at folded_eq unfolded_eq ⊢
  rw [folded_eq, unfolded_eq]
  refine (ends_reshape_toDims reaches holdsA countedA (Shape.size_folded stackA m k)).bind
    fun p' s1 madeA => ?_
  have formA : [Shape.size (stackA ++ [m]), k] = [] ++ [Shape.size (stackA ++ [m]), k] := rfl
  refine ((ends_multiply madeA.reaches madeA.holds (madeA.keeps _ _ _ holdsB) formA rfl
    ?_).fairly ?_).bind fun z s2 made => ?_
  · rintro fits inner stack stretched
    cases stretched
    have bytes := room fits inner
    rw [← Shape.size_folded] at bytes
    refine Unsigned.isSome_product? ?_ bytes
    rw [List.nil_append, Shape.size_folded, Shape.size_pos_iff]
    exact (counted inner).positive
  · exact fun e refused inner => refused ⟨inner, rfl⟩
  · obtain ⟨inner, stack, stretched, made⟩ := made
    cases stretched
    have sizes := Shape.size_folded stackA m n
    refine (ends_reshape made.reaches made.holds ((counted inner).of_size sizes)
      (Shape.fills_unfolded (counted inner).rows) (Shape.count_unfolded _) sizes.symm).mono
        fun w last unfolded =>
          ⟨inner, (unfolded.of_keeps (madeA.keeps.trans made.keeps)).mono ?_⟩
    rintro values t - ⟨isSingle, u, ⟨isSingleU, a', b, ⟨-, a, knownA, laidA⟩, knownB, computed⟩, laid⟩
    refine ⟨isSingle, a, b, knownA, knownB, ?_⟩
    obtain ⟨n', shapeU, -, product⟩ := Tensor.product?_of_folded knownA.1.compact knownB.1.compact
      knownA.1.shape (congrArg List.length knownB.1.shape) laidA computed
    cases isSingleU.shape.symm.trans shapeU
    exact product t laid

include countedB in
/-- Operands of rank at least two are multiplied if the inner extents agree and the stacks are
broadcast. -/
theorem ends_stackedProduct
    (counted : k = k' → ∀ stack, Shape.broadcast? stackA stackB = some stack →
      Shape.Counted (stack ++ [m, n]))
    (room : trial.fits → k = k' → ∀ stack, Shape.broadcast? stackA stackB = some stack →
      4 * Shape.size (stack ++ [m, n]) < Unsigned.bound) :
    (stackedProduct node p q).EndsFrom state
      (fun _ => ¬(k = k' ∧ (Shape.broadcast? stackA stackB).isSome)) fun z next =>
      k = k' ∧ ∃ stack, Shape.broadcast? stackA stackB = some stack ∧
        trial.MakesSingle state (stack ++ [m, n]) (fun values t => ∃ a b,
          (a.IsSingle (stackA ++ [m, k]) ∧ P values a) ∧
            (b.IsSingle (stackB ++ [k', n]) ∧ Q values b) ∧ a.product? b = some t) z next := by
  have rankA := Shape.rank_matrices stackA m k
  have rankB := Shape.rank_matrices stackB k' n
  refine .dimsOf_bind holdsA.recorded (.dimsOf_bind holdsB.recorded ?_)
  split
  next fold =>
    obtain rfl : stackB = [] :=
      List.length_eq_zero_iff.mp (Nat.add_eq_right.mp (rankB.symm.trans fold.2))
    rw [Shape.broadcast?_nil]
    refine ((ends_foldedProduct reaches holdsA holdsB countedA rfl
      (fun inner => counted inner _ (Shape.broadcast?_nil _))
      fun fits inner => room fits inner _ (Shape.broadcast?_nil _)).fairly ?_).mono ?_
    · exact fun e refused accepted => refused accepted.1
    · rintro z next ⟨inner, made⟩
      exact ⟨inner, stackA, rfl, made⟩
  next =>
    have rank : max (Dims.rank (Shape.toDims (stackA ++ [m, k])))
        (Dims.rank (Shape.toDims (stackB ++ [k', n]))) = max stackA.rank stackB.rank + 2 := by
      rw [rankA, rankB, Nat.add_max_add_right]
    dsimp only
    rw [rank]
    refine (ends_expandRank reaches holdsA countedA).bind fun p' s1 madeA => ?_
    refine (ends_expandRank madeA.reaches (madeA.keeps _ _ _ holdsB) countedB).bind
      fun q' s2 madeB => ?_
    refine (ends_multiply madeB.reaches (madeB.keeps _ _ _ madeA.holds) madeB.holds
      (Shape.padded_matrix _ _ _ _) (Shape.padded_matrix _ _ _ _) ?_).mono ?_
    · intro fits inner stack stretched
      exact Unsigned.isSome_product? (Shape.size_pos_iff.mpr (counted inner stack stretched).positive)
        (room fits inner stack stretched)
    · rintro z next ⟨inner, stack, stretched, made⟩
      refine ⟨inner, stack, stretched, (made.of_keeps (madeA.keeps.trans madeB.keeps)).mono ?_⟩
      rintro values t - ⟨isSingle, a', b', ⟨-, a, knownA, laidA⟩, ⟨-, b, knownB, laidB⟩, computed⟩
      refine ⟨isSingle, a, b, knownA, knownB, ?_⟩
      have shapes : max a.rank b.rank = max stackA.rank stackB.rank + 2 := by
        rw [Tensor.rank, Tensor.rank, knownA.1.shape, knownB.1.shape]
        simp [Nat.add_max_add_right]
      refine (Tensor.product?_of_padded knownA.1.compact knownB.1.compact ?_ ?_ ?_ ?_ computed).1
      · simp [Tensor.rank, knownA.1.shape]
      · simp [Tensor.rank, knownB.1.shape]
      · rwa [shapes, knownA.1.shape]
      · rwa [shapes, knownB.1.shape]

end Stacks

/-! ### Vectors -/

section Vectors

theorem ends_requireFloatingPoint {dims : Dims}
    (recorded : state.network.types[p.index]? = some ⟨.f32, dims⟩) :
    (requireFloatingPoint p).EndsFrom state fair fun _ next => next = state :=
  .tensorOf_bind recorded fun _ => .pure rfl

variable (trial) in
/-- The operands of a product are tensors of the network. -/
theorem ends_factors {rest : List Argument} (operandA : IsOperand graph trial.start i first x)
    (operandB : IsOperand graph trial.start j second y)
    (given : ∀ values, trial.Given values → ∃ a b, first.Carries values x a ∧
      second.Carries values y b) :
    (factors (first :: second :: rest)).EndsFrom trial.start fair fun operands next =>
      trial.Reaches next ∧
      trial.HoldsSingle next operands.1 x (fun values a => first.value? values = some a) ∧
      trial.HoldsSingle next operands.2 y (fun values b => second.value? values = some b) := by
  refine ends_operands operandA operandB given fun p q middle reaches holdsA holdsB => ?_
  refine (ends_requireFloatingPoint holdsA.recorded).bind ?_
  rintro - _ rfl
  refine (ends_requireFloatingPoint holdsB.recorded).bind ?_
  rintro - _ rfl
  exact .pure ⟨reaches, holdsA, holdsB⟩

/-- A vector is laid out as a matrix with one row or one column. -/
theorem ends_lift {target : Dims} {lifted : Shape} {part : String} (reaches : trial.Reaches state)
    (holds : trial.HoldsSingle state p x P) (counted : x.Counted)
    (fills : x.rank = 1 → Shape.Fills x 0 target lifted) (once : target.count (-1) ≤ 1)
    (sizes : lifted.size = x.size) (other : x.rank ≠ 1 → lifted = x) :
    (if Dims.rank x.toDims = 1 then lift node p x.toDims target part else pure p).EndsFrom state fair
      (trial.MakesSingle state lifted fun values u => ∃ t, (t.IsSingle x ∧ P values t) ∧
        t.reshape lifted = .ok u) := by
  rw [Shape.rank_toDims]
  split
  next vector =>
    refine .requireStatic_bind (Dims.isStatic_toDims _) ?_
    exact ends_reshape reaches holds counted (fills vector) once sizes
  next matrices =>
    rw [other matrices]
    refine .pure (.of_holds reaches (holds.mono fun values t _ known => ⟨known.1, t, known, ?_⟩))
    obtain rfl := known.1.shape
    exact Tensor.reshape_self

end Vectors

end Trial

/-! ### Products -/

theorem exists_squeezedDims (stack : Shape) (m n : Nat) (liftedLhs liftedRhs : Bool) :
    ∃ target, squeezedDims (Shape.toDims (stack ++ [m, n])) liftedLhs liftedRhs = .ok target := by
  unfold squeezedDims
  rw [Shape.rank_matrices]
  cases liftedLhs <;> cases liftedRhs <;> exact ⟨_, rfl⟩

/-- The extents that stand for vectors are left out. -/
theorem squeezedDims_toDims (stack : Shape) (axesA : x.rank ≠ 0) (axesB : y.rank ≠ 0) :
    squeezedDims (Shape.toDims (stack ++ [x.rows.size, y.columns.size]))
        (decide (Dims.rank x.toDims = 1)) (decide (Dims.rank y.toDims = 1)) =
      .ok (Shape.toDims (stack ++ x.rows ++ y.columns)) := by
  obtain ⟨target, squeezed⟩ := exists_squeezedDims stack x.rows.size y.columns.size
    (decide (Dims.rank x.toDims = 1)) (decide (Dims.rank y.toDims = 1))
  have target_eq := squeezedDims_eq_ok squeezed
  simp only [decide_eq_true_eq, Shape.rank_toDims] at target_eq
  rw [(Shape.left_parts axesA).2.2, (Shape.right_parts axesB).2.2] at target_eq
  rw [squeezed, target_eq]

/-- Under this shape, the tensor is a product of the operands. -/
def IsStacked (first second : Argument) (out : Shape) (values : Values) (u : Tensor) : Prop :=
  ∃ a b, first.value? values = some a ∧ second.value? values = some b ∧
    ∀ t, u.reshape out = .ok t → a.IsProduct b t

/-- The output is bound to the product under the shape that leaves out the extents of vectors. -/
theorem ends_bindProduct {out : Shape} {w : TensorId} (agree : x.product? y = some out)
    (reaches : (Trial.ofPair state first second x y (x.product? y)).Reaches next)
    (holds : (Trial.ofPair state first second x y (x.product? y)).HoldsSingle next w out
      fun values t => ∃ u, IsStacked first second out values u ∧ u.reshape out = .ok t)
    (outputs : node.outputs = [v]) (fresh : state.binding? v = none) :
    (bindOutput node w).EndsFrom next fair fun _ =>
      Trial.BindsResult state v first second x y (x.product? y) Tensor.IsProduct := by
  refine (Trial.ends_bindOutput reaches (holds.mono ?_) outputs fresh).mono
    fun _ _ binds => ⟨out, agree, binds⟩
  rintro values t - ⟨isSingle, u, ⟨a, b, valueA, valueB, product⟩, laid⟩
  exact ⟨isSingle, a, b, valueA, valueB, product t laid⟩

/-- Products are lowered if the inner extents agree and the stacks are broadcast. -/
theorem ends_matmul (operandA : IsOperand graph state i first x)
    (operandB : IsOperand graph state j second y) (axesA : x.rank ≠ 0) (axesB : y.rank ≠ 0)
    (counted : ∀ out, x.product? y = some out → (out.size : Int) ≤ Signed.greatest)
    (outputs : node.outputs = [v]) (fresh : state.binding? v = none) :
    (matmul node [first, second]).EndsFrom state (fun _ => x.product? y = none) fun _ =>
      Trial.BindsResult state v first second x y (x.product? y) Tensor.IsProduct := by
  have rankA := Shape.rank_toDims x
  have rankB := Shape.rank_toDims y
  refine (Trial.ends_factors (.ofPair state first second x y (x.product? y)) operandA operandB
    fun _ => id).bind ?_
  rintro ⟨p, q⟩ s0 ⟨reaches, holdsA, holdsB⟩
  refine .dimsOf_bind holdsA.recorded (.dimsOf_bind holdsB.recorded ?_)
  rw [if_neg (by rw [rankA, rankB]; exact not_or.mpr ⟨axesA, axesB⟩)]
  refine .ite_bind (Trial.ends_lift reaches holdsA operandA.counted Shape.fills_asRow (by decide)
    (Shape.size_asRow x) Shape.asRow_of_rank) fun p' s1 madeA => ?_
  refine .ite_bind (Trial.ends_lift madeA.reaches (madeA.keeps _ _ _ holdsB) operandB.counted
    Shape.fills_asColumn (by decide) (Shape.size_asColumn y) Shape.asColumn_of_rank)
    fun q' s2 madeB => ?_
  have holdsA' := madeB.keeps _ _ _ madeA.holds
  have holdsB' := madeB.holds
  rw [Shape.asRow_eq axesA] at holdsA'
  rw [Shape.asColumn_eq axesB] at holdsB'
  have countedProduct : x.width = y.height → ∀ stack,
      Shape.broadcast? x.stack y.stack = some stack →
        Shape.Counted (stack ++ [x.rows.size, y.columns.size]) := by
    intro inner stack broadcast
    have fits := counted _ (Shape.product?_eq_some_iff.mpr ⟨inner, stack, broadcast, rfl⟩)
    rw [Shape.size_squeezed] at fits
    exact operandA.counted.product operandB.counted axesA axesB broadcast fits
  refine ((Trial.ends_stackedProduct madeB.reaches holdsA' holdsB'
    (Shape.asRow_eq axesA ▸ operandA.counted.of_size (Shape.size_asRow x))
    (Shape.asColumn_eq axesB ▸ operandB.counted.of_size (Shape.size_asColumn y)) countedProduct
    fun fits inner stack broadcast => ?_).fairly fun e => Shape.product?_eq_none_iff.mpr).bind ?_
  · rw [← Shape.size_squeezed]
    exact fits _ (Shape.product?_eq_some_iff.mpr ⟨inner, stack, broadcast, rfl⟩)
  · rintro z s3 ⟨inner, stack, broadcast, made⟩
    have agree := Shape.product?_eq_some_iff.mpr ⟨inner, stack, broadcast, rfl⟩
    have stacked : (Trial.ofPair state first second x y (x.product? y)).HoldsSingle s3 z
        (stack ++ [x.rows.size, y.columns.size])
        (IsStacked first second (stack ++ x.rows ++ y.columns)) := by
      refine made.holds.mono ?_
      rintro values u - ⟨isSingle, a', b', ⟨-, a, ⟨isSingleA, valueA⟩, laidA⟩,
        ⟨-, b, ⟨isSingleB, valueB⟩, laidB⟩, product⟩
      exact ⟨isSingle, a, b, valueA, valueB, fun t laid =>
        isSingleA.isProduct isSingleB axesA axesB (Shape.asRow_eq axesA ▸ laidA)
          (Shape.asColumn_eq axesB ▸ laidB) isSingle product laid⟩
    split
    next vectors =>
      refine .dimsOf_bind stacked.recorded (.requireStatic_bind (Dims.isStatic_toDims _)
        (.ofExcept_bind (squeezedDims_toDims stack axesA axesB) ?_))
      refine (Trial.ends_reshape_toDims made.reaches stacked (countedProduct inner stack broadcast)
        (Shape.size_squeezed stack x y)).bind fun w s4 laid => ?_
      refine ends_bindProduct agree laid.reaches (laid.holds.mono ?_) outputs fresh
      rintro values t - ⟨isSingle, u, known, unfolded⟩
      exact ⟨isSingle, u, known.2, unfolded⟩
    next matrices =>
      rw [rankA, rankB, not_or] at matrices
      rw [← Shape.squeezed_of_matrices stack axesA axesB matrices.1 matrices.2] at stacked
      refine ends_bindProduct agree made.reaches (stacked.mono fun values u _ known => ?_) outputs
        fresh
      refine ⟨known.1, u, known.2, ?_⟩
      rw [← known.1.shape]
      exact Tensor.reshape_self

/-- A node for the matrix product of two single precision operands of known positive extents, both of
which have axes, is lowered exactly if the inner extents agree and the stacks are broadcast, aligned
from the right. The recorded shape is that of the product, in which a vector has no extent. The layers
that are emitted then compute at every multi-index the sum, from zero on and in ascending order, of the
products of the numbers of the operands that belong to it. -/
theorem matmul_node_multiplies
    (signature : node.signature = ⟨"aten::matmul(Tensor self, Tensor other) -> (Tensor)"⟩)
    (inputs : node.inputs = [i, j]) (outputs : node.outputs = [v]) (fresh : state.binding? v = none)
    (operandA : IsOperand graph state i first x) (operandB : IsOperand graph state j second y)
    (axesA : 1 ≤ x.rank) (axesB : 1 ≤ y.rank)
    (counted : ∀ out, x.product? y = some out → (out.size : Int) ≤ Signed.greatest) :
    LowersTo graph state node v first second x y (x.product? y) Tensor.IsProduct := by
  have found : RuleTable.builtin.find? node.signature = some matmul := signature ▸ rfl
  refine .of_rule found ?_ outputs fresh (ends_matmul operandA operandB (Nat.ne_of_gt axesA)
    (Nat.ne_of_gt axesB) counted outputs fresh)
  rw [inputs]
  exact .cons operandA.given (.cons operandB.given .nil)

/-! ### A vector times a matrix -/

/-- A vector of two numbers. -/
def mappedVector : Tensor :=
  ⟨.f32, [2], [0, 0, 64, 64, 0, 0, 128, 63], rfl⟩

/-- A matrix with two rows and two columns. -/
def mappingMatrix : Tensor :=
  ⟨.f32, [2, 2], [0, 0, 128, 63, 0, 0, 128, 63, 0, 0, 0, 64, 0, 0, 64, 64], rfl⟩

/-- A vector times a constant matrix. -/
def mappingNode : Node :=
  ⟨⟨"aten::matmul(Tensor self, Tensor other) -> (Tensor)"⟩, [⟨0⟩, ⟨1⟩], [⟨2⟩]⟩

/-- The graph of that node. -/
def mappingGraph : Graph where
  values := [⟨"vector", .input .f32 [2]⟩, ⟨"matrix", .constant (.tensor mappingMatrix)⟩,
    ⟨"mapped", .tensor⟩]
  nodes := [mappingNode]
  inputs := [⟨0⟩]
  outputs := [⟨2⟩]

/-- The state in which the node is lowered. -/
def mappingState : State where
  settings := ⟨false, ⟨0, 8, 6⟩⟩
  network := ⟨[⟨"input_0", .f32, [2]⟩], [], [⟨0⟩], []⟩
  bindings := [(⟨0⟩, ⟨0⟩)]
  frozen := 0
  journal := []

/-- The vector is lifted to a row, and the product is a vector again. -/
theorem matmul_node_multiplies_vector :
    ∃ next layers z, (lowerNode .builtin mappingGraph mappingNode).run mappingState =
        (.ok (), next) ∧
      mappingState.Emits next layers ⟨2⟩ z ⟨.f32, [2]⟩ ∧
      ∃ values final t, runLayers layers values = (final, .ok ()) ∧ final.get? z = some t ∧
        t.number [1] = Binary.Single.sumOfProducts
          [(mappedVector.number [0], mappingMatrix.number [0, 1]),
            (mappedVector.number [1], mappingMatrix.number [1, 1])] := by
  have vector : IsOperand mappingGraph mappingState ⟨0⟩ (.tensor ⟨0⟩) [2] :=
    ⟨rfl, rfl, by decide⟩
  have matrix : IsOperand mappingGraph mappingState ⟨1⟩ (.constant (.tensor mappingMatrix)) [2, 2] :=
    ⟨rfl, by decide +kernel, by decide⟩
  have shape : Shape.product? [2] [2, 2] = some [2] := by decide
  have outputs : mappingNode.outputs = [⟨2⟩] := rfl
  have lowers := matmul_node_multiplies rfl rfl outputs rfl vector matrix (by decide) (by decide)
    (fun out same => by cases shape.symm.trans same; decide)
  obtain ⟨next, ran⟩ := lowers.accepted.mpr (by decide)
  obtain ⟨out, layers, z, same, emits, runs⟩ := lowers.emits next ran
  cases shape.symm.trans same
  obtain ⟨succeeds, computed⟩ := runs
    (some mappedVector :: List.replicate next.network.tensors.length none) mappedVector mappingMatrix
    ⟨rfl, rfl, rfl, by decide⟩ ⟨rfl, rfl, rfl, by decide⟩ (by simp)
  obtain ⟨final, finished⟩ := succeeds.mpr (by decide)
  obtain ⟨t, value, -, -, numbers⟩ := computed final finished
  exact ⟨next, layers, z, ran, emits, _, final, t, finished, value,
    numbers [] [] [] [1] (by decide) .nil .nil (.cons (by decide) .nil)⟩

end Lowering

end TensorEngine
