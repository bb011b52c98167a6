import TensorEngine.Lowering.RuleTable
import TensorEngine.Proofs.Lowering.Pairs

/-!
# Elementwise nodes

A sum, a difference or a product of two operands is lowered exactly if they are broadcast. Its
operands are laid out with as many axes, the second one may be multiplied by a constant of one number,
and one layer combines them. By multi-index, every number of the result is computed from the numbers
of the operands at the last indices.

## Main definitions

* `elementWiseOperations`: what nodes compute from two numbers and a factor
* `IsFactor`: the factor that a node is given

## Main results

* `elementWise_node_broadcasts`: elementwise nodes
-/

namespace TensorEngine.Lowering

/-- What the elementwise operations compute from two numbers, and from the factor of the second one as
far as it is scaled. -/
def elementWiseOperations : List (Signature × (UInt64 → UInt32 → UInt32 → UInt32)) :=
  [ (⟨"aten::add.Tensor(Tensor self, Tensor other, *, Scalar alpha=1) -> (Tensor)"⟩,
      ElementWiseOp.sum.scaledEval),
    (⟨"aten::add_.Tensor(Tensor(a!) self, Tensor other, *, Scalar alpha=1) -> (Tensor(a!))"⟩,
      ElementWiseOp.sum.scaledEval),
    (⟨"aten::sub.Tensor(Tensor self, Tensor other, *, Scalar alpha=1) -> (Tensor)"⟩,
      ElementWiseOp.sub.scaledEval),
    (⟨"aten::mul.Tensor(Tensor self, Tensor other) -> (Tensor)"⟩, fun _ => ElementWiseOp.prod.eval) ]

/-- The inputs behind the operands of a node mean a factor: there are none, or one that is a constant
none, integer or floating point number. -/
inductive IsFactor (graph : Graph) (state : State) : List ValueId → List Argument → UInt64 → Prop
  | absent : IsFactor graph state [] [] Binary.doubleOne
  | constant {id : ValueId} {c : Constant} {factor : UInt64}
      (given : argument? graph state id = some (.constant c)) (means : c.factor? = some factor) :
      IsFactor graph state [id] [.constant c] factor

open Program

variable {graph : Graph} {state : State} {node : Node} {v i j : ValueId} {ids : List ValueId}
  {first second : Argument} {rest : List Argument} {x y : Shape} {factor : UInt64}
  {fair : RuleError → Prop}

namespace Trial

/-! ### Steps -/

section Steps

variable {trial : Trial} {P : Values → Tensor → Prop} {shape : Shape} {z : TensorId}

theorem exists_scalarTensor (rank : Nat) (pattern : UInt32) :
    ∃ weights, scalarTensor rank pattern = .ok weights ∧
      Tensor.ofFloats (List.replicate rank 1) [pattern] = .ok weights ∧
      weights.IsSingle (List.replicate rank 1) := by
  have size : Shape.size (List.replicate rank 1) = 1 := by
    rw [Shape.size_eq_prod, List.prod_replicate, Nat.one_pow]
  obtain ⟨weights, accepted⟩ : ∃ t, Tensor.ofFloats (List.replicate rank 1) [pattern] = .ok t :=
    Tensor.exists_ofFloats (Unsigned.isSome_product? (by rw [size]; exact Nat.one_pos)
      (by rw [size]; decide)) size.symm
  obtain ⟨-, single, shape, -⟩ := Tensor.ofFloats_eq_ok_iff.mp accepted
  refine ⟨weights, by rw [scalarTensor, accepted]; rfl, accepted, ?_, single, shape⟩
  exact Tensor.compact_of_ofFloats (by rw [size]; exact Nat.one_pos) accepted

/-- Scaling a tensor makes the scaled tensor. -/
theorem ends_scale (reaches : trial.Reaches state) (holds : trial.HoldsSingle state z shape P)
    (factor : UInt64) : (scale node z factor).EndsFrom state fair
      (trial.MakesSingle state shape fun values c => ∃ b, (b.IsSingle shape ∧ P values b) ∧
        b.scaledBy? factor = some c) := by
  unfold scale
  split
  next one =>
    refine .pure (.of_holds reaches (holds.mono fun values b _ known => ?_))
    exact ⟨known.1, b, known, by rw [Tensor.scaledBy?, if_pos one]⟩
  next other =>
    refine .tensorOf_bind holds.recorded fun name => ?_
    rw [if_neg (not_not_intro rfl)]
    obtain ⟨weights, accepted, scalar, isSingle⟩ :=
      exists_scalarTensor (Dims.rank shape.toDims) (Binary.narrow factor)
    refine .ofExcept_bind accepted ?_
    refine (ends_constant_single reaches isSingle).bind fun w middle made => ?_
    have rank := Shape.rank_toDims shape
    have stretched : Shape.stretched? shape (List.replicate (Dims.rank shape.toDims) 1) = some shape :=
      rank ▸ Shape.stretched?_ones shape
    refine ((ends_combine made.reaches (made.keeps _ _ _ holds) made.holds ?_).fairly ?_).mono ?_
    · rintro - values b - ⟨isSingle, -⟩ - out same
      cases stretched.symm.trans same
      exact Unsigned.isSome_product? isSingle.size_pos isSingle.bytes
    · intro e refused
      cases stretched.symm.trans refused
    · rintro u next ⟨out, same, combined⟩
      cases stretched.symm.trans same
      refine (combined.of_keeps made.keeps).mono ?_
      rintro values c - ⟨isSingleC, b, _, known, ⟨-, rfl⟩, computed⟩
      refine ⟨isSingleC, b, known, Tensor.scaledBy?_of_elementWise other known.1.compact ?_ computed⟩
      rw [Tensor.rank, known.1.shape, ← rank]
      exact scalar

variable (trial) in
/-- The operands of an elementwise operation are laid out with as many axes. -/
theorem ends_broadcastOperands (operandA : IsOperand graph trial.start i first x)
    (operandB : IsOperand graph trial.start j second y)
    (given : ∀ values, trial.Given values → ∃ a b, first.Carries values x a ∧
      second.Carries values y b) :
    (broadcastOperands node (first :: second :: rest)).EndsFrom trial.start fair fun operands next =>
      trial.Reaches next ∧
      trial.HoldsSingle next operands.1 (x.padded (max x.rank y.rank)) (fun values u => ∃ a,
        (a.IsSingle x ∧ first.value? values = some a) ∧
          a.reshape (x.padded (max x.rank y.rank)) = .ok u) ∧
      trial.HoldsSingle next operands.2 (y.padded (max x.rank y.rank)) (fun values u => ∃ b,
        (b.IsSingle y ∧ second.value? values = some b) ∧
          b.reshape (y.padded (max x.rank y.rank)) = .ok u) := by
  refine ends_operands operandA operandB given fun p q middle reaches holdsA holdsB => ?_
  refine .dimsOf_bind holdsA.recorded (.dimsOf_bind holdsB.recorded ?_)
  rw [Shape.rank_toDims, Shape.rank_toDims]
  refine (ends_expandRank reaches holdsA operandA.counted).bind fun p' s1 madeA => ?_
  refine (ends_expandRank madeA.reaches (madeA.keeps _ _ _ holdsB) operandB.counted).bind
    fun q' s2 madeB => ?_
  exact .pure ⟨madeB.reaches, madeB.keeps _ _ _ madeA.holds, madeB.holds⟩

end Steps

end Trial

theorem scaleFactor_eq_ok (h : IsFactor graph state ids rest factor) :
    scaleFactor (first :: second :: rest) = .ok factor := by
  cases h with
  | absent => rfl
  | @constant _ c _ _ means => cases c <;> cases means <;> rfl

/-- The layer that combines operands with as many axes, the second of which was scaled, computes the
result. -/
theorem ends_combination {op : ElementWiseOp} {p q : TensorId} {next : State}
    (reaches : (Trial.ofPair state first second x y (x.broadcast? y)).Reaches next)
    (holdsA : (Trial.ofPair state first second x y (x.broadcast? y)).HoldsSingle next p
      (x.padded (max x.rank y.rank)) fun values u => ∃ a,
        (a.IsSingle x ∧ first.value? values = some a) ∧
          a.reshape (x.padded (max x.rank y.rank)) = .ok u)
    (holdsB : (Trial.ofPair state first second x y (x.broadcast? y)).HoldsSingle next q
      (y.padded (max x.rank y.rank)) fun values u => ∃ b',
        (b'.IsSingle (y.padded (max x.rank y.rank)) ∧ ∃ b,
          (b.IsSingle y ∧ second.value? values = some b) ∧
            b.reshape (y.padded (max x.rank y.rank)) = .ok b') ∧ b'.scaledBy? factor = some u)
    (outputs : node.outputs = [v]) (fresh : state.binding? v = none) :
    (combine node p q op "" >>= fun z => bindOutput node z).EndsFrom next
      (fun _ => x.broadcast? y = none) fun _ => Trial.BindsResult state v first second x y
        (x.broadcast? y) (Tensor.IsCombination (op.scaledEval factor)) := by
  refine (Trial.ends_combine reaches holdsA holdsB ?_).bind ?_
  · rintro fits - a b ⟨isSingleA, -⟩ ⟨isSingleB, -⟩ out same
    exact Unsigned.isSome_product?
      (Shape.size_pos_of_stretched? same isSingleA.size_pos isSingleB.size_pos) (fits out same)
  · rintro z last ⟨out, same, made⟩
    refine (Trial.ends_bindOutput made.reaches (made.holds.mono ?_) outputs fresh).mono
      fun _ _ binds => ⟨out, same, binds⟩
    rintro values t - ⟨isSingle, a', c', ⟨-, a, ⟨isSingleA, valueA⟩, laidA⟩,
      ⟨-, b', ⟨-, b, ⟨isSingleB, valueB⟩, laidB⟩, scaled⟩, computed⟩
    refine ⟨isSingle, a, b, valueA, valueB, ?_⟩
    -- Scaling the operand under its padded shape is padding the scaled operand.
    obtain ⟨c, scaled, shape, compactC, laidC⟩ :=
      Tensor.scaledBy?_of_reshape isSingleB.compact laidB scaled
    obtain ⟨combined, -⟩ := Tensor.combine?_of_elementWise isSingleA.compact compactC
      (by rwa [Tensor.rank, Tensor.rank, shape, isSingleA.shape, isSingleB.shape])
      (by rwa [Tensor.rank, Tensor.rank, shape, isSingleA.shape, isSingleB.shape]) computed
    exact Tensor.isCombination_of_combine? scaled combined

/-- Sums and differences are lowered if their operands are broadcast. -/
theorem ends_scaled {op : ElementWiseOp} (operandA : IsOperand graph state i first x)
    (operandB : IsOperand graph state j second y) (isFactor : IsFactor graph state ids rest factor)
    (outputs : node.outputs = [v]) (fresh : state.binding? v = none) :
    (scaled op node (first :: second :: rest)).EndsFrom state (fun _ => x.broadcast? y = none)
      fun _ => Trial.BindsResult state v first second x y (x.broadcast? y)
        (Tensor.IsCombination (op.scaledEval factor)) := by
  refine (Trial.ends_broadcastOperands (.ofPair state first second x y (x.broadcast? y))
    operandA operandB fun _ => id).bind ?_
  rintro ⟨p, q⟩ middle ⟨reaches, holdsA, holdsB⟩
  refine .ofExcept_bind (scaleFactor_eq_ok isFactor) ?_
  refine (Trial.ends_scale reaches holdsB factor).bind fun q' next made => ?_
  exact ends_combination made.reaches (made.keeps _ _ _ holdsA) made.holds outputs fresh

/-- Products are lowered if their operands are broadcast. -/
theorem ends_elementProduct (operandA : IsOperand graph state i first x)
    (operandB : IsOperand graph state j second y) (outputs : node.outputs = [v])
    (fresh : state.binding? v = none) :
    (elementProduct node (first :: second :: rest)).EndsFrom state (fun _ => x.broadcast? y = none)
      fun _ => Trial.BindsResult state v first second x y (x.broadcast? y)
        (Tensor.IsCombination (ElementWiseOp.prod.scaledEval Binary.doubleOne)) := by
  refine (Trial.ends_broadcastOperands (.ofPair state first second x y (x.broadcast? y))
    operandA operandB fun _ => id).bind ?_
  rintro ⟨p, q⟩ middle ⟨reaches, holdsA, holdsB⟩
  refine ends_combination reaches holdsA (holdsB.mono ?_) outputs fresh
  exact fun values u _ ⟨isSingle, known⟩ => ⟨isSingle, u, ⟨isSingle, known⟩, if_pos rfl⟩

/-- An elementwise node over two single precision operands of known positive extents is lowered
exactly if the operands are broadcast, aligned from the right. The layers that are emitted then compute
at every multi-index the operation on the numbers of the operands at the multi-indices that belong to
it, the second number being multiplied by the factor unless that is one or the node is a product. -/
theorem elementWise_node_broadcasts {f : UInt64 → UInt32 → UInt32 → UInt32}
    (listed : (node.signature, f) ∈ elementWiseOperations) (inputs : node.inputs = i :: j :: ids)
    (outputs : node.outputs = [v]) (fresh : state.binding? v = none)
    (operandA : IsOperand graph state i first x) (operandB : IsOperand graph state j second y)
    (isFactor : IsFactor graph state ids rest factor) :
    LowersTo graph state node v first second x y (x.broadcast? y)
      (Tensor.IsCombination (f factor)) := by
  have given : List.Forall₂ (fun id argument => argument? graph state id = some argument)
      node.inputs (first :: second :: rest) := by
    rw [inputs]
    refine .cons operandA.given (.cons operandB.given ?_)
    cases isFactor with
    | absent => exact .nil
    | constant given => exact .cons given .nil
  simp only [elementWiseOperations, List.mem_cons, Prod.mk.injEq, List.not_mem_nil, or_false]
    at listed
  obtain ⟨signature, rfl⟩ | ⟨signature, rfl⟩ | ⟨signature, rfl⟩ | ⟨signature, rfl⟩ := listed
  · exact .of_rule (signature ▸ rfl) given outputs fresh
      (ends_scaled operandA operandB isFactor outputs fresh)
  · exact .of_rule (signature ▸ rfl) given outputs fresh
      (ends_scaled operandA operandB isFactor outputs fresh)
  · exact .of_rule (signature ▸ rfl) given outputs fresh
      (ends_scaled operandA operandB isFactor outputs fresh)
  · exact .of_rule (signature ▸ rfl) given outputs fresh
      (ends_elementProduct operandA operandB outputs fresh)

/-! ### A scaled difference -/

/-- A column of two numbers. -/
def shiftedColumn : Tensor :=
  ⟨.f32, [2, 1], [0, 0, 128, 63, 0, 0, 0, 64], rfl⟩

/-- A row of three numbers. -/
def shiftingRow : Tensor :=
  ⟨.f32, [3], [0, 0, 128, 63, 0, 0, 0, 64, 0, 0, 64, 64], rfl⟩

/-- A column minus a constant row that is doubled before. -/
def shiftNode : Node :=
  ⟨⟨"aten::sub.Tensor(Tensor self, Tensor other, *, Scalar alpha=1) -> (Tensor)"⟩,
    [⟨0⟩, ⟨1⟩, ⟨2⟩], [⟨3⟩]⟩

/-- The graph of that node. -/
def shiftGraph : Graph where
  values := [⟨"column", .input .f32 [2, 1]⟩, ⟨"row", .constant (.tensor shiftingRow)⟩,
    ⟨"alpha", .constant (.int 2)⟩, ⟨"shifted", .tensor⟩]
  nodes := [shiftNode]
  inputs := [⟨0⟩]
  outputs := [⟨3⟩]

/-- The state in which the node is lowered. -/
def shiftState : State where
  settings := ⟨false, ⟨0, 8, 6⟩⟩
  network := ⟨[⟨"input_0", .f32, [2, 1]⟩], [], [⟨0⟩], []⟩
  bindings := [(⟨0⟩, ⟨0⟩)]
  frozen := 0
  journal := []

/-- The column is broadcast along its rows and the row along its columns. -/
theorem elementWise_node_broadcasts_shift :
    ∃ next layers z, (lowerNode .builtin shiftGraph shiftNode).run shiftState = (.ok (), next) ∧
      shiftState.Emits next layers ⟨3⟩ z ⟨.f32, [2, 3]⟩ ∧
      ∃ values final t, runLayers layers values = (final, .ok ()) ∧ final.get? z = some t ∧
        t.number [1, 2] = Binary.Single.sub (shiftedColumn.number [1, 0])
          (Binary.Single.mul (shiftingRow.number [2]) (Binary.narrow (Binary.doubleOfInt 2))) := by
  have listed : (shiftNode.signature, ElementWiseOp.sub.scaledEval) ∈ elementWiseOperations :=
    .tail _ (.tail _ (.head _))
  have column : IsOperand shiftGraph shiftState ⟨0⟩ (.tensor ⟨0⟩) [2, 1] :=
    ⟨rfl, rfl, by decide⟩
  have row : IsOperand shiftGraph shiftState ⟨1⟩ (.constant (.tensor shiftingRow)) [3] :=
    ⟨rfl, by decide +kernel, by decide⟩
  have alpha : IsFactor shiftGraph shiftState [⟨2⟩] [.constant (.int 2)] (Binary.doubleOfInt 2) :=
    .constant rfl rfl
  have lowers := elementWise_node_broadcasts listed rfl rfl rfl column row alpha
  obtain ⟨next, ran⟩ := lowers.accepted.mpr (by decide)
  obtain ⟨out, layers, z, same, emits, runs⟩ := lowers.emits next ran
  cases (show Shape.broadcast? [2, 1] [3] = some [2, 3] by decide).symm.trans same
  obtain ⟨succeeds, computed⟩ := runs
    (some shiftedColumn :: List.replicate next.network.tensors.length none) shiftedColumn shiftingRow
    ⟨rfl, rfl, rfl, by decide⟩ ⟨rfl, rfl, rfl, by decide⟩ (by simp)
  obtain ⟨final, finished⟩ := succeeds.mpr (by decide)
  obtain ⟨t, value, -, shape, numbers⟩ := computed final finished
  have within : Shape.Within [1, 2] t.shape := by
    rw [shape]
    exact .cons (by decide) (.cons (by decide) .nil)
  have number := numbers [1, 2] within
  rw [ElementWiseOp.scaledEval, if_neg (by decide +kernel)] at number
  exact ⟨next, layers, z, ran, emits, _, final, t, finished, value, number⟩

end TensorEngine.Lowering
