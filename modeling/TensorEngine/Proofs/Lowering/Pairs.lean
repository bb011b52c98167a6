import TensorEngine.Proofs.Lowering.Layouts

/-!
# Nodes with two operands

A node over two single precision operands of known extents is lowered if its operands agree on the
shape of a result. The layers that are emitted then run on all values of the operands whose result
can be addressed, and leave that result as the value of the output.

## Main definitions

* `IsOperand`, `Argument.Carries`: operands of known extents, and their values
* `LowersTo`: what is emitted for a node with two operands

## Main results

* `LowersTo.of_rule`: a node is lowered as its rule ends
-/

namespace TensorEngine.Lowering

/-- The value of the graph is given to a node as a single precision operand of this shape, which has
elements and is counted by a signed word. -/
structure IsOperand (graph : Graph) (state : State) (id : ValueId) (argument : Argument)
    (shape : Shape) : Prop where
  given : argument? graph state id = some argument
  typed : argument.type? state.network = some ⟨.f32, shape.toDims⟩
  counted : shape.Counted

/-- The operand has a single precision value of this shape, in addressable memory. -/
structure Argument.Carries (values : Values) (argument : Argument) (shape : Shape) (t : Tensor) :
    Prop where
  value : argument.value? values = some t
  single : t.dtype = .f32
  shape : t.shape = shape
  addressable : t.Addressable

theorem Argument.Carries.isSingle {values : Values} {argument : Argument} {shape : Shape} {t : Tensor}
    (h : argument.Carries values shape t) (counted : shape.Counted) : t.IsSingle shape where
  compact := .of_addressable h.addressable fun zero =>
    Nat.lt_irrefl 0 (counted.positive 0 (h.shape ▸ zero))
  single := h.single
  shape := h.shape

/-- What is emitted for a node with two operands. The node is lowered exactly if there is a shape for
its result, which is recorded for the output. The emitted layers run on values of the operands exactly
if the bytes of the result are counted by a word, and the result is then computed from them. -/
structure LowersTo (graph : Graph) (state : State) (node : Node) (v : ValueId)
    (first second : Argument) (x y : Shape) (shape? : Option Shape)
    (computes : Tensor → Tensor → Tensor → Prop) : Prop where
  accepted : (∃ next, (lowerNode .builtin graph node).run state = (.ok (), next)) ↔ shape?.isSome
  emits : ∀ next, (lowerNode .builtin graph node).run state = (.ok (), next) →
    ∃ out layers z, shape? = some out ∧ state.Emits next layers v z ⟨.f32, out.toDims⟩ ∧
      ∀ values a b, first.Carries values x a → second.Carries values y b →
        next.network.tensors.length ≤ values.length →
          ((∃ final, runLayers layers values = (final, .ok ())) ↔
            4 * out.size < Unsigned.bound) ∧
          ∀ final, runLayers layers values = (final, .ok ()) →
            ∃ t, final.get? z = some t ∧ t.dtype = .f32 ∧ t.shape = out ∧ computes a b t

open Program

variable {graph : Graph} {state : State} {node : Node} {v : ValueId} {first second : Argument}
  {x y : Shape} {shape? : Option Shape} {computes : Tensor → Tensor → Tensor → Prop}

namespace Trial

/-- Layers for a node with two operands, run on values of the operands. -/
def ofPair (state : State) (first second : Argument) (x y : Shape) (shape? : Option Shape) :
    Trial where
  start := state
  Given values := ∃ a b, first.Carries values x a ∧ second.Carries values y b
  fits := ∀ out, shape? = some out → 4 * out.size < Unsigned.bound

/-- The output of the node is bound to a tensor that is computed from the operands. -/
def BindsResult (state : State) (v : ValueId) (first second : Argument) (x y : Shape)
    (shape? : Option Shape) (computes : Tensor → Tensor → Tensor → Prop) (next : State) : Prop :=
  ∃ out, shape? = some out ∧ (ofPair state first second x y shape?).Binds v ⟨.f32, out.toDims⟩
    (fun values t => t.IsSingle out ∧ ∃ a b, first.value? values = some a ∧
      second.value? values = some b ∧ computes a b t) next

end Trial

/-- A node is lowered as its rule ends. -/
theorem LowersTo.of_rule {rule : Rule} {arguments : List Argument}
    (found : RuleTable.builtin.find? node.signature = some rule)
    (given : List.Forall₂ (fun id argument => argument? graph state id = some argument)
      node.inputs arguments)
    (outputs : node.outputs = [v]) (fresh : state.binding? v = none)
    (ends : (rule node arguments).EndsFrom state (fun _ => shape? = none) fun _ =>
      Trial.BindsResult state v first second x y shape? computes) :
    LowersTo graph state node v first second x y shape? computes := by
  have lowered : (lowerNode .builtin graph node).EndsFrom state (fun _ => shape? = none) fun _ =>
      Trial.BindsResult state v first second x y shape? computes :=
    ends_lowerNode found given outputs <| ends.mono fun _ next h => ⟨h,
      let ⟨_, _, binds⟩ := h
      binds.exists_type fresh⟩
  refine ⟨⟨?_, fun some => ?_⟩, fun next ran => ?_⟩
  · rintro ⟨next, ran⟩
    obtain ⟨out, same, -⟩ := lowered.result ran
    exact same ▸ rfl
  · rcases ran : (lowerNode .builtin graph node).run state with ⟨e | _, next⟩
    · cases lowered.error ran ▸ some
    · exact ⟨next, rfl⟩
  · obtain ⟨out, same, binds⟩ := lowered.result ran
    obtain ⟨layers, z, emits, runs⟩ := binds.emits fresh
    refine ⟨out, layers, z, same, emits, fun values a b carriesA carriesB room => ?_⟩
    obtain ⟨succeeds, computed⟩ := runs values ⟨a, b, carriesA, carriesB⟩ room
    refine ⟨⟨?_, fun fits => succeeds fun out' same' => ?_⟩, fun final ran => ?_⟩
    · rintro ⟨final, ran⟩
      obtain ⟨t, -, isSingle, -⟩ := computed final ran
      exact isSingle.bytes
    · cases same.symm.trans same'
      exact fits
    · obtain ⟨t, value, isSingle, a', b', valueA, valueB, result⟩ := computed final ran
      cases valueA.symm.trans carriesA.value
      cases valueB.symm.trans carriesB.value
      exact ⟨t, value, isSingle.single, isSingle.shape, result⟩

namespace Trial

section Operands

variable {trial : Trial} {arguments : List Argument} {position : Nat} {argument : Argument}
  {shape : Shape} {id : ValueId} {fair : RuleError → Prop}

/-- An operand as a tensor of the network. -/
theorem ends_operand (reaches : trial.Reaches state) (keeps : trial.Keeps trial.start state)
    (entry : arguments[position]? = some argument)
    (operand : IsOperand graph trial.start id argument shape)
    (value : ∀ values, trial.Given values → ∃ t, argument.Carries values shape t) :
    (operandAt arguments position).EndsFrom state fair
      (trial.MakesSingle state shape fun values t => argument.value? values = some t) := by
  refine ends_operandAt reaches keeps entry operand.typed fun values given => ?_
  obtain ⟨t, carries⟩ := value values given
  exact ⟨t, carries.value, carries.isSingle operand.counted, carries.value⟩

/-- A rule starts with its two operands as tensors of the network. -/
theorem ends_operands {β : Type} {rest : List Argument} {i j : ValueId}
    {next : TensorId → TensorId → Program RuleError β} {post : β → State → Prop}
    (operandA : IsOperand graph trial.start i first x)
    (operandB : IsOperand graph trial.start j second y)
    (given : ∀ values, trial.Given values → ∃ a b, first.Carries values x a ∧
      second.Carries values y b)
    (later : ∀ p q middle, trial.Reaches middle →
      trial.HoldsSingle middle p x (fun values a => first.value? values = some a) →
      trial.HoldsSingle middle q y (fun values b => second.value? values = some b) →
      (next p q).EndsFrom middle fair post) :
    (operandAt (first :: second :: rest) 0 >>= fun p =>
      operandAt (first :: second :: rest) 1 >>= next p).EndsFrom trial.start fair post := by
  refine (ends_operand reaches_start (.refl _) rfl operandA fun values h =>
    let ⟨a, _, carries, _⟩ := given values h
    ⟨a, carries⟩).bind fun p s1 madeA => ?_
  refine (ends_operand madeA.reaches madeA.keeps rfl operandB fun values h =>
    let ⟨_, b, _, carries⟩ := given values h
    ⟨b, carries⟩).bind fun q s2 madeB => ?_
  exact later p q s2 madeB.reaches (madeB.keeps _ _ _ madeA.holds) madeB.holds

end Operands

end Trial

end TensorEngine.Lowering
