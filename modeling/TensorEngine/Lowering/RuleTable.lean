import TensorEngine.Lowering.ElementWise
import TensorEngine.Lowering.Products
import TensorEngine.Lowering.Shuffles
import TensorEngine.Sorting

/-!
# Rule tables

The rules of a lowering, each under the signature it lowers. The first rule of a signature stays.

## Main definitions

* `RuleTable`, `RuleTable.register`: tables, and adding a rule
* `builtinRules`, `RuleTable.builtin`: the rules of the library
-/

namespace TensorEngine.Lowering

/-- A signature that has a rule already. -/
structure RegistrationConflict where
  signature : Signature
  deriving DecidableEq, Repr

/-- The wording of a conflict. -/
def RegistrationConflict.message (e : RegistrationConflict) : String :=
  s!"a converter is already registered for `{e.signature.schema}`"

/-- Rules in the order of their registration. -/
structure RuleTable where
  rules : List (Signature × Rule)

namespace RuleTable

/-- The table without rules. -/
def empty : RuleTable :=
  ⟨[]⟩

/-- The rule of a signature. -/
def find? (table : RuleTable) (signature : Signature) : Option Rule :=
  table.rules.lookup signature

/-- The signature has a rule. -/
def contains (table : RuleTable) (signature : Signature) : Bool :=
  (table.find? signature).isSome

/-- The number of rules. -/
def size (table : RuleTable) : Nat :=
  table.rules.length

/-- The schemas that have a rule, in ascending order. -/
def schemas (table : RuleTable) : List String :=
  sorted (· ≤ ·) (table.rules.map (·.1.schema))

/-- Adds a rule for a signature without one. -/
def register (table : RuleTable) (signature : Signature) (rule : Rule) :
    Except RegistrationConflict RuleTable :=
  if table.contains signature then .error ⟨signature⟩
  else .ok ⟨table.rules ++ [(signature, rule)]⟩

/-- Adds rules one after the other up to the first conflict. -/
def extend (table : RuleTable) :
    List (Signature × Rule) → RuleTable × Except RegistrationConflict Unit
  | [] => (table, .ok ())
  | (signature, rule) :: rest =>
    match table.register signature rule with
    | .ok table => table.extend rest
    | .error e => (table, .error e)

end RuleTable

/-- A constant tensor as a constant layer. -/
def constantTensor : Rule := fun node arguments => do
  let weights ← (do (← argumentAt arguments 0).constantTensor : Except RuleError Tensor)
  let output ← perform (.addConstant (layerName node "") weights)
  bindOutput node output

/-- The rules of the library. -/
def builtinRules : List (Signature × Rule) :=
  [ (⟨"aten::matmul(Tensor self, Tensor other) -> (Tensor)"⟩, matmul),
    (⟨"aten::mm(Tensor self, Tensor mat2) -> (Tensor)"⟩, matrixProduct),
    (⟨"aten::bmm(Tensor self, Tensor mat2) -> (Tensor)"⟩, stackProduct),
    (⟨"aten::flatten.using_ints(Tensor self, int start_dim=0, int end_dim=-1) -> (Tensor)"⟩,
      flatten),
    (⟨"aten::reshape(Tensor self, int[] shape) -> (Tensor)"⟩, reshapeTo),
    (⟨"aten::view(Tensor(a) self, int[] size) -> (Tensor(a))"⟩, reshapeTo),
    (⟨"aten::permute(Tensor(a) self, int[] dims) -> (Tensor(a))"⟩, permuteAxes),
    (⟨"aten::t(Tensor self) -> (Tensor)"⟩, transposeAll),
    (⟨"aten::add.Tensor(Tensor self, Tensor other, *, Scalar alpha=1) -> (Tensor)"⟩,
      scaled .sum),
    (⟨"aten::add_.Tensor(Tensor(a!) self, Tensor other, *, Scalar alpha=1) -> (Tensor(a!))"⟩,
      scaled .sum),
    (⟨"aten::sub.Tensor(Tensor self, Tensor other, *, Scalar alpha=1) -> (Tensor)"⟩,
      scaled .sub),
    (⟨"aten::mul.Tensor(Tensor self, Tensor other) -> (Tensor)"⟩, elementProduct),
    (⟨"trt::const(Tensor val) -> (Tensor)"⟩, constantTensor) ]

/-- The table of the library's rules. -/
def RuleTable.builtin : RuleTable :=
  ⟨builtinRules⟩

end TensorEngine.Lowering
