/-!
# Reading integers

A signed decimal integer within given limits: an optional sign, then ASCII digits and nothing
else. Characters are taken from left to right, and the first one that cannot be taken names the
fault, so a digit that leaves the limits is reported before a later character that is no digit.
-/

namespace TensorEngine.Text

/-- Why a text is not an integer within the limits. -/
inductive IntegerFault
  | empty
  | invalidDigit
  | tooLarge
  | tooSmall
  deriving DecidableEq, Repr

/-- The wording of an integer fault. -/
def IntegerFault.message : IntegerFault → String
  | .empty => "cannot parse integer from empty string"
  | .invalidDigit => "invalid digit found in string"
  | .tooLarge => "number too large to fit in target type"
  | .tooSmall => "number too small to fit in target type"

/-- The value of a decimal digit. -/
def digitValue? (c : Char) : Option Nat :=
  if c.isDigit then some (c.toNat - '0'.toNat) else none

/-- Appends digits to a value, upward as long as it is at most `greatest`. -/
def countUp (greatest : Int) (value : Int) (c : Char) : Except IntegerFault Int :=
  match digitValue? c with
  | none => .error .invalidDigit
  | some digit =>
    if value * 10 + digit ≤ greatest then .ok (value * 10 + digit) else .error .tooLarge

/-- Appends digits to a value, downward as long as it is at least `least`. -/
def countDown (least : Int) (value : Int) (c : Char) : Except IntegerFault Int :=
  match digitValue? c with
  | none => .error .invalidDigit
  | some digit =>
    if least ≤ value * 10 - digit then .ok (value * 10 - digit) else .error .tooSmall

/-- The integer from `least` to `greatest` that these characters write. -/
def readInteger (least greatest : Int) : List Char → Except IntegerFault Int
  | [] => .error .empty
  | ['+'] => .error .invalidDigit
  | ['-'] => .error .invalidDigit
  | '+' :: digits => digits.foldlM (countUp greatest) 0
  | '-' :: digits => digits.foldlM (countDown least) 0
  | digits => digits.foldlM (countUp greatest) 0

/-- The signed 32-bit integer that a text writes. -/
def readInt32 (text : String) : Except IntegerFault Int32 :=
  (readInteger (-0x80000000) 0x7FFFFFFF text.toList).map Int32.ofInt

end TensorEngine.Text
