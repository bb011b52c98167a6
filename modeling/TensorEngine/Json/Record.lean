import TensorEngine.Json.Value

/-!
# Reading records

How the formats of the library are read from JSON values. A record is an object whose known keys
occur at most once; unknown keys are skipped together with their values, but every key has to be a
text, and a skipped value has to escape its control characters. A record may also be written as an
array of its fields in order. A choice is the name of an alternative, or an object whose only key is
that name.

## Main definitions

* `Json.record?`, `Json.openRecord?`: the fields of a record
* `Json.choice?`: the name and the content of a choice
* `Json.text?`, `Json.list?`, `Json.option?`, `Json.intBetween?`: values of basic types
* `Json.isRegular`: values that are read as a whole
-/

namespace TensorEngine.Json

open Decimal

/-- The text of a string. -/
def text? : Json → Option String
  | .string body => Quoted.decode? body
  | _ => none

/-- A truth value. -/
def bool? : Json → Option Bool
  | .bool value => some value
  | _ => none

/-- An integer from `least` to `greatest`. -/
def intBetween? (least greatest : Int) : Json → Option Int
  | .number n =>
    match n.integer? with
    | some i => if least ≤ i ∧ i ≤ greatest then some i else none
    | none => none
  | _ => none

/-- A natural number below `bound`. -/
def natBelow? (bound : Nat) (value : Json) : Option Nat :=
  (value.intBetween? 0 (bound - 1)).map Int.toNat

/-- A signed 64-bit integer. -/
def int64? : Json → Option Int :=
  intBetween? Signed.least Signed.greatest

/-- A signed 32-bit integer. -/
def int32? (value : Json) : Option Int32 :=
  (value.intBetween? (-0x80000000) 0x7FFFFFFF).map Int32.ofInt

/-- A size: an unsigned 64-bit integer. -/
def size? : Json → Option Nat :=
  natBelow? Unsigned.bound

/-- The list of an array. -/
def list? {α : Type} (f : Json → Option α) : Json → Option (List α)
  | .array items => items.mapM f
  | _ => none

/-- An optional value: `null` is none. -/
def option? {α : Type} (f : Json → Option α) : Json → Option (Option α)
  | .null => some none
  | value => (f value).map some

/-- A field that may be missing, or `null`. -/
def optionalField? {α : Type} (f : Json → Option α) : Option Json → Option (Option α)
  | none => some none
  | some value => value.option? f

/-- A field that has to be there. -/
def requiredField? {α : Type} (f : Json → Option α) (field : Option Json) : Option α :=
  field.bind f

/-- A field that takes a default when it is missing. -/
def fieldOr? {α : Type} (default : α) (f : Json → Option α) : Option Json → Option α
  | none => some default
  | some value => f value

/-- The members of an object with their keys as texts. -/
def members? : Json → Option (List (String × Json))
  | .object members => members.mapM fun (key, value) => (Quoted.decode? key).map (·, value)
  | _ => none

/-- The only value under `name`, none if there is none; two values are a fault. -/
def field? (members : List (String × Json)) (name : String) : Option (Option Json) :=
  match members.filter (·.1 == name) with
  | [] => some none
  | [(_, value)] => some (some value)
  | _ => none

/-- The values under `names`, each present or missing. All other members are skipped. -/
def fields? (names : List String) (members : List (String × Json)) :
    Option (List (Option Json)) :=
  -- A skipped value is not read, but the rule on control characters holds for it as well.
  if members.all fun (key, value) => names.contains key || value.escapesControls then
    names.mapM (field? members)
  else none

/-- The fields of a record in the order of `names`, each present or missing. -/
def record? (names : List String) : Json → Option (List (Option Json))
  | .array items => if items.length = names.length then some (items.map some) else none
  | value => value.members?.bind (fields? names)

/-- The fields of a record whose fields have defaults: as an array it may also be shorter. -/
def openRecord? (names : List String) : Json → Option (List (Option Json))
  | .array items =>
    if items.length ≤ names.length then
      some (items.map some ++ List.replicate (names.length - items.length) none)
    else none
  | value => value.members?.bind (fields? names)

/-- The name of an alternative and its content, if it is written with one. -/
def choice? : Json → Option (String × Option Json)
  | .string body => (Quoted.decode? body).map (·, none)
  | .object [(key, value)] => (Quoted.decode? key).map (·, some value)
  | _ => none

/-- The name of an alternative that has no content: none is written, or `null`. -/
def plainChoice? (value : Json) : Option String :=
  match value.choice? with
  | some (name, none) => some name
  | some (name, some .null) => some name
  | _ => none

mutual

/-- The value holds at most `depth` arrays and objects inside one another, its strings and keys
are texts, and its numbers are finite. -/
def isRegular : (depth : Nat) → Json → Bool
  | _, .null => true
  | _, .bool _ => true
  | _, .number n => n.double?.isSome
  | _, .string body => (Quoted.decode? body).isSome
  | 0, .array _ => false
  | depth + 1, .array items => areRegular depth items
  | 0, .object _ => false
  | depth + 1, .object members => areRegularMembers depth members
termination_by structural _ value => value

/-- All items are regular. -/
def areRegular : (depth : Nat) → List Json → Bool
  | _, [] => true
  | depth, item :: items => isRegular depth item && areRegular depth items
termination_by structural _ items => items

/-- All members are regular. -/
def areRegularMembers : (depth : Nat) → List (Bytes × Json) → Bool
  | _, [] => true
  | depth, (key, value) :: members =>
    (Quoted.decode? key).isSome && isRegular depth value && areRegularMembers depth members
termination_by structural _ members => members

end

end TensorEngine.Json
