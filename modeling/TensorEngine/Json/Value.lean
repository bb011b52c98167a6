import TensorEngine.Json.Token

/-!
# JSON values

A value of JSON text, its compact text, and reading it back. The reader is a machine with a stack
of open arrays and objects that takes one token at a time, so texts of any depth are read.

## Main definitions

* `Json`, `Json.bytes`: values and their compact text
* `Json.escapesControls`: values that escape the control characters in their strings
* `Json.Reader`, `Json.parse?`: the machine, and the value of a whole text
-/

namespace TensorEngine

open Decimal

/-- A JSON value. Strings and keys are kept as they are quoted; members keep their order, and a
key may occur more than once. -/
inductive Json
  | null
  | bool (value : Bool)
  | number (numeral : Numeral)
  | string (body : Bytes)
  | array (items : List Json)
  | object (members : List (Bytes × Json))

namespace Json

/-- The value of an integer. -/
def ofInt (i : Int) : Json :=
  .number (.ofInt i)

/-- The value of a natural number. -/
def ofNat (n : Nat) : Json :=
  ofInt n

/-- The value of a text. -/
def ofString (text : String) : Json :=
  .string (Quoted.encode text)

/-- The array of a list. -/
def ofList {α : Type} (f : α → Json) (xs : List α) : Json :=
  .array (xs.map f)

/-- The value of something optional: `null` when there is none. -/
def ofOption {α : Type} (f : α → Json) : Option α → Json
  | none => .null
  | some a => f a

/-- An object with these members. -/
def ofMembers (members : List (String × Json)) : Json :=
  .object (members.map fun (key, value) => (Quoted.encode key, value))

/-- Puts a comma between stretches of tokens. -/
def separated : List (List Token) → List Token
  | [] => []
  | [tokens] => tokens
  | tokens :: next :: rest => tokens ++ .comma :: separated (next :: rest)

mutual

/-- The tokens of a value. -/
def tokens : Json → List Token
  | .null => [.null]
  | .bool value => [.bool value]
  | .number n => [.number n]
  | .string body => [.string body]
  | .array items => .leftBracket :: separated (itemTokens items) ++ [.rightBracket]
  | .object members => .leftBrace :: separated (memberTokens members) ++ [.rightBrace]
termination_by structural value => value

/-- The tokens of each item. -/
def itemTokens : List Json → List (List Token)
  | [] => []
  | item :: items => item.tokens :: itemTokens items
termination_by structural items => items

/-- The tokens of each member. -/
def memberTokens : List (Bytes × Json) → List (List Token)
  | [] => []
  | (key, value) :: members =>
    (.string key :: .colon :: value.tokens) :: memberTokens members
termination_by structural members => members

end

/-- The compact text of a value. -/
def bytes (value : Json) : Bytes :=
  value.tokens.flatMap Token.bytes

mutual

/-- Every control character in a string or a key of the value is written as an escape. -/
def escapesControls : Json → Bool
  | .null => true
  | .bool _ => true
  | .number _ => true
  | .string body => Quoted.escapesControls body
  | .array items => allEscapeControls items
  | .object members => membersEscapeControls members
termination_by structural value => value

/-- All items escape control characters. -/
def allEscapeControls : List Json → Bool
  | [] => true
  | item :: items => item.escapesControls && allEscapeControls items
termination_by structural items => items

/-- All keys and their values escape control characters. -/
def membersEscapeControls : List (Bytes × Json) → Bool
  | [] => true
  | (key, value) :: members =>
    Quoted.escapesControls key && value.escapesControls && membersEscapeControls members
termination_by structural members => members

end

/-- An array or object that is still open: what it holds so far (last first), and the key that
waits for its value. -/
inductive Frame
  | array (items : List Json)
  | object (members : List (Bytes × Json)) (key : Bytes)

/-- Where a reader stands; the frames around it are listed from the innermost. -/
inductive Reader
  /-- A value has to follow. -/
  | value (frames : List Frame)
  /-- An array was opened: an item or its end follows. -/
  | firstItem (frames : List Frame)
  /-- An object was opened: a key or its end follows. -/
  | firstKey (frames : List Frame)
  /-- A comma in an object: a key has to follow. -/
  | nextKey (members : List (Bytes × Json)) (frames : List Frame)
  /-- A key: a colon has to follow. -/
  | colon (members : List (Bytes × Json)) (key : Bytes) (frames : List Frame)
  /-- An item is complete: a comma or the end of the array follows. -/
  | afterItem (items : List Json) (frames : List Frame)
  /-- A member is complete: a comma or the end of the object follows. -/
  | afterMember (members : List (Bytes × Json)) (frames : List Frame)
  /-- The whole value is complete. -/
  | finished (value : Json)

/-- Hands a complete value to the innermost frame. -/
def Reader.close (v : Json) : List Frame → Reader
  | [] => .finished v
  | .array items :: frames => .afterItem (v :: items) frames
  | .object members key :: frames => .afterMember ((key, v) :: members) frames

/-- Takes the first token of a value. -/
def Reader.begin? (frames : List Frame) : Token → Option Reader
  | .null => some (close .null frames)
  | .bool b => some (close (.bool b) frames)
  | .number n => some (close (.number n) frames)
  | .string body => some (close (.string body) frames)
  | .leftBracket => some (.firstItem frames)
  | .leftBrace => some (.firstKey frames)
  | _ => none

/-- Takes one token. -/
def Reader.step? : Reader → Token → Option Reader
  | .value frames, token => begin? frames token
  | .firstItem frames, .rightBracket => some (close (.array []) frames)
  | .firstItem frames, token => begin? (.array [] :: frames) token
  | .firstKey frames, .rightBrace => some (close (.object []) frames)
  | .firstKey frames, .string key => some (.colon [] key frames)
  | .nextKey members frames, .string key => some (.colon members key frames)
  | .colon members key frames, .colon => some (.value (.object members key :: frames))
  | .afterItem items frames, .comma => some (.value (.array items :: frames))
  | .afterItem items frames, .rightBracket => some (close (.array items.reverse) frames)
  | .afterMember members frames, .comma => some (.nextKey members frames)
  | .afterMember members frames, .rightBrace => some (close (.object members.reverse) frames)
  | _, _ => none

/-- The value that the tokens write, when they write exactly one. -/
def ofTokens? (tokens : List Token) : Option Json :=
  match tokens.foldlM Reader.step? (.value []) with
  | some (.finished value) => some value
  | _ => none

/-- The value of a text. -/
def parse? (text : Bytes) : Option Json :=
  (Token.all? text).bind ofTokens?

end Json

end TensorEngine
