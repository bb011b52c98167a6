import TensorEngine.Json.Value

/-!
# Indented JSON text

A value over several lines: every item and member on a line of its own, two blanks further in than
the array or object around it. An empty array or object stays on its line.
-/

namespace TensorEngine.Json

/-- A line break and the indentation of a depth. -/
def lineBreak (depth : Nat) : Bytes :=
  0x0A :: List.replicate (2 * depth) 0x20

/-- Entries between two brackets, each on a line of its own. -/
def bracketed (opening closing : UInt8) (depth : Nat) : List Bytes → Bytes
  | [] => [opening, closing]
  | entries =>
    let lines := entries.map (lineBreak (depth + 1) ++ ·)
    opening :: [0x2C].intercalate lines ++ lineBreak depth ++ [closing]

mutual

/-- The indented text of a value at a depth. -/
def indented : (depth : Nat) → Json → Bytes
  | depth, .array items => bracketed 0x5B 0x5D depth (indentedItems (depth + 1) items)
  | depth, .object members => bracketed 0x7B 0x7D depth (indentedMembers (depth + 1) members)
  | _, .null => Token.null.bytes
  | _, .bool value => (Token.bool value).bytes
  | _, .number n => (Token.number n).bytes
  | _, .string body => (Token.string body).bytes
termination_by structural _ value => value

/-- The indented texts of items. -/
def indentedItems : (depth : Nat) → List Json → List Bytes
  | _, [] => []
  | depth, item :: items => indented depth item :: indentedItems depth items
termination_by structural _ items => items

/-- The indented texts of members. -/
def indentedMembers : (depth : Nat) → List (Bytes × Json) → List Bytes
  | _, [] => []
  | depth, (key, value) :: members =>
    ((Token.string key).bytes ++ [0x3A, 0x20] ++ indented depth value) ::
      indentedMembers depth members
termination_by structural _ members => members

end

/-- The indented text of a value. -/
def pretty (value : Json) : Bytes :=
  indented 0 value

end TensorEngine.Json
