import Mathlib.Data.List.Flatten
import TensorEngine.Plan.Text

/-!
# The size of plans

The text of a JSON value is no shorter than that of a part of it, and takes at least one byte for
every item of an array of objects. A plan whose bytes are counted by a word is therefore the plan of
a network whose tensors are.

## Main results

* `Json.length_bytes_le_of_member`, `Json.length_le_of_objects`: the bytes of members and items
* `EnginePlan.length_tensors_le`: a plan has at least as many bytes as tensors
-/

namespace TensorEngine

namespace Json

open scoped List

/-- Commas are only added. -/
theorem flatten_sublist_separated (stretches : List (List Token)) :
    stretches.flatten <+ separated stretches := by
  induction stretches using separated.induct with
  | case1 => exact .refl _
  | case2 tokens => simp [separated]
  | case3 tokens next rest ih =>
    rw [separated, List.flatten_cons]
    exact (List.Sublist.refl _).append (ih.cons _)

theorem length_flatMap_bytes_le {ts ts' : List Token} (h : ts <+ ts') :
    (ts.flatMap Token.bytes).length ≤ (ts'.flatMap Token.bytes).length :=
  (h.flatMap _).length_le

theorem mem_memberTokens {key : Bytes} {value : Json} {members : List (Bytes × Json)}
    (member : (key, value) ∈ members) :
    .string key :: .colon :: value.tokens ∈ memberTokens members := by
  induction members with
  | nil => cases member
  | cons first members ih =>
    rw [memberTokens, List.mem_cons]
    rcases List.mem_cons.mp member with rfl | later
    · exact .inl rfl
    · exact .inr (ih later)

/-- The value of a member takes no more bytes than the object. -/
theorem length_bytes_le_of_member {key : Bytes} {value : Json} {members : List (Bytes × Json)}
    (member : (key, value) ∈ members) :
    value.bytes.length ≤ (Json.object members).bytes.length := by
  refine length_flatMap_bytes_le ?_
  rw [tokens]
  calc value.tokens
    _ <+ .string key :: .colon :: value.tokens := ((List.Sublist.refl _).cons _).cons _
    _ <+ (memberTokens members).flatten := List.sublist_flatten_of_mem (mem_memberTokens member)
    _ <+ separated (memberTokens members) := flatten_sublist_separated _
    _ <+ .leftBrace :: separated (memberTokens members) ++ [.rightBrace] :=
      (List.sublist_append_left _ _).cons _

theorem length_bytes_le_of_named {value : Json} {members : List (String × Json)} (name : String)
    (member : (name, value) ∈ members) : value.bytes.length ≤ (ofMembers members).bytes.length :=
  length_bytes_le_of_member (List.mem_map.mpr ⟨(name, value), member, rfl⟩)

/-- An array of objects takes at least as many bytes as it has items. -/
theorem length_le_of_objects {items : List Json}
    (objects : ∀ item ∈ items, ∃ members, item = .object members) :
    items.length ≤ (Json.array items).bytes.length := by
  -- Every object takes its braces.
  have parts : items.length ≤ ((itemTokens items).flatten.flatMap Token.bytes).length := by
    induction items with
    | nil => exact Nat.zero_le _
    | cons item items ih =>
      obtain ⟨⟨members, rfl⟩, others⟩ := List.forall_mem_cons.mp objects
      have rest := ih others
      rw [itemTokens, List.flatten_cons, List.flatMap_append, List.length_append, tokens]
      simp only [List.cons_append, List.flatMap_cons, Token.bytes, List.length_append,
        List.length_cons, List.length_nil]
      omega
  refine Nat.le_trans parts (length_flatMap_bytes_le ?_)
  rw [tokens]
  calc (itemTokens items).flatten
    _ <+ separated (itemTokens items) := flatten_sublist_separated _
    _ <+ .leftBracket :: separated (itemTokens items) ++ [.rightBracket] :=
      (List.sublist_append_left _ _).cons _

end Json

namespace EnginePlan

/-- A plan has at least as many bytes as its network has tensors. -/
theorem length_tensors_le (plan : EnginePlan) :
    plan.network.tensors.length ≤ plan.bytes.length :=
  calc plan.network.tensors.length
    _ = (plan.network.tensors.map NetworkTensor.toJson).length := (List.length_map _).symm
    _ ≤ (Json.ofList NetworkTensor.toJson plan.network.tensors).bytes.length := by
      refine Json.length_le_of_objects fun item listed => ?_
      obtain ⟨t, -, rfl⟩ := List.mem_map.mp listed
      exact ⟨_, rfl⟩
    _ ≤ plan.network.toJson.bytes.length :=
      Json.length_bytes_le_of_named "tensors" (by simp)
    _ ≤ plan.bytes.length :=
      Json.length_bytes_le_of_named "network" (by simp)

end EnginePlan

end TensorEngine
