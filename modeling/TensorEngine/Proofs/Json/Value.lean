import Mathlib.Data.List.Basic
import TensorEngine.Json.Record
import TensorEngine.Proofs.Json.Quoted

/-!
# Written values read back

The compact text of a value is the text of its tokens, one behind the other. No blanks stand
between them, so a token has to end where the next one begins: quotes and brackets show their end
themselves, and a number ends because a comma or a closing bracket follows it. Taken apart again,
the tokens lead the machine that reads values through the value they were written for.

## Main definitions

* `Json.IsWritten`: values whose numbers are integers and whose strings are encoded texts
* `Lexes`: a text and the tokens it consists of

## Main results

* `spanNumeral?_ofInt`: the numeral of an integer is found in front of what ends it
* `ofTokens?_tokens`: the tokens of a value build it
* `parse?_bytes`: the text of a written value reads back
-/

namespace TensorEngine.Json

open Decimal Quoted

/-! ### Numerals -/

/-- What may stand behind a number: nothing, a comma or a closing bracket. -/
def Stops : Bytes → Prop
  | [] => True
  | byte :: _ => byte = 0x2C ∨ byte = 0x5D ∨ byte = 0x7D

private theorem ascii_of_isDigit {c : Char} (h : c.isDigit = true) :
    asciiChar (asciiByte c) = c ∧ isDigit (asciiByte c) = true := by
  obtain ⟨low, high⟩ := Char.isDigit_iff_toNat.mp h
  have low' : 48 ≤ c.toNat := low
  have high' : c.toNat ≤ 57 := high
  have value : (asciiByte c).toNat = c.toNat := by
    rw [asciiByte, UInt8.toNat_ofNat', Nat.mod_eq_of_lt (by omega)]
  constructor
  · rw [asciiChar, value, Char.ofNat_toNat]
  · simp [isDigit, UInt8.le_iff_toNat_le, value, low', high']

private theorem not_isDigit_of_stops {rest : Bytes} (h : Stops rest) :
    rest.takeWhile isDigit = [] ∧ rest.dropWhile isDigit = rest := by
  cases rest with
  | nil => simp
  | cons byte rest =>
    have no : isDigit byte = false := by
      rcases h with rfl | rfl | rfl <;> decide
    simp [no]

/-- The digits in front of what ends a number. -/
theorem spanDigits_append {ds : List Char} (hds : ∀ c ∈ ds, c.isDigit = true) {rest : Bytes}
    (h : Stops rest) : spanDigits (asciiBytes ds ++ rest) = (ds, rest) := by
  obtain ⟨none, all⟩ := not_isDigit_of_stops h
  have digits : ∀ byte ∈ asciiBytes ds, isDigit byte = true := by
    intro byte member
    obtain ⟨c, hc, rfl⟩ := List.mem_map.mp member
    exact (ascii_of_isDigit (hds c hc)).2
  have back : (asciiBytes ds).map asciiChar = ds := by
    rw [asciiBytes, List.map_map]
    exact (List.map_congr_left fun c hc => (ascii_of_isDigit (hds c hc)).1).trans (List.map_id ds)
  rw [spanDigits, List.takeWhile_append_of_pos digits, List.dropWhile_append_of_pos digits, none,
    all, List.append_nil, back]

private theorem isDigit_digits {n : Nat} : ∀ c ∈ digits n, c.isDigit = true :=
  fun _ h => Nat.isDigit_of_mem_toDigits (by decide) (by decide) h

/-- The digits of a positive number do not start with zero. -/
theorem head?_digits_ne {n : Nat} (h : 0 < n) : (digits n).head? ≠ some '0' := by
  induction n using Nat.strongRecOn with
  | ind n ih =>
    rw [digits, Nat.toDigits_eq_if (by decide)]
    split_ifs with small
    · have key : ∀ m < 10, 0 < m → [Nat.digitChar m].head? ≠ some '0' := by decide
      exact key n small h
    · have step := ih (n / 10) (by omega) (by omega)
      have nonempty : digits (n / 10) ≠ [] := Nat.toDigits_ne_nil
      rwa [← digits, List.head?_append_of_ne_nil _ nonempty]

private theorem isWholePart_digits (n : Nat) : isWholePart (digits n) = true := by
  rcases Nat.eq_zero_or_pos n with rfl | pos
  · decide
  · have head := head?_digits_ne pos
    have nonempty : digits n ≠ [] := Nat.toDigits_ne_nil
    rcases hd : digits n with _ | ⟨c, _ | ⟨d, ds⟩⟩
    · exact absurd hd nonempty
    · rfl
    · simpa [isWholePart, hd] using head

private theorem span_of_stops {rest : Bytes} (h : Stops rest) :
    spanFraction? rest = some ([], rest) ∧ spanExponent? rest = some (none, rest) := by
  cases rest with
  | nil => exact ⟨rfl, rfl⟩
  | cons byte rest => rcases h with rfl | rfl | rfl <;> exact ⟨rfl, rfl⟩

private theorem spanMinus_digits (n : Nat) (rest : Bytes) :
    spanMinus (asciiBytes (digits n) ++ rest) = (false, asciiBytes (digits n) ++ rest) := by
  rcases hd : digits n with _ | ⟨c, ds⟩
  · exact absurd hd Nat.toDigits_ne_nil
  · have digit := (ascii_of_isDigit (isDigit_digits c (hd ▸ List.mem_cons_self))).2
    have ne : asciiByte c ≠ 0x2D := by
      intro eq
      rw [eq] at digit
      exact absurd digit (by decide)
    simp [asciiBytes, spanMinus, ne]

/-- The numeral of an integer is found in front of what ends it. -/
theorem spanNumeral?_ofInt (i : Int) {rest : Bytes} (h : Stops rest) :
    spanNumeral? (asciiBytes (Numeral.ofInt i).text ++ rest) = some (.ofInt i, rest) := by
  obtain ⟨fraction, exponent⟩ := span_of_stops h
  have sign : spanMinus (asciiBytes (Numeral.ofInt i).text ++ rest) =
      (decide (i < 0), asciiBytes (digits i.natAbs) ++ rest) := by
    by_cases negative : i < 0
    · simp [Numeral.text, Numeral.ofInt, negative, asciiBytes, spanMinus, asciiByte]
    · simpa [Numeral.text, Numeral.ofInt, negative] using spanMinus_digits i.natAbs rest
  unfold spanNumeral? guard
  simp only [sign, spanDigits_append isDigit_digits h, isWholePart_digits, if_true, fraction,
    Option.pure_def, Option.bind_eq_bind, Option.bind_some, exponent]
  rfl

/-- The numeral of an integer has that integer as its value where it fits in 64 bits, and no value
elsewhere. -/
theorem integer?_ofInt (i : Int) : (Numeral.ofInt i).integer? =
    if Signed.least ≤ i ∧ i < Unsigned.bound then some i else none := by
  simp only [Numeral.integer?, Numeral.ofInt, value_digits, Signed.least, Unsigned.bound,
    List.isEmpty_nil, Option.isNone_none, Bool.and_self, if_true]
  by_cases negative : i < 0
  · have bounds : 0 < i.natAbs ∧ i.natAbs ≤ 0x8000000000000000 ↔
        -0x8000000000000000 ≤ i ∧ i < (0x10000000000000000 : Nat) := by omega
    have magnitude : -(i.natAbs : Int) = i := by omega
    simp only [negative, decide_true, if_true, bounds, magnitude]
  · have bounds : i.natAbs < 0x10000000000000000 ↔
        -0x8000000000000000 ≤ i ∧ i < (0x10000000000000000 : Nat) := by omega
    have magnitude : (i.natAbs : Int) = i := by omega
    simp only [negative, decide_false, Bool.false_eq_true, if_false, bounds, magnitude]

/-! ### Tokens -/

/-- The text consists of these tokens, however many are allowed beyond its length. -/
def Lexes (text : Bytes) (ts : List Token) : Prop :=
  ∀ fuel seen, text.length ≤ fuel → Token.allFrom? fuel seen text = some (seen.reverse ++ ts)

theorem Lexes.nil : Lexes [] [] := by
  intro fuel seen _
  cases fuel <;> simp [Token.allFrom?]

/-- A token in front of a text that is lexed. -/
theorem Lexes.cons {byte : UInt8} {text rest : Bytes} {token : Token} {ts : List Token}
    (blank : isBlank byte = false) (next : Token.next? byte text = some (token, rest))
    (shorter : rest.length ≤ text.length) (h : Lexes rest ts) :
    Lexes (byte :: text) (token :: ts) := by
  intro fuel seen enough
  -- Every token takes at least one byte, so the fuel outlasts the text.
  obtain ⟨fuel, rfl⟩ : ∃ n, fuel = n + 1 := ⟨fuel - 1, by simp at enough; omega⟩
  have left : rest.length ≤ fuel := by simp at enough; omega
  simp [Token.allFrom?, blank, next, h fuel _ left]

theorem Lexes.all? {text : Bytes} {ts : List Token} (h : Lexes text ts) :
    Token.all? text = some ts := by
  exact h text.length [] (Nat.le_refl _)

private theorem asciiBytes_text_ofInt (i : Int) : ∃ byte tail,
    asciiBytes (Numeral.ofInt i).text = byte :: tail ∧ (byte = 0x2D ∨ isDigit byte = true) := by
  rcases hd : digits i.natAbs with _ | ⟨c, ds⟩
  · exact absurd hd Nat.toDigits_ne_nil
  · by_cases negative : i < 0
    · exact ⟨0x2D, asciiBytes (digits i.natAbs),
        by simp [Numeral.text, Numeral.ofInt, negative, asciiBytes, asciiByte], .inl rfl⟩
    · have digit := isDigit_digits c (hd ▸ List.mem_cons_self)
      exact ⟨asciiByte c, asciiBytes ds,
        by simp [Numeral.text, Numeral.ofInt, negative, asciiBytes, hd],
        .inr (ascii_of_isDigit digit).2⟩

/-- What starts with a sign or a digit is a number. -/
private theorem next?_number {byte : UInt8} (h : byte = 0x2D ∨ isDigit byte = true)
    (rest : Bytes) : isBlank byte = false ∧
    Token.next? byte rest =
      (spanNumeral? (byte :: rest)).map fun (n, rest) => (.number n, rest) := by
  -- Only bytes up to the digit nine are looked at, so the cases are few enough to decide.
  have key : ∀ n < 0x3A, n = 0x2D ∨ 0x30 ≤ n → isBlank (UInt8.ofNat n) = false ∧
      asciiChar (UInt8.ofNat n) ∉ ['[', ']', '{', '}', ',', ':', '"', 'n', 't', 'f'] := by
    decide
  have range : byte.toNat < 0x3A ∧ (byte.toNat = 0x2D ∨ 0x30 ≤ byte.toNat) := by
    rcases h with rfl | digit
    · decide
    · simp [isDigit, UInt8.le_iff_toNat_le] at digit
      omega
  obtain ⟨blank, other⟩ := key _ range.1 range.2
  rw [UInt8.ofNat_toNat] at blank other
  refine ⟨blank, ?_⟩
  simp only [List.mem_cons, List.not_mem_nil, or_false, not_or] at other
  unfold Token.next?
  split <;> simp_all

/-- The tokens that are written for values: numbers are integers, strings are encoded texts. -/
def Token.IsWritten : Token → Prop
  | .number n => ∃ i, n = .ofInt i
  | .string body => ∃ text, body = encode text
  | _ => True

/-- A written token is lexed in front of a text that is lexed; a number has to be ended by it. -/
theorem Lexes.token {token : Token} (written : token.IsWritten) {rest : Bytes} {ts : List Token}
    (ended : ∀ n, token = .number n → Stops rest) (h : Lexes rest ts) :
    Lexes (token.bytes ++ rest) (token :: ts) := by
  cases token with
  | leftBracket | rightBracket | leftBrace | rightBrace | comma | colon =>
    exact .cons rfl rfl (Nat.le_refl _) h
  | null => exact .cons rfl rfl (by simp; omega) h
  | bool b => cases b <;> exact .cons rfl rfl (by simp; omega) h
  | number n =>
    obtain ⟨i, rfl⟩ := written
    obtain ⟨byte, tail, eq, first⟩ := asciiBytes_text_ofInt i
    obtain ⟨blank, next⟩ := next?_number first (tail ++ rest)
    have whole := spanNumeral?_ofInt i (ended _ rfl)
    rw [eq, List.cons_append] at whole
    rw [Token.bytes, eq, List.cons_append]
    exact .cons blank (by rw [next, whole]; rfl) (by simp) h
  | string body =>
    obtain ⟨text, rfl⟩ := written
    have found := span?_encode text rest
    have form : Token.bytes (.string (encode text)) ++ rest =
        0x22 :: (encode text ++ 0x22 :: rest) := by
      simp [Token.bytes]
    have next : Token.next? 0x22 (encode text ++ 0x22 :: rest) =
        some (.string (encode text), rest) := by
      simp [Token.next?, asciiChar, found]
    rw [form]
    exact .cons rfl next (by simp only [List.length_append, List.length_cons]; omega) h

/-! ### Values -/

mutual

/-- The numbers of the value are integers, its strings and keys are encoded texts. -/
def IsWritten : Json → Prop
  | .null => True
  | .bool _ => True
  | .number n => ∃ i, n = .ofInt i
  | .string body => ∃ text, body = encode text
  | .array items => AllWritten items
  | .object members => MembersWritten members
termination_by structural value => value

/-- All items are written values. -/
def AllWritten : List Json → Prop
  | [] => True
  | item :: items => item.IsWritten ∧ AllWritten items
termination_by structural items => items

/-- All keys are encoded texts, and their values are written. -/
def MembersWritten : List (Bytes × Json) → Prop
  | [] => True
  | (key, value) :: members =>
    (∃ text, key = encode text) ∧ value.IsWritten ∧ MembersWritten members
termination_by structural members => members

end

/-- The tokens can be put in front of any text that is lexed and ends a number. -/
def Prepends (ts : List Token) : Prop :=
  ∀ (rest : Bytes) (more : List Token), Stops rest → Lexes rest more →
    Lexes (ts.flatMap Token.bytes ++ rest) (ts ++ more)

private theorem Prepends.ofToken {token : Token} (written : token.IsWritten) :
    Prepends [token] := by
  intro rest more stops h
  simpa using h.token written fun _ _ => stops

/-- A token that needs no end, in front of tokens. -/
private theorem Prepends.cons (token : Token) (written : token.IsWritten)
    (closed : ∀ n, token ≠ .number n) {ts : List Token} (h : Prepends ts) :
    Prepends (token :: ts) := by
  intro rest more stops lexed
  simpa using (h _ _ stops lexed).token written fun n eq => absurd eq (closed n)

/-- Tokens, and behind them one that ends a number. -/
private theorem Prepends.append_cons {ts : List Token} (h : Prepends ts) (token : Token)
    (stop : ∀ rest, Stops (token.bytes ++ rest)) (written : token.IsWritten)
    (closed : ∀ n, token ≠ .number n) {us : List Token} (g : Prepends us) :
    Prepends (ts ++ token :: us) := by
  intro rest more stops lexed
  have tail := (g _ _ stops lexed).token written fun n eq => absurd eq (closed n)
  simpa using h _ _ (stop _) tail

private theorem Prepends.concat {ts : List Token} (h : Prepends ts) (token : Token)
    (stop : ∀ rest, Stops (token.bytes ++ rest)) (written : token.IsWritten)
    (closed : ∀ n, token ≠ .number n) : Prepends (ts ++ [token]) := by
  intro rest more stops lexed
  have tail := lexed.token written fun n eq => absurd eq (closed n)
  simpa using h _ _ (stop _) tail

private theorem Prepends.empty : Prepends [] :=
  fun _ _ _ lexed => by simpa using lexed

/-- Stretches of tokens with commas between them. -/
private theorem Prepends.separated {stretches : List (List Token)}
    (h : ∀ ts ∈ stretches, Prepends ts) : Prepends (separated stretches) := by
  induction stretches with
  | nil => exact .empty
  | cons ts stretches ih =>
    cases stretches with
    | nil => exact h ts List.mem_cons_self
    | cons next rest =>
      have later := ih fun us member => h us (List.mem_cons_of_mem _ member)
      exact (h ts List.mem_cons_self).append_cons .comma (fun _ => .inl rfl) trivial
        (by simp) later

mutual

/-- The text of a written value is lexed into its tokens. -/
theorem prepends_tokens : (value : Json) → value.IsWritten → Prepends value.tokens
  | .null, _ => .ofToken trivial
  | .bool _, _ => .ofToken trivial
  | .number _, h => .ofToken h
  | .string _, h => .ofToken h
  | .array items, h => by
    have inner := (Prepends.separated (prepends_items items h)).concat
      .rightBracket (fun _ => .inr (.inl rfl)) trivial (by simp)
    exact inner.cons .leftBracket trivial (by simp)
  | .object members, h => by
    have inner := (Prepends.separated (prepends_members members h)).concat
      .rightBrace (fun _ => .inr (.inr rfl)) trivial (by simp)
    exact inner.cons .leftBrace trivial (by simp)

theorem prepends_items : (items : List Json) → AllWritten items →
    ∀ ts ∈ itemTokens items, Prepends ts
  | [], _, ts, member => nomatch member
  | item :: items, h, ts, member => by
    rcases List.mem_cons.mp member with rfl | later
    · exact prepends_tokens item h.1
    · exact prepends_items items h.2 ts later

theorem prepends_members : (members : List (Bytes × Json)) → MembersWritten members →
    ∀ ts ∈ memberTokens members, Prepends ts
  | [], _, ts, member => nomatch member
  | (key, value) :: members, h, ts, member => by
    rcases List.mem_cons.mp member with rfl | later
    · have colon := (prepends_tokens value h.2.1).cons .colon trivial (by simp)
      exact colon.cons (.string key) h.1 (by simp)
    · exact prepends_members members h.2.2 ts later

end

/-! ### The machine -/

/-- No value starts with the end of an array. -/
private theorem exists_tokens_eq_cons (value : Json) :
    ∃ token ts, value.tokens = token :: ts ∧ token ≠ .rightBracket := by
  cases value <;> exact ⟨_, _, rfl, by simp⟩

/-- An item that follows the start of an array is read as one that follows a comma. -/
private theorem foldlM_firstItem (value : Json) (ts : List Token) (frames : List Frame) :
    (value.tokens ++ ts).foldlM Reader.step? (.firstItem frames) =
      (value.tokens ++ ts).foldlM Reader.step? (.value (.array [] :: frames)) := by
  obtain ⟨token, rest, eq, ne⟩ := exists_tokens_eq_cons value
  rw [eq, List.cons_append, List.foldlM_cons, List.foldlM_cons]
  congr 1
  simp only [Reader.step?]

mutual

/-- The tokens of a value hand it to the innermost frame. -/
theorem foldlM_tokens : (value : Json) → (frames : List Frame) →
    value.tokens.foldlM Reader.step? (.value frames) = some (Reader.close value frames)
  | .null, _ => rfl
  | .bool _, _ => rfl
  | .number _, _ => rfl
  | .string _, _ => rfl
  | .array items, frames => by
    rcases nonempty : items with _ | ⟨item, rest⟩
    · rfl
    · have whole := foldlM_items items (by simp [nonempty]) [] frames
      -- The state after an opening bracket also allows the end of the array; the first token of an
      -- item leaves it as the state after a comma would.
      have first : ∃ ts, separated (itemTokens items) ++ [Token.rightBracket] =
          item.tokens ++ ts := by
        rw [nonempty]
        cases rest with
        | nil => exact ⟨_, rfl⟩
        | cons next rest => exact ⟨_, List.append_assoc ..⟩
      obtain ⟨ts, eq⟩ := first
      rw [eq, ← foldlM_firstItem, ← eq] at whole
      rw [← nonempty, tokens, List.cons_append]
      exact whole
  | .object members, frames => by
    rcases nonempty : members with _ | ⟨⟨key, value⟩, rest⟩
    · rfl
    · have whole := foldlM_members members (by simp [nonempty]) [] frames
      rw [← nonempty, tokens, List.cons_append]
      rw [nonempty] at whole ⊢
      cases rest <;> exact whole

/-- Items and the end of their array, from where an item has to follow. -/
theorem foldlM_items : (items : List Json) → items ≠ [] → (done : List Json) →
    (frames : List Frame) →
    (separated (itemTokens items) ++ [Token.rightBracket]).foldlM Reader.step?
      (.value (.array done :: frames)) = some (Reader.close (.array (done.reverse ++ items)) frames)
  | [], h, _, _ => absurd rfl h
  | item :: items, _, done, frames => by
    have whole := foldlM_tokens item (.array done :: frames)
    rcases nonempty : items with _ | ⟨next, rest⟩
    · simp [itemTokens, separated, whole, Reader.close, Reader.step?]
    · have later := foldlM_items items (by simp [nonempty]) (item :: done) frames
      rw [nonempty] at later
      rw [itemTokens, itemTokens, separated, ← itemTokens]
      simp only [List.cons_append, List.append_assoc, List.foldlM_cons, List.foldlM_append]
      simpa [Reader.step?, whole, Reader.close] using later

/-- Members and the end of their object, from where a key has to follow. -/
theorem foldlM_members : (members : List (Bytes × Json)) → members ≠ [] →
    (done : List (Bytes × Json)) → (frames : List Frame) →
    (separated (memberTokens members) ++ [Token.rightBrace]).foldlM Reader.step?
      (.nextKey done frames) = some (Reader.close (.object (done.reverse ++ members)) frames)
  | [], h, _, _ => absurd rfl h
  | (key, value) :: members, _, done, frames => by
    have whole := foldlM_tokens value (.object done key :: frames)
    rcases nonempty : members with _ | ⟨next, rest⟩
    · simp [memberTokens, separated, whole, Reader.close, Reader.step?]
    · have later := foldlM_members members (by simp [nonempty]) ((key, value) :: done) frames
      rw [nonempty] at later
      rw [memberTokens, memberTokens, separated, ← memberTokens]
      simp only [List.cons_append, List.append_assoc, List.foldlM_cons, List.foldlM_append]
      simpa [Reader.step?, whole, Reader.close] using later

end

/-- The tokens of a value build it. -/
theorem ofTokens?_tokens (value : Json) : ofTokens? value.tokens = some value := by
  rw [ofTokens?, foldlM_tokens]
  rfl

/-- The text of a written value reads back. -/
theorem parse?_bytes {value : Json} (h : value.IsWritten) : parse? value.bytes = some value := by
  have lexed := (prepends_tokens value h [] [] trivial .nil).all?
  rw [List.append_nil, List.append_nil] at lexed
  rw [parse?, bytes, lexed, Option.bind_some, ofTokens?_tokens]

end TensorEngine.Json
