import TensorEngine.Proofs.Json.Value

/-!
# Faithful formats

A format is a way to write entries of a type as JSON values together with a way to read them. It is
faithful when what was written for an entry is read as that entry if its numbers fit in their words,
and is refused if they do not. Formats of lists, optional entries, names and records are
faithful as soon as the formats of their parts are.

## Main definitions

* `Json.Faithful`: formats that lose and confuse nothing

## Main results

* `Faithful.list`, `Faithful.option`, `faithful_name`: formats of lists, optional entries and names
* `record?_ofMembers`, `Faithful.required`: the fields of a record that was written
-/

namespace TensorEngine.Json

open Decimal Quoted

variable {α : Type}

/-- What was written for an entry reads as that entry if it fits, and as nothing otherwise. -/
structure Faithful (write : α → Json) (read : Json → Option α) (fits : α → Prop) : Prop where
  /-- The text of what is written reads back. -/
  written : ∀ a, (write a).IsWritten
  read_eq_some_iff : ∀ a b, read (write a) = some b ↔ fits a ∧ b = a

/-! ### Basic types -/

theorem faithful_string : Faithful ofString text? fun _ => True where
  written text := ⟨text, rfl⟩
  read_eq_some_iff a b := by
    have back : text? (ofString a) = some a := decode?_encode a
    simp [back, eq_comm]

theorem faithful_bool : Faithful Json.bool bool? fun _ => True where
  written _ := trivial
  read_eq_some_iff a b := by simp [bool?, eq_comm]

/-- Integers within limits of which each fits in a word of 64 bits. -/
theorem faithful_intBetween (least greatest : Int) (low : Signed.least ≤ least)
    (high : greatest < Unsigned.bound) :
    Faithful ofInt (intBetween? least greatest) fun i => least ≤ i ∧ i ≤ greatest where
  written i := ⟨i, rfl⟩
  read_eq_some_iff i j := by
    have value := integer?_ofInt i
    by_cases word : Signed.least ≤ i ∧ i < Unsigned.bound
    · rw [if_pos word] at value
      simp only [intBetween?, ofInt, value, Option.ite_none_right_eq_some, Option.some.injEq]
      exact and_congr_right fun _ => eq_comm
    · rw [if_neg word] at value
      simp only [intBetween?, ofInt, value]
      exact ⟨nofun, fun fits => absurd ⟨by omega, by omega⟩ word⟩

theorem faithful_int64 : Faithful ofInt int64? Signed.InRange :=
  faithful_intBetween _ _ (Int.le_refl _) (by decide)

/-- Natural numbers below a limit that fits in a word of 64 bits. -/
theorem faithful_natBelow {bound : Nat} (h : bound ≤ Unsigned.bound) :
    Faithful ofNat (natBelow? bound) (· < bound) where
  written n := ⟨n, rfl⟩
  read_eq_some_iff n m := by
    have inner := (faithful_intBetween 0 (bound - 1) (by decide)
      (by omega)).read_eq_some_iff n
    simp only [natBelow?, ofNat, Option.map_eq_some_iff, inner]
    constructor
    · rintro ⟨i, ⟨fits, rfl⟩, rfl⟩
      exact ⟨by omega, by omega⟩
    · rintro ⟨small, rfl⟩
      exact ⟨m, ⟨by omega, rfl⟩, by omega⟩

theorem faithful_size : Faithful ofNat size? (· < Unsigned.bound) :=
  faithful_natBelow (Nat.le_refl _)

theorem faithful_int32 : Faithful (fun i : Int32 => ofInt i.toInt) int32? fun _ => True where
  written i := ⟨i.toInt, rfl⟩
  read_eq_some_iff i j := by
    have low : -0x80000000 ≤ i.toInt := i.le_toInt
    have high : i.toInt < 0x80000000 := i.toInt_lt
    have inner := (faithful_intBetween (-0x80000000) 0x7FFFFFFF
      (by decide) (by decide)).read_eq_some_iff i.toInt
    simp only [int32?, Option.map_eq_some_iff, inner]
    constructor
    · rintro ⟨k, ⟨-, rfl⟩, rfl⟩
      exact ⟨trivial, Int32.ofInt_toInt i⟩
    · rintro ⟨-, rfl⟩
      exact ⟨_, ⟨⟨low, by omega⟩, rfl⟩, Int32.ofInt_toInt j⟩

/-- Names of alternatives without content. -/
theorem faithful_name {name : α → String} {ofName? : String → Option α}
    (h : ∀ a, ofName? (name a) = some a) :
    Faithful (fun a => ofString (name a)) (fun value => value.plainChoice?.bind ofName?)
      fun _ => True where
  written a := ⟨name a, rfl⟩
  read_eq_some_iff a b := by simp [plainChoice?, choice?, ofString, h, eq_comm]

/-! ### Lists and optional entries -/

variable {write : α → Json} {read : Json → Option α} {fits : α → Prop}

theorem Faithful.read_write (h : Faithful write read fits) {a : α} (ha : fits a) :
    read (write a) = some a :=
  (h.read_eq_some_iff a a).mpr ⟨ha, rfl⟩

private theorem allWritten_map (h : ∀ a, (write a).IsWritten) (xs : List α) :
    AllWritten (xs.map write) := by
  induction xs with
  | nil => trivial
  | cons x xs ih => exact ⟨h x, ih⟩

theorem Faithful.list (h : Faithful write read fits) :
    Faithful (ofList write) (list? read) fun xs => ∀ x ∈ xs, fits x where
  written := allWritten_map h.written
  read_eq_some_iff xs ys := by
    simp only [ofList, list?]
    induction xs generalizing ys with
    | nil => simp [eq_comm]
    | cons x xs ih =>
      simp only [List.map_cons, List.mapM_cons, Option.bind_eq_bind, Option.bind_eq_some_iff,
        Option.pure_def, Option.some.injEq, h.read_eq_some_iff, ih, List.forall_mem_cons]
      constructor
      · rintro ⟨y, ⟨first, rfl⟩, rest, ⟨later, rfl⟩, rfl⟩
        exact ⟨⟨first, later⟩, rfl⟩
      · rintro ⟨⟨first, later⟩, rfl⟩
        exact ⟨x, ⟨first, rfl⟩, xs, ⟨later, rfl⟩, rfl⟩

/-- Optional entries, if no entry is written as `null`. -/
theorem Faithful.option (h : Faithful write read fits) (ne : ∀ a, write a ≠ .null) :
    Faithful (ofOption write) (option? read) fun o => ∀ a ∈ o, fits a where
  written
    | none => trivial
    | some a => h.written a
  read_eq_some_iff
    | none, b => by simp [ofOption, option?, eq_comm]
    | some a, b => by
      have skip : option? read (write a) = (read (write a)).map some := by
        rw [option?.eq_def]
        split
        next null => exact absurd null (ne a)
        next => rfl
      simp only [ofOption, skip, Option.map_eq_some_iff, h.read_eq_some_iff]
      constructor
      · rintro ⟨c, ⟨fits, rfl⟩, rfl⟩
        exact ⟨fun _ eq => Option.some.inj eq ▸ fits, rfl⟩
      · rintro ⟨fits, rfl⟩
        exact ⟨a, ⟨fits a rfl, rfl⟩, rfl⟩

/-! ### Records -/

/-- The members of an object with texts as keys. -/
theorem members?_ofMembers (members : List (String × Json)) :
    members? (ofMembers members) = some members := by
  simp only [ofMembers, members?]
  induction members with
  | nil => rfl
  | cons member members ih => simp [ih]

private theorem field?_of_mem {members : List (String × Json)}
    (nodup : (members.map (·.1)).Nodup) {name : String} {value : Json}
    (h : (name, value) ∈ members) : field? members name = some (some value) := by
  -- Names are different, so that no field is there twice, which would be refused.
  have only : members.filter (·.1 == name) = [(name, value)] := by
    induction members with
    | nil => cases h
    | cons member members ih =>
      obtain ⟨fresh, nodup⟩ := List.nodup_cons.mp nodup
      rcases List.mem_cons.mp h with rfl | later
      · have none : members.filter (·.1 == name) = [] := by
          refine List.filter_eq_nil_iff.mpr fun other inside eq => fresh ?_
          exact List.mem_map.mpr ⟨other, inside, beq_iff_eq.mp eq⟩
        simp [none]
      · have ne : member.1 ≠ name := fun eq => fresh (List.mem_map.mpr ⟨_, later, eq.symm⟩)
        rw [List.filter_cons_of_neg (by simpa using ne), ih nodup later]
  rw [field?, only]

/-- The fields of a record that was written are its values. -/
theorem record?_ofMembers (members : List (String × Json))
    (nodup : (members.map (·.1)).Nodup) :
    record? (members.map (·.1)) (ofMembers members) = some (members.map fun m => some m.2) := by
  have known : ∀ member ∈ members,
      ((members.map (·.1)).contains member.1 || member.2.escapesControls) = true := by
    intro member inside
    have key : (members.map (·.1)).contains member.1 = true :=
      List.contains_iff_mem.mpr (List.mem_map.mpr ⟨member, inside, rfl⟩)
    simp only [key, Bool.true_or]
  have values : ∀ part : List (String × Json), (∀ m ∈ part, m ∈ members) →
      (part.map (·.1)).mapM (field? members) = some (part.map fun m => some m.2) := by
    intro part inside
    induction part with
    | nil => rfl
    | cons member part ih =>
      have first := field?_of_mem nodup (inside member List.mem_cons_self)
      have rest := ih fun m h => inside m (List.mem_cons_of_mem _ h)
      simp [first, rest]
  have fields := members?_ofMembers members
  rw [ofMembers] at fields ⊢
  rw [record?.eq_2 _ _ (by simp), fields, Option.bind_some, fields?]
  exact (if_pos (List.all_eq_true.mpr known)).trans (values members fun _ h => h)

variable {write : α → Json} {read : Json → Option α} {fits : α → Prop}

/-- A written field that has to be there is read if it fits. -/
theorem Faithful.required {β : Type} (h : Faithful write read fits) (a : α) (next : α → Option β)
    (b : β) : (requiredField? read (some (write a))).bind next = some b ↔
      fits a ∧ next a = some b := by
  simp only [requiredField?, Option.bind_some, Option.bind_eq_some_iff, h.read_eq_some_iff]
  exact ⟨fun ⟨_, ⟨fits, same⟩, rest⟩ => ⟨fits, same ▸ rest⟩,
    fun ⟨fits, rest⟩ => ⟨a, ⟨fits, rfl⟩, rest⟩⟩

/-- A written field that may be missing is read if it fits. -/
theorem Faithful.optional {β : Type} {written : Option α → Json} {fits : Option α → Prop}
    (h : Faithful written (option? read) fits) (o : Option α) (next : Option α → Option β)
    (b : β) : (optionalField? read (some (written o))).bind next = some b ↔
      fits o ∧ next o = some b :=
  h.required o next b

/-- An object of written values is written. -/
theorem isWritten_ofMembers {members : List (String × Json)}
    (h : ∀ member ∈ members, member.2.IsWritten) : (ofMembers members).IsWritten := by
  simp only [ofMembers, IsWritten]
  induction members with
  | nil => trivial
  | cons member members ih =>
    exact ⟨⟨member.1, rfl⟩, h member List.mem_cons_self,
      ih fun m inside => h m (List.mem_cons_of_mem _ inside)⟩

end TensorEngine.Json
