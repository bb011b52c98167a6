import TensorEngine.Proofs.Json.Record

/-!
# What is read from values

A reader need not be given what a writer has written: a value may come from anywhere. Whatever a
reader makes of it is within the limits of its type all the same, and a record is within the limits
that its fields are read with.

## Main definitions

* `Json.Yields`: every result of a reader has a property

## Main results

* `Json.Yields.list`, `Json.Yields.required`, `Json.Yields.optional`: properties of the parts of a
  value
* `Json.yields_size`, `Json.yields_int64`: numbers are words
-/

namespace TensorEngine.Json

variable {α : Type} {read : Json → Option α} {fits : α → Prop}

/-- Whatever the reader makes of a value fits. -/
def Yields (read : Json → Option α) (fits : α → Prop) : Prop :=
  ∀ value a, read value = some a → fits a

theorem yields_intBetween (least greatest : Int) :
    Yields (intBetween? least greatest) fun i => least ≤ i ∧ i ≤ greatest := by
  intro value i h
  unfold intBetween? at h
  split at h
  next =>
    split at h
    next =>
      split at h
      next between =>
        cases h
        exact between
      next => cases h
    next => cases h
  next => cases h

theorem yields_int64 : Yields int64? Signed.InRange :=
  yields_intBetween _ _

theorem yields_natBelow (bound : Nat) : Yields (natBelow? bound) (· < bound) := by
  intro value n h
  obtain ⟨i, between, rfl⟩ := Option.map_eq_some_iff.mp h
  have := yields_intBetween _ _ value i between
  omega

theorem yields_size : Yields size? (· < Unsigned.bound) :=
  yields_natBelow _

namespace Yields

/-- The items of an array fit. -/
theorem list (h : Yields read fits) : Yields (list? read) fun xs => ∀ a ∈ xs, fits a := by
  intro value xs listed
  unfold list? at listed
  split at listed
  next items =>
    induction items generalizing xs with
    | nil =>
      cases listed
      exact nofun
    | cons item items ih =>
      simp only [List.mapM_cons, Option.bind_eq_bind, Option.bind_eq_some_iff] at listed
      obtain ⟨x, first, rest, later, same⟩ := listed
      cases same
      exact List.forall_mem_cons.mpr ⟨h item x first, ih rest later⟩
  next => cases listed

/-- A field that has to be there fits. -/
theorem required (h : Yields read fits) {field : Option Json} {a : α}
    (there : requiredField? read field = some a) : fits a := by
  obtain ⟨value, -, accepted⟩ := Option.bind_eq_some_iff.mp there
  exact h value a accepted

/-- A field that may be missing fits if it is there. -/
theorem optional (h : Yields read fits) {field : Option Json} {o : Option α}
    (accepted : optionalField? read field = some o) : ∀ a ∈ o, fits a := by
  rintro a ⟨⟩
  unfold optionalField? at accepted
  split at accepted
  next => cases accepted
  next value =>
    unfold option? at accepted
    split at accepted
    next => cases accepted
    next =>
      obtain ⟨b, inner, same⟩ := Option.map_eq_some_iff.mp accepted
      cases same
      exact h value a inner

end Yields

end TensorEngine.Json
