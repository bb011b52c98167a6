import Mathlib.Data.List.Forall2

/-!
# Outcomes of computations that may fail

A computation in several stages succeeds exactly when each of its stages does, and fails with the
error of the first stage that fails. The lemmas of this file take a success apart, and follow a
property of results and a property of errors through the stages.

## Main definitions

* `Ends`: a result has one property, an error has another one
-/

namespace TensorEngine

variable {ε ε' α β : Type}

theorem bind_eq_ok_iff {x : Except ε α} {f : α → Except ε β} {b : β} :
    x >>= f = .ok b ↔ ∃ a, x = .ok a ∧ f a = .ok b := by
  cases x with
  | error e => simp [bind, Except.bind]
  | ok a => simp [bind, Except.bind]

theorem ok_bind (a : α) (f : α → Except ε β) : (Except.ok a >>= f) = f a :=
  rfl

theorem map_eq_ok_iff {x : Except ε α} {f : α → β} {b : β} :
    x.map f = .ok b ↔ ∃ a, x = .ok a ∧ f a = b := by
  cases x <;> simp [Except.map]

theorem mapError_eq_ok_iff {x : Except ε α} {f : ε → ε'} {a : α} :
    x.mapError f = .ok a ↔ x = .ok a := by
  cases x <;> simp [Except.mapError]

theorem mapError_ok (f : ε → ε') (a : α) : (Except.ok a : Except ε α).mapError f = .ok a :=
  rfl

theorem toOption_eq_some_iff {x : Except ε α} {a : α} :
    x.toOption = some a ↔ x = .ok a := by
  cases x <;> simp [Except.toOption]

/-- Entries are all transformed exactly when each of them is. -/
theorem mapM_eq_ok_iff {f : α → Except ε β} {xs : List α} {ys : List β} :
    xs.mapM f = .ok ys ↔ List.Forall₂ (fun x y => f x = .ok y) xs ys := by
  induction xs generalizing ys with
  | nil => cases ys <;> simp [pure, Except.pure]
  | cons x xs ih =>
    simp only [List.mapM_cons, bind_eq_ok_iff, ih, List.forall₂_cons_left_iff]
    constructor
    · rintro ⟨y, first, rest, later, eq⟩
      exact ⟨y, rest, first, later, (Except.ok.inj eq).symm⟩
    · rintro ⟨y, rest, first, later, rfl⟩
      exact ⟨y, first, rest, later, rfl⟩

/-- Entries are transformed one by one by a function that never fails on them. -/
theorem mapM_eq_ok_map {f : α → Except ε β} {g : α → β} {xs : List α}
    (h : ∀ x ∈ xs, f x = .ok (g x)) : xs.mapM f = .ok (xs.map g) := by
  rw [mapM_eq_ok_iff, List.forall₂_map_right_iff, List.forall₂_same]
  exact h

/-- Entries are all transformed when each of them can be. -/
theorem exists_mapM_eq_ok {f : α → Except ε β} {xs : List α} (h : ∀ x ∈ xs, ∃ y, f x = .ok y) :
    ∃ ys, xs.mapM f = .ok ys := by
  simp only [mapM_eq_ok_iff]
  induction xs with
  | nil => exact ⟨[], .nil⟩
  | cons x xs ih =>
    obtain ⟨⟨y, first⟩, h⟩ := List.forall_mem_cons.mp h
    obtain ⟨ys, rest⟩ := ih h
    exact ⟨y :: ys, .cons first rest⟩

/-- Where transforming the entries fails, it fails at the first entry that cannot be transformed. -/
theorem exists_split_of_mapM_eq_error {f : α → Except ε β} {xs : List α} {e : ε}
    (h : xs.mapM f = .error e) : ∃ before x after, xs = before ++ x :: after ∧ f x = .error e ∧
      ∀ y ∈ before, ∃ b, f y = .ok b := by
  induction xs with
  | nil => cases h
  | cons x xs ih =>
    rw [List.mapM_cons] at h
    cases first : f x with
    | error e' =>
      rw [first] at h
      cases h
      exact ⟨[], x, xs, rfl, first, nofun⟩
    | ok b =>
      cases rest : xs.mapM f with
      | ok ys => simp [first, rest, bind, Except.bind, pure, Except.pure] at h
      | error e' =>
        rw [first, rest] at h
        cases h
        obtain ⟨before, y, after, rfl, failed, succeeds⟩ := ih rest
        exact ⟨x :: before, y, after, rfl, failed, List.forall_mem_cons.mpr ⟨⟨b, first⟩, succeeds⟩⟩

/-! ### Both outcomes -/

/-- A result satisfies `post`, and an error satisfies `fair`. -/
def Ends (fair : ε → Prop) (post : α → Prop) : Except ε α → Prop
  | .ok a => post a
  | .error e => fair e

namespace Ends

variable {fair : ε → Prop} {fair' : ε' → Prop} {post : α → Prop} {post' : β → Prop}
  {x : Except ε α}

theorem bind {f : α → Except ε β} (h : Ends fair post x)
    (next : ∀ a, x = .ok a → post a → Ends fair post' (f a)) : Ends fair post' (x >>= f) := by
  cases x with
  | ok a => exact next a rfl h
  | error e => exact h

theorem mapError {f : ε → ε'} (h : Ends fair post x) (translated : ∀ e, fair e → fair' (f e)) :
    Ends fair' post (x.mapError f) := by
  cases x with
  | ok a => exact h
  | error e => exact translated e h

/-- An error that is replaced by another one may be any. -/
theorem mapError_any {f : ε → ε'} (result : ∀ a, x = .ok a → post a)
    (replaced : ∀ e, fair' (f e)) : Ends fair' post (x.mapError f) := by
  cases x with
  | ok a => exact result a rfl
  | error e => exact replaced e

theorem mono {weaker : α → Prop} (h : Ends fair post x) (weaken : ∀ a, post a → weaker a) :
    Ends fair weaker x := by
  cases x with
  | ok a => exact weaken a h
  | error e => exact h

/-- Entries are transformed one after the other, and the first error ends it. -/
theorem mapM {f : α → Except ε β} {xs : List α} (each : ∀ x ∈ xs, Ends fair post' (f x)) :
    Ends fair (fun ys => ∀ y ∈ ys, post' y) (xs.mapM f) := by
  induction xs with
  | nil => exact nofun
  | cons x xs ih =>
    rw [List.forall_mem_cons] at each
    rw [List.mapM_cons]
    apply each.1.bind
    intro y _ first
    apply (ih each.2).bind
    intro ys _ rest
    exact List.forall_mem_cons.mpr ⟨first, rest⟩

end Ends

end TensorEngine
