/-!
# Sorting

Lists in the ascending order of a comparison. Entries that compare equal both ways keep the order in
which they came.

## Main definitions

* `insertSorted`, `sorted`: putting an entry in its place, and sorting a list

## Main results

* `sorted_perm`, `mem_sorted`: sorting changes the order of entries and nothing else
* `sorted_pairwise`: the result is ascending
-/

namespace TensorEngine

variable {α : Type}

/-- Puts an entry in front of the first one that it is at most. -/
def insertSorted (le : α → α → Bool) (a : α) : List α → List α
  | [] => [a]
  | b :: rest => if le a b then a :: b :: rest else b :: insertSorted le a rest

/-- The entries of a list in ascending order. -/
def sorted (le : α → α → Bool) : List α → List α
  | [] => []
  | a :: rest => insertSorted le a (sorted le rest)

variable (le : α → α → Bool)

/-- Inserting adds the entry and keeps the others. -/
theorem insertSorted_perm (a : α) (entries : List α) :
    (insertSorted le a entries).Perm (a :: entries) := by
  induction entries with
  | nil => exact .refl _
  | cons b rest ih =>
    simp only [insertSorted]
    split
    · exact .refl _
    · exact (ih.cons b).trans (.swap a b rest)

/-- Sorting keeps every entry as often as it was there. -/
theorem sorted_perm (entries : List α) : (sorted le entries).Perm entries := by
  induction entries with
  | nil => exact .refl _
  | cons a rest ih => exact (insertSorted_perm le a _).trans (ih.cons a)

/-- The entries of a sorted list are those of the list. -/
@[simp] theorem mem_sorted {entries : List α} {a : α} : a ∈ sorted le entries ↔ a ∈ entries :=
  (sorted_perm le entries).mem_iff

variable {le}

/-- Inserting into an ascending list gives an ascending one. -/
theorem insertSorted_pairwise (trans : ∀ a b c, le a b → le b c → le a c)
    (total : ∀ a b, le a b || le b a) (a : α) {entries : List α}
    (ascending : entries.Pairwise (le · ·)) : (insertSorted le a entries).Pairwise (le · ·) := by
  induction entries with
  | nil => simp [insertSorted]
  | cons b rest ih =>
    obtain ⟨below, tail⟩ := List.pairwise_cons.mp ascending
    simp only [insertSorted]
    split
    next first =>
      refine List.pairwise_cons.mpr ⟨fun c member => ?_, ascending⟩
      rcases List.mem_cons.mp member with rfl | later
      · exact first
      · exact trans _ _ _ first (below c later)
    next second =>
      refine List.pairwise_cons.mpr ⟨fun c member => ?_, ih tail⟩
      rcases List.mem_cons.mp ((insertSorted_perm le a rest).mem_iff.mp member) with rfl | later
      · simpa [second] using total c b
      · exact below c later

/-- A sorted list is ascending. -/
theorem sorted_pairwise (trans : ∀ a b c, le a b → le b c → le a c)
    (total : ∀ a b, le a b || le b a) (entries : List α) :
    (sorted le entries).Pairwise (le · ·) := by
  induction entries with
  | nil => exact .nil
  | cons a rest ih => exact insertSorted_pairwise trans total a ih

end TensorEngine
