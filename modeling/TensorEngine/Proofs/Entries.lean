import Mathlib.Data.List.Forall2
import Mathlib.Data.List.Perm.Subperm
import TensorEngine.Fault
import TensorEngine.Proofs.Outcome
import TensorEngine.Shape

/-!
# Entries of lists

Lists that are related entry by entry, lists that begin another, and the entries of a list in
another order.

## Main definitions

* `Arranged`: the entries of a list in the order of some of their places

## Main results

* `Arranged.forall₂`: lists that are related entry by entry stay so in another order
* `Arranged.perm`, `Arranged.exists_source`: an order that is a permutation loses no entry, and
  every list is the arrangement of another
-/

namespace TensorEngine

/-- Related lists have related entries at equal places. -/
theorem forall₂_getElem? {R : α → β → Prop} {xs : List α} {ys : List β}
    (h : List.Forall₂ R xs ys) {k : Nat} {x : α} (hx : xs[k]? = some x) :
    ∃ y, ys[k]? = some y ∧ R x y := by
  induction h generalizing k with
  | nil => simp at hx
  | cons r _ ih =>
    cases k with
    | zero => exact ⟨_, rfl, Option.some.inj hx ▸ r⟩
    | succ k => exact ih hx

theorem forall₂_mem_left {α β : Type} {R : α → β → Prop} {xs : List α} {ys : List β}
    (h : List.Forall₂ R xs ys) {x : α} (hx : x ∈ xs) : ∃ y ∈ ys, R x y := by
  obtain ⟨k, entry⟩ := List.mem_iff_getElem?.mp hx
  obtain ⟨y, entry', related⟩ := forall₂_getElem? h entry
  exact ⟨y, List.mem_of_getElem? entry', related⟩

theorem forall₂_mem_right {α β : Type} {R : α → β → Prop} {xs : List α} {ys : List β}
    (h : List.Forall₂ R xs ys) {y : β} (hy : y ∈ ys) : ∃ x ∈ xs, R x y :=
  forall₂_mem_left h.flip hy

/-- Related entries are entries of the lists. -/
theorem forall₂_and_mem {α β : Type} {R : α → β → Prop} {xs : List α} {ys : List β}
    (h : List.Forall₂ R xs ys) : List.Forall₂ (fun x y => R x y ∧ x ∈ xs ∧ y ∈ ys) xs ys := by
  induction h with
  | nil => exact .nil
  | cons first _ ih =>
    refine .cons ⟨first, List.mem_cons_self, List.mem_cons_self⟩ (ih.imp fun x y h => ?_)
    exact ⟨h.1, List.mem_cons_of_mem _ h.2.1, List.mem_cons_of_mem _ h.2.2⟩

/-- Lists that are related can be split at related entries. -/
theorem exists_split_of_forall₂ {α β : Type} {R : α → β → Prop} {xs : List α} {before after : List β}
    {y : β} (h : List.Forall₂ R xs (before ++ y :: after)) :
    ∃ before' x after', xs = before' ++ x :: after' ∧ List.Forall₂ R before' before ∧ R x y ∧
      List.Forall₂ R after' after := by
  have later := List.forall₂_drop_append _ _ _ h
  obtain ⟨x, after', related, rest, split⟩ := List.forall₂_cons_right_iff.mp later
  refine ⟨_, x, after', ?_, List.forall₂_take_append _ _ _ h, related, rest⟩
  rw [← split, List.take_append_drop]

theorem forall₂_append_pair {α β : Type} {R : α → β → Prop} {xs : List α} {ys : List β}
    {a b : α} {c d : β} :
    List.Forall₂ R (xs ++ [a, b]) (ys ++ [c, d]) ↔ List.Forall₂ R xs ys ∧ R a c ∧ R b d := by
  rw [← List.forall₂_reverse_iff, List.reverse_append, List.reverse_append]
  simp only [List.reverse_cons, List.reverse_nil, List.nil_append, List.cons_append,
    List.forall₂_cons, List.forall₂_reverse_iff]
  tauto

theorem map_eq_append_pair {α β : Type} {f : α → β} {xs : List α} {ys : List β} {y z : β}
    (h : xs.map f = ys ++ [y, z]) :
    ∃ before a b, xs = before ++ [a, b] ∧ ys = before.map f ∧ y = f a ∧ z = f b := by
  obtain ⟨before, last, rfl, rfl, pair⟩ := List.map_eq_append_iff.mp h
  obtain ⟨a, rest, rfl, rfl, single⟩ := List.map_eq_cons_iff.mp pair
  obtain ⟨b, empty, rfl, rfl, nil⟩ := List.map_eq_cons_iff.mp single
  obtain rfl := List.map_eq_nil_iff.mp nil
  exact ⟨before, a, b, rfl, rfl, rfl, rfl⟩

theorem arrayEntry_eq_ok_iff {ε α : Type} [HasFault ε] {xs : List α} {position : Nat} {x : α} :
    (arrayEntry xs.toArray position : Except ε α) = .ok x ↔ xs[position]? = some x := by
  unfold arrayEntry
  rw [List.getElem?_toArray]
  split <;> simp_all

theorem mem_of_lookup {α β : Type} [BEq α] [LawfulBEq α] {xs : List (α × β)} {k : α} {x : β}
    (h : xs.lookup k = some x) : (k, x) ∈ xs := by
  obtain ⟨before, after, rfl, -⟩ := List.lookup_eq_some_iff.mp h
  exact List.mem_append_right _ List.mem_cons_self

/-- Where keys are different, every entry is found by its key. -/
theorem lookup_eq_some_iff_mem {α β : Type} [BEq α] [LawfulBEq α] {xs : List (α × β)}
    (distinct : (xs.map Prod.fst).Nodup) {k : α} {x : β} : xs.lookup k = some x ↔ (k, x) ∈ xs := by
  refine ⟨mem_of_lookup, fun member => ?_⟩
  obtain ⟨before, after, rfl⟩ := List.append_of_mem member
  rw [List.map_append, List.map_cons] at distinct
  have absent := fun entry inside => (List.nodup_append.mp distinct).2.2 entry inside k List.mem_cons_self
  refine List.lookup_eq_some_iff.mpr ⟨before, after, rfl, fun entry inside => ?_⟩
  rw [bne_iff_ne]
  exact (absent entry.1 (List.mem_map_of_mem inside)).symm

theorem lookup_isSome_iff_mem {α β : Type} [BEq α] [LawfulBEq α] {xs : List (α × β)} {k : α} :
    (xs.lookup k).isSome = true ↔ k ∈ xs.map Prod.fst := by
  rw [List.lookup_isSome_iff]
  simp

/-- Entries that are related are found under the same keys. -/
theorem rel_lookup {κ α β : Type} [BEq κ] [LawfulBEq κ] {R : κ → α → β → Prop} {xs : List (κ × α)}
    {ys : List (κ × β)} (h : List.Forall₂ (fun x y => x.1 = y.1 ∧ R x.1 x.2 y.2) xs ys) (k : κ) :
    Option.Rel (R k) (xs.lookup k) (ys.lookup k) := by
  induction h with
  | nil => exact .none
  | @cons x y xs ys entry _ ih =>
    obtain ⟨same, related⟩ := entry
    rw [List.lookup_cons, List.lookup_cons, ← same]
    by_cases key : k = x.1
    · rw [key, beq_self_eq_true]
      exact .some related
    · rw [beq_eq_false_iff_ne.mpr key]
      exact ih

section Rel

variable {α β : Type} {R : α → β → Prop} {x? : Option α} {y? : Option β}

/-- Options are related if there are values in both or in none, and those in both are related. -/
theorem rel_of_isSome_iff (both : x?.isSome ↔ y?.isSome)
    (related : ∀ x y, x? = some x → y? = some y → R x y) : Option.Rel R x? y? := by
  cases x? with
  | none =>
    cases y? with
    | none => exact .none
    | some y => simp at both
  | some x =>
    cases y? with
    | none => simp at both
    | some y => exact .some (related x y rfl rfl)

theorem eq_none_of_rel (h : Option.Rel R x? y?) (absent : x? = none) : y? = none := by
  subst absent
  cases h
  rfl

end Rel

theorem getElem?_of_isPrefix {α : Type} {xs ys : List α} (h : xs <+: ys) {k : Nat} {x : α}
    (hx : xs[k]? = some x) : ys[k]? = some x := by
  obtain ⟨within, rfl⟩ := List.getElem?_eq_some_iff.mp hx
  exact List.prefix_iff_getElem?.mp h k within

/-- The entries at all places of a list are the list. -/
theorem map_getElem?_range {α : Type} (xs : List α) :
    (List.range xs.length).map (xs[·]?) = xs.map some := by
  apply List.ext_getElem
  · simp
  · intro k _ _
    simp

/-! ### Lists that go on -/

/-- Lists that begin with two others and go on with entries that are related. -/
def Appended {α β : Type} (R : α → β → Prop) (xs ys : List α) (xs' ys' : List β) : Prop :=
  ∃ added added', ys = xs ++ added ∧ ys' = xs' ++ added' ∧ List.Forall₂ R added added'

namespace Appended

variable {α β : Type} {R S : α → β → Prop} {xs ys : List α} {xs' ys' : List β} {x : α} {x' : β}

theorem refl (R : α → β → Prop) (xs : List α) (xs' : List β) : Appended R xs xs xs' xs' :=
  ⟨[], [], (List.append_nil _).symm, (List.append_nil _).symm, .nil⟩

theorem concat (h : Appended R xs ys xs' ys') (related : R x x') :
    Appended R xs (ys ++ [x]) xs' (ys' ++ [x']) := by
  obtain ⟨added, added', rfl, rfl, entries⟩ := h
  exact ⟨added ++ [x], added' ++ [x'], List.append_assoc .., List.append_assoc ..,
    List.rel_append entries (.cons related .nil)⟩

theorem imp (h : Appended R xs ys xs' ys') (weaker : ∀ x x', R x x' → S x x') :
    Appended S xs ys xs' ys' := by
  obtain ⟨added, added', same, same', entries⟩ := h
  exact ⟨added, added', same, same', entries.imp weaker⟩

end Appended

/-! ### Lists in another order -/

/-- The entries of `xs` at the places that `order` names, in its order. -/
def Arranged {α : Type} (order : List Nat) (xs ys : List α) : Prop :=
  List.Forall₂ (fun place y => xs[place]? = some y) order ys

namespace Arranged

variable {α β ε : Type} [HasFault ε] {order : List Nat} {xs ys : List α} {xs' ys' : List β}

theorem length_eq (h : Arranged order xs ys) : ys.length = order.length :=
  (List.Forall₂.length_eq h).symm

theorem mem (h : Arranged order xs ys) {y : α} (member : y ∈ ys) : y ∈ xs := by
  induction h with
  | nil => simp at member
  | cons entry _ ih =>
    rcases List.mem_cons.mp member with rfl | later
    · exact List.mem_of_getElem? entry
    · exact ih later

/-- Lists that are related place by place stay so in another order. -/
theorem forall₂ {R : α → β → Prop} (related : List.Forall₂ R xs xs') (h : Arranged order xs ys)
    (h' : Arranged order xs' ys') : List.Forall₂ R ys ys' := by
  induction h generalizing ys' with
  | nil =>
    cases h'
    exact .nil
  | cons entry _ ih =>
    obtain _ | ⟨entry', rest'⟩ := h'
    refine .cons ?_ (ih rest')
    obtain ⟨y, found, holds⟩ := forall₂_getElem? related entry
    exact Option.some.inj (found.symm.trans entry') ▸ holds

theorem unique {zs : List α} (h : Arranged order xs ys) (h' : Arranged order xs zs) : ys = zs :=
  List.forall₂_eq_eq_eq ▸ forall₂ (List.forall₂_refl xs) h h'

/-- Places within the list have entries. -/
theorem exists_of_lt (below : ∀ place ∈ order, place < xs.length) :
    ∃ ys, Arranged order xs ys := by
  refine ⟨order.pmap (fun place h => xs.get ⟨place, h⟩) below, ?_⟩
  unfold Arranged
  induction order with
  | nil => exact .nil
  | cons place order ih =>
    exact .cons (List.getElem?_eq_getElem _) (ih fun p hp => below p (List.mem_cons_of_mem _ hp))

theorem mapM_entry_eq_ok_iff :
    (order.mapM (entry xs) : Except ε (List α)) = .ok ys ↔ Arranged order xs ys := by
  simp only [mapM_eq_ok_iff, entry_eq_ok_iff, Arranged]

theorem zip (h : Arranged order xs ys) (h' : Arranged order xs' ys') :
    Arranged order (xs.zip xs') (ys.zip ys') := by
  induction h generalizing ys' with
  | nil => exact .nil
  | cons entry _ ih =>
    obtain _ | ⟨entry', rest'⟩ := h'
    exact .cons (List.getElem?_zip_eq_some.mpr ⟨entry, entry'⟩) (ih rest')

end Arranged

theorem IsPermutation.perm_range {order : List Nat} {rank : Nat} (h : IsPermutation order rank) :
    order.Perm (List.range rank) := by
  obtain ⟨length, below, distinct⟩ := h
  refine (List.subperm_of_subset distinct fun axis member => ?_).perm_of_length_le
    (by simp [length])
  exact List.mem_range.mpr (below axis member)

namespace Arranged

variable {α β : Type} {order : List Nat} {xs ys : List α} {xs' ys' : List β}

theorem eq_map [Inhabited α] (h : Arranged order xs ys) :
    ys = order.map fun place => xs.getD place default := by
  induction h with
  | nil => rfl
  | cons entry _ ih => rw [List.map_cons, ← ih, List.getD_eq_getElem?_getD, entry]; rfl

/-- An order that is a permutation keeps every entry as often as it was there. -/
theorem perm (permutation : IsPermutation order xs.length) (h : Arranged order xs ys) :
    ys.Perm xs := by
  cases xs with
  | nil =>
    obtain rfl : order = [] := List.eq_nil_of_length_eq_zero permutation.1
    cases h
    exact .nil
  | cons x xs =>
    have : Inhabited α := ⟨x⟩
    have all : (List.range (x :: xs).length).map (fun place => (x :: xs).getD place default) =
        x :: xs := by
      refine List.ext_getElem (by simp) fun k h h' => ?_
      rw [List.getElem_map, List.getElem_range, List.getD_eq_getElem?_getD,
        List.getElem?_eq_getElem h', Option.getD_some]
    rw [h.eq_map]
    exact (permutation.perm_range.map _).trans (.of_eq all)

/-- Every list is the arrangement of another one by a permutation. -/
theorem exists_source {rank : Nat} (permutation : IsPermutation order rank)
    (length : ys.length = rank) : ∃ xs : List α, xs.length = rank ∧ Arranged order xs ys := by
  obtain ⟨count, below, distinct⟩ := permutation
  cases ys with
  | nil =>
    obtain rfl : order = [] := List.eq_nil_of_length_eq_zero (count.trans length.symm)
    exact ⟨[], length, .nil⟩
  | cons y ys =>
    refine ⟨(List.range rank).map fun axis => (y :: ys).getD (order.idxOf axis) y, by simp, ?_⟩
    refine List.forall₂_iff_get.mpr ⟨count.trans length.symm, fun k h h' => ?_⟩
    have axis_lt := below _ (List.getElem_mem h)
    simp only [List.get_eq_getElem, List.getElem?_map, List.getElem?_range axis_lt,
      Option.map_some, distinct.idxOf_getElem k h, List.getD_eq_getElem?_getD,
      List.getElem?_eq_getElem h', Option.getD_some]

/-- Lists whose arrangements are related entry by entry are so themselves. -/
theorem forall₂_of {R : α → β → Prop} (permutation : IsPermutation order xs.length)
    (length : xs.length = xs'.length) (h : Arranged order xs ys) (h' : Arranged order xs' ys')
    (related : List.Forall₂ R ys ys') : List.Forall₂ R xs xs' := by
  rw [List.forall₂_iff_zip] at related ⊢
  have zipped : (ys.zip ys').Perm (xs.zip xs') :=
    (h.zip h').perm (by rwa [List.length_zip, ← length, Nat.min_self])
  exact ⟨length, fun member => related.2 (zipped.mem_iff.mpr member)⟩

end Arranged

theorem arranged_range {α : Type} (xs ys : List α) :
    Arranged (List.range xs.length) (xs ++ ys) xs := by
  refine List.forall₂_iff_get.mpr ⟨by simp, fun k h h' => ?_⟩
  simp [List.getElem?_append_left h', List.getElem?_eq_getElem h']

theorem isPermutation_swapLastTwo {rank : Nat} (h : 2 ≤ rank) :
    IsPermutation (swapLastTwo rank) rank := by
  refine ⟨?_, ?_, ?_⟩
  · simp [swapLastTwo]
    omega
  · intro axis member
    simp only [swapLastTwo, List.mem_append, List.mem_range, List.mem_cons, List.not_mem_nil,
      or_false] at member
    omega
  · refine List.nodup_append.mpr ⟨List.nodup_range, ?_, ?_⟩
    · simp
      omega
    · intro a below b last
      simp only [List.mem_range, List.mem_cons, List.not_mem_nil, or_false] at below last
      omega

theorem arranged_swapLastTwo {α : Type} (xs : List α) (a b : α) :
    Arranged (swapLastTwo (xs ++ [a, b]).length) (xs ++ [a, b]) (xs ++ [b, a]) := by
  have length : (xs ++ [a, b]).length = xs.length + 2 := by simp
  rw [length, swapLastTwo, Nat.add_sub_cancel]
  refine forall₂_append_pair.mpr ⟨arranged_range xs [a, b], ?_, ?_⟩
  · rw [List.getElem?_append_right (by omega)]
    simp
  · rw [List.getElem?_append_right (by omega)]
    simp

end TensorEngine
