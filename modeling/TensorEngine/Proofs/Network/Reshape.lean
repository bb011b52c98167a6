import Mathlib.Data.List.Perm.Basic
import TensorEngine.Proofs.Dims

/-!
# Reshapes

A reshape copies the extents that its target asks for, and completes them where the number of
elements is known. It is described by a relation without errors, which is monotone in what is known:
dimensions inferred from more knowledge are admitted by those inferred from less.

## Main definitions

* `Copies`, `Completes`: the two steps of a reshape, its copies and its inferred extent
* `Reshapes`: what a reshape makes of dimensions

## Main results

* `inferReshape_eq_ok_iff`: what the rule accepts
* `Reshapes.admits`, `Reshapes.unique`: monotonicity, and its case of equal knowledge
* `Reshapes.prod_eq`: known dimensions are reshaped to known dimensions of as many elements
-/

namespace TensorEngine

/-- The extents that the entries of a reshape target mean, counting places from `place`: a zero
copies the extent at its place, and the entry of minus one, if there is one, is at `place?`. -/
inductive Copies (source : Dims) : (place : Nat) → (place? : Option Nat) → (target : Dims) →
    (dims : Dims) → Prop
  | nil {place : Nat} : Copies source place none [] []
  | copied {place : Nat} {place? : Option Nat} {target dims : Dims} {d : Int}
      (entry : source[place]? = some d) (rest : Copies source (place + 1) place? target dims) :
      Copies source place place? (0 :: target) (d :: dims)
  | inferred {place : Nat} {target dims : Dims}
      (rest : Copies source (place + 1) none target dims) :
      Copies source place (some place) (-1 :: target) (-1 :: dims)
  | fixed {place : Nat} {place? : Option Nat} {target dims : Dims} {d : Int} (positive : 0 < d)
      (rest : Copies source (place + 1) place? target dims) :
      Copies source place place? (d :: target) (d :: dims)

/-- How the extents that a target means are completed where the element count is known: an inferred
extent makes the counts equal, and without one they have to be equal already. -/
inductive Completes (source copied : Dims) : (place? : Option Nat) → (out : Dims) → Prop
  | unknown (place? : Option Nat) (unknown : source.isStatic = false) :
      Completes source copied place? copied
  | undivided (place : Nat) (total : Int) (volume : source.volume = some total)
      (unknown : Dims.isStatic (copied.eraseIdx place) = false) :
      Completes source copied (some place) copied
  | divided (place : Nat) (total known extent : Int) (volume : source.volume = some total)
      (others : Dims.isStatic (copied.eraseIdx place))
      (product : Signed.product? (copied.eraseIdx place) = some known) (nonzero : known ≠ 0)
      (counts : total = known * extent) (range : Signed.InRange extent) :
      Completes source copied (some place) (copied.set place extent)
  | compared (total : Int) (volume : source.volume = some total)
      (counts : Dims.isStatic copied → Dims.volume copied = some total) :
      Completes source copied none copied

namespace Copies

variable {source source' target dims dims' : Dims} {place : Nat} {place? place?' : Option Nat}

/-- The extents that a target means are found by copying. -/
theorem copyExtents_eq_ok (h : Copies source place place? target dims) :
    copyExtents source place none target = .ok (dims, place?) ∧
      (place? = none → ∀ p, copyExtents source place (some p) target = .ok (dims, some p)) := by
  induction h with
  | nil => exact ⟨rfl, fun _ _ => rfl⟩
  | copied entry _ ih =>
    simp only [copyExtents, if_true, entry, ih.1]
    exact ⟨rfl, fun absent p => by rw [ih.2 absent p]; rfl⟩
  | @inferred place target dims _ ih =>
    simp only [copyExtents, if_false, if_true, show (-1 : Int) ≠ 0 by decide, ih.2 rfl place]
    exact ⟨rfl, nofun⟩
  | @fixed _ _ _ _ d positive _ ih =>
    have notMinusOne : d ≠ -1 := by omega
    simp only [copyExtents, if_neg (Int.ne_of_gt positive), if_neg notMinusOne, if_pos positive,
      ih.1]
    exact ⟨rfl, fun absent p => by rw [ih.2 absent p]; rfl⟩

/-- Copying finds the extents that a target means, and no second entry of minus one. -/
theorem of_copyExtents {inferred : Option Nat}
    (h : copyExtents source place inferred target = .ok (dims, place?)) :
    (inferred = none ∧ Copies source place place? target dims) ∨
      (inferred.isSome ∧ place? = inferred ∧ Copies source place none target dims) := by
  induction target generalizing place inferred dims place? with
  | nil =>
    cases h
    cases place? with
    | none => exact .inl ⟨rfl, .nil⟩
    | some p => exact .inr ⟨rfl, rfl, .nil⟩
  | cons d target ih =>
    simp only [copyExtents] at h
    split at h
    next zero =>
      subst zero
      split at h
      next => cases h
      next copied entry =>
        obtain ⟨⟨dims, at?⟩, rest, result⟩ := bind_eq_ok_iff.mp h
        cases result
        rcases ih rest with ⟨absent, copies⟩ | ⟨present, same, copies⟩
        · exact .inl ⟨absent, .copied entry copies⟩
        · exact .inr ⟨present, same, .copied entry copies⟩
    next nonzero =>
      split at h
      next minusOne =>
        subst minusOne
        split at h
        next => cases h
        next first =>
          obtain ⟨⟨dims, at?⟩, rest, result⟩ := bind_eq_ok_iff.mp h
          cases result
          obtain ⟨absurd, -⟩ | ⟨-, rfl, copies⟩ := ih rest
          · cases absurd
          · exact .inl ⟨by simpa using first, .inferred copies⟩
      next =>
        split at h
        next positive =>
          obtain ⟨⟨dims, at?⟩, rest, result⟩ := bind_eq_ok_iff.mp h
          cases result
          rcases ih rest with ⟨absent, copies⟩ | ⟨present, same, copies⟩
          · exact .inl ⟨absent, .fixed positive copies⟩
          · exact .inr ⟨present, same, .fixed positive copies⟩
        next => cases h

theorem iff_copyExtents : Copies source 0 place? target dims ↔
    copyExtents source 0 none target = .ok (dims, place?) := by
  refine ⟨fun h => h.copyExtents_eq_ok.1, fun h => ?_⟩
  rcases of_copyExtents h with ⟨-, copies⟩ | ⟨present, -⟩
  · exact copies
  · cases present

/-- The entry to infer is the same whatever is copied, and copies are monotone. -/
theorem admits (known : Dims.Admits source source') (h : Copies source place place? target dims)
    (h' : Copies source' place place?' target dims') :
    place? = place?' ∧ Dims.Admits dims dims' := by
  induction h generalizing place?' dims' with
  | nil =>
    cases h'
    exact ⟨rfl, .nil⟩
  | copied entry _ ih =>
    cases h' with
    | copied entry' rest' =>
      obtain ⟨same, later⟩ := ih rest'
      obtain ⟨e, found, agrees⟩ := forall₂_getElem? known entry
      cases found.symm.trans entry'
      exact ⟨same, .cons agrees later⟩
    | fixed positive _ => exact absurd positive (by decide)
  | inferred _ ih =>
    cases h' with
    | inferred rest' => exact ⟨rfl, .cons (.inl (by decide)) (ih rest').2⟩
    | fixed positive _ => exact absurd positive (by decide)
  | fixed positive _ ih =>
    cases h' with
    | copied => exact absurd positive (by decide)
    | inferred => exact absurd positive (by decide)
    | fixed _ rest' =>
      obtain ⟨same, later⟩ := ih rest'
      exact ⟨same, .cons (.inr rfl) later⟩

/-- The entry to infer is left at minus one. -/
theorem getElem?_inferred {p : Nat} (h : Copies source place place? target dims)
    (inferred : place? = some p) :
    ∃ k, p = place + k ∧ target[k]? = some (-1) ∧ dims[k]? = some (-1) := by
  induction h with
  | nil => cases inferred
  | copied _ _ ih =>
    obtain ⟨k, rfl, entries⟩ := ih inferred
    exact ⟨k + 1, by omega, entries⟩
  | inferred => exact ⟨0, (Option.some.inj inferred).symm, rfl, rfl⟩
  | fixed _ _ ih =>
    obtain ⟨k, rfl, entries⟩ := ih inferred
    exact ⟨k + 1, by omega, entries⟩

/-- Where every extent of the source is known, all but the entry to infer are. -/
theorem nonneg (static : source.isStatic) (h : Copies source place place? target dims) {k : Nat}
    {d : Int} (entry : dims[k]? = some d) (other : place? ≠ some (place + k)) : 0 ≤ d := by
  induction h generalizing k with
  | nil => simp at entry
  | copied found _ ih =>
    cases k with
    | zero =>
      cases entry
      exact Dims.isStatic_iff.mp static _ (List.mem_of_getElem? found)
    | succ k => exact ih entry (by rwa [Nat.add_right_comm])
  | inferred _ ih =>
    cases k with
    | zero => exact absurd rfl other
    | succ k => exact ih entry nofun
  | fixed positive _ ih =>
    cases k with
    | zero =>
      cases entry
      exact Int.le_of_lt positive
    | succ k => exact ih entry (by rwa [Nat.add_right_comm])

theorem isStatic_eraseIdx {p : Nat} (static : source.isStatic)
    (h : Copies source 0 (some p) target dims) : Dims.isStatic (dims.eraseIdx p) := by
  refine Dims.isStatic_iff.mpr fun d member => ?_
  obtain ⟨k, other, entry⟩ := List.mem_eraseIdx_iff_getElem?.mp member
  exact h.nonneg static entry (by simpa using Ne.symm other)

/-- Where there is no entry to infer, all copies are known. -/
theorem isStatic (static : source.isStatic) (h : Copies source 0 none target dims) :
    dims.isStatic :=
  Dims.isStatic_iff.mpr fun d member => by
    obtain ⟨k, entry⟩ := List.mem_iff_getElem?.mp member
    exact h.nonneg static entry nofun

theorem inWords (words : source.InWords) (targetWords : Dims.InWords target)
    (h : Copies source place place? target dims) : Dims.InWords dims := by
  induction h with
  | nil => nofun
  | copied entry _ ih =>
    rw [Dims.InWords, List.forall_mem_cons] at targetWords ⊢
    exact ⟨words _ (List.mem_of_getElem? entry), ih targetWords.2⟩
  | inferred _ ih =>
    rw [Dims.InWords, List.forall_mem_cons] at targetWords ⊢
    exact ⟨targetWords.1, ih targetWords.2⟩
  | fixed _ _ ih =>
    rw [Dims.InWords, List.forall_mem_cons] at targetWords ⊢
    exact ⟨targetWords.1, ih targetWords.2⟩

/-- A target has no other negative entry than the one to infer. -/
theorem mem_target (h : Copies source place place? target dims) :
    ∀ d ∈ target, d = -1 ∨ 0 ≤ d := by
  induction h with
  | nil => exact nofun
  | copied _ _ ih => exact List.forall_mem_cons.mpr ⟨.inr (Int.le_refl 0), ih⟩
  | inferred _ ih => exact List.forall_mem_cons.mpr ⟨.inl rfl, ih⟩
  | fixed positive _ ih => exact List.forall_mem_cons.mpr ⟨.inr (Int.le_of_lt positive), ih⟩

end Copies

/-- A division that leaves no remainder has the quotient that multiplies back. -/
theorem divides_iff {ε : Type} [HasFault ε] {total known extent : Int} (nonzero : known ≠ 0) :
    (Signed.remainder total known : Except ε Int) = .ok 0 ∧
        (Signed.quotient total known : Except ε Int) = .ok extent ↔
      total = known * extent ∧ Signed.InRange extent := by
  simp only [Signed.remainder, Signed.quotient, if_neg nonzero]
  by_cases range : Signed.InRange (total.tdiv known)
  · simp only [if_pos range, Except.ok.injEq]
    constructor
    · rintro ⟨rest, rfl⟩
      exact ⟨(Int.mul_tdiv_cancel_of_dvd (Int.dvd_of_tmod_eq_zero rest)).symm, range⟩
    · rintro ⟨rfl, -⟩
      exact ⟨Int.mul_tmod_right _ _, Int.mul_tdiv_cancel_left _ nonzero⟩
  · simp only [if_neg range, reduceCtorEq, false_and, false_iff, not_and]
    rintro rfl extentRange
    exact range ((Int.mul_tdiv_cancel_left _ nonzero).symm ▸ extentRange)

theorem Dims.isStatic_of_volume {dims : Dims} {total : Int} (volume : dims.volume = some total) :
    dims.isStatic = true := by
  by_contra unknown
  simp [Dims.volume, unknown] at volume

theorem Dims.volume_eq_some {dims : Dims} {total : Int} (volume : dims.volume = some total) :
    total = dims.prod := by
  rw [Dims.volume, if_pos (isStatic_of_volume volume)] at volume
  exact (Signed.product?_eq_some volume).1

theorem Dims.inRange_of_volume {dims : Dims} {total : Int} (volume : dims.volume = some total) :
    Signed.InRange total := by
  rw [Dims.volume, if_pos (isStatic_of_volume volume)] at volume
  exact (Signed.product?_eq_some volume).2

theorem inferExtent_eq_ok_iff {source copied out : Dims} {total : Int} {place : Nat}
    {reject : ReshapeFault → NetworkError} (volume : source.volume = some total) :
    inferExtent (some total) copied place reject = .ok out ↔
      Completes source copied (some place) out := by
  simp only [inferExtent]
  constructor
  · intro h
    split at h
    next others =>
      split at h
      next => cases h
      next known product =>
        split at h
        next => cases h
        next nonzero =>
          obtain ⟨rest, remainder, h⟩ := bind_eq_ok_iff.mp h
          split at h
          next => cases h
          next exact =>
            obtain ⟨extent, quotient, result⟩ := bind_eq_ok_iff.mp h
            obtain rfl : rest = 0 := not_not.mp exact
            obtain ⟨counts, range⟩ := (divides_iff nonzero).mp ⟨remainder, quotient⟩
            cases result
            exact .divided place total known extent volume others product nonzero counts range
    next unknown =>
      cases h
      exact .undivided place total volume (by simpa [Dims.isStatic] using unknown)
  · rintro (⟨_, unknown⟩ | ⟨_, total', volume', unknown⟩ |
      ⟨_, total', known, extent, volume', others, product, nonzero, counts, range⟩)
    · exact absurd (Dims.isStatic_of_volume volume) (by simp [unknown])
    · rw [if_neg (by simpa [Dims.isStatic] using unknown)]
      rfl
    · obtain rfl : total' = total := Option.some.inj (volume'.symm.trans volume)
      obtain ⟨remainder, quotient⟩ :=
        (divides_iff (ε := NetworkError) nonzero).mpr ⟨counts, range⟩
      rw [if_pos (by simpa [Dims.isStatic] using others)]
      simp [product, nonzero, remainder, quotient, bind, Except.bind, pure, Except.pure]

/-- A reshape copies and completes, whatever the error it would be refused with. -/
theorem inferReshape_eq_ok_iff {source target out : Dims} {reject : ReshapeFault → NetworkError} :
    inferReshape source target reject = .ok out ↔
      ∃ copied place?, Copies source 0 place? target copied ∧ Completes source copied place? out := by
  simp only [inferReshape, bind_eq_ok_iff, mapError_eq_ok_iff, Prod.exists,
    ← Copies.iff_copyExtents]
  -- What is left is the completion, which depends on whether the number of elements is known and,
  -- if so, on whether an extent is to be inferred.
  refine exists_congr fun copied => exists_congr fun place? => and_congr_right fun _ => ?_
  cases volume : source.volume with
  | none =>
    cases static : source.isStatic with
    | true =>
      refine iff_of_false nofun ?_
      rintro (⟨_, unknown⟩ | ⟨_, _, known, _⟩ | ⟨_, _, _, _, known, _⟩ | ⟨_, known, _⟩)
      · exact absurd static (by simp [unknown])
      all_goals exact absurd known (by simp [volume])
    | false =>
      have same : Completes source copied place? out ↔ copied = out := by
        constructor
        · rintro (⟨_, unknown⟩ | ⟨_, _, known, _⟩ | ⟨_, _, _, _, known, _⟩ | ⟨_, known, _⟩)
          · rfl
          all_goals exact absurd known (by simp [volume])
        · rintro rfl
          exact .unknown place? static
      rw [same]
      cases place? <;> simp [inferExtent, pure, Except.pure]
  | some total =>
    cases place? with
    | some place => simpa using inferExtent_eq_ok_iff volume
    | none =>
      have same : Completes source copied none out ↔
          (Dims.isStatic copied → Dims.volume copied = some total) ∧ copied = out := by
        constructor
        · rintro (⟨_, unknown⟩ | _ | _ | ⟨total', volume', counts⟩)
          · exact absurd (Dims.isStatic_of_volume volume) (by simp [unknown])
          · obtain rfl : total' = total := Option.some.inj (volume'.symm.trans volume)
            exact ⟨counts, rfl⟩
        · rintro ⟨counts, rfl⟩
          exact .compared total volume counts
      rw [same]
      by_cases counts : Dims.isStatic copied → Dims.volume copied = some total
      · by_cases static : copied.isStatic = true <;>
          simp_all [pure, Except.pure]
      · simp_all [bind, Except.bind]

/-- Where an extent of the source is unknown, the copies are the result. -/
theorem Completes.eq_of_not_isStatic {source copied out : Dims} {place? : Option Nat}
    (static : ¬ source.isStatic) (h : Completes source copied place? out) : out = copied := by
  have volume : source.volume = none := by simp [Dims.volume, static]
  rcases h with _ | ⟨_, _, total, _⟩ | ⟨_, _, _, _, total, _⟩ | ⟨_, total, _⟩
  · rfl
  all_goals exact absurd total (by simp [volume])

/-- What a reshape, if there is one, makes of dimensions. -/
def Reshapes (target? : Option Dims) (source out : Dims) : Prop :=
  match target? with
  | none => out = source
  | some target =>
    ∃ copied place?, Copies source 0 place? target copied ∧ Completes source copied place? out

namespace Dims.Admits

variable {dims others : Dims}

theorem refl (dims : Dims) : Admits dims dims :=
  List.forall₂_same.mpr fun _ _ => .inr rfl

/-- Whatever takes the place of an unknown extent is admitted. -/
theorem set {place : Nat} {d : Int} (h : Admits dims others) (unknown : dims[place]? = some d)
    (negative : d < 0) (e : Int) : Admits dims (others.set place e) := by
  induction h generalizing place with
  | nil => exact .nil
  | cons agrees rest ih =>
    cases place with
    | zero => exact .cons (.inl (Option.some.inj unknown ▸ negative)) rest
    | succ place => exact .cons agrees (ih unknown)

end Dims.Admits

namespace Reshapes

variable {target? : Option Dims} {source source' out out' : Dims}

theorem mem_target {target : Dims} (h : Reshapes (some target) source out) :
    ∀ d ∈ target, d = -1 ∨ 0 ≤ d := by
  obtain ⟨copied, place?, copies, -⟩ := h
  exact copies.mem_target

theorem unique (h : Reshapes target? source out) (h' : Reshapes target? source out') :
    out = out' := by
  cases target? with
  | none => exact h.trans h'.symm
  | some target =>
    have accepted : inferReshape source target (.reshape source target) = .ok out :=
      inferReshape_eq_ok_iff.mpr h
    exact Except.ok.inj (accepted.symm.trans (inferReshape_eq_ok_iff.mpr h'))

/-- A reshape that knows more admits no other result. -/
theorem admits (known : Dims.Admits source source') (h : Reshapes target? source out)
    (h' : Reshapes target? source' out') : Dims.Admits out out' := by
  cases target? with
  | none =>
    obtain rfl : out = source := h
    obtain rfl : out' = source' := h'
    exact known
  | some target =>
    -- A source that is known is the one that it admits. Of any other the result is only what was
    -- copied, so that the completion of the second reshape fills a place that was left open.
    by_cases static : source.isStatic = true
    · obtain rfl := known.eq_of_isStatic static
      exact unique h h' ▸ .refl out
    · obtain ⟨copied, place?, copies, completes⟩ := h
      obtain ⟨copied', place?', copies', completes'⟩ := h'
      obtain ⟨rfl, admitted⟩ := copies.admits known copies'
      obtain rfl := completes.eq_of_not_isStatic static
      cases completes' with
      | unknown | undivided | compared => exact admitted
      | divided =>
        obtain ⟨place, rfl, -, unknown⟩ := copies.getElem?_inferred rfl
        exact admitted.set (by simpa using unknown) (by decide) _

theorem inWords (words : source.InWords) (targetWords : ∀ target ∈ target?, Dims.InWords target)
    (h : Reshapes target? source out) : out.InWords := by
  cases target? with
  | none => exact (show out = source from h) ▸ words
  | some target =>
    obtain ⟨copied, place?, copies, completes⟩ := h
    have copiedWords := copies.inWords words (targetWords target rfl)
    cases completes with
    | unknown | undivided | compared => exact copiedWords
    | divided place total known extent volume others product nonzero counts range =>
      intro d member
      rcases List.mem_or_eq_of_mem_set member with old | rfl
      · exact copiedWords d old
      · exact range

/-- Known dimensions are reshaped to known dimensions with as many elements. -/
theorem prod_eq (static : source.isStatic) (h : Reshapes target? source out) :
    out.isStatic ∧ out.prod = source.prod := by
  cases target? with
  | none =>
    obtain rfl : out = source := h
    exact ⟨static, rfl⟩
  | some target =>
    obtain ⟨copied, place?, copies, completes⟩ := h
    cases completes with
    | unknown _ unknown => exact absurd static (by simp [unknown])
    | undivided place _ _ unknown =>
      exact absurd (copies.isStatic_eraseIdx static) (by simp [unknown])
    | compared total volume counts =>
      have known : out.isStatic := copies.isStatic static
      exact ⟨known, (Dims.volume_eq_some (counts known)).symm.trans (Dims.volume_eq_some volume)⟩
    | divided place total known extent volume others product nonzero counts range =>
      obtain ⟨k, rfl, -, entry⟩ := copies.getElem?_inferred rfl
      rw [Nat.zero_add] at others product ⊢
      have within : k < copied.length := List.getElem?_eq_some_iff.mp entry |>.1
      have arranged := List.set_perm_cons_eraseIdx within extent
      have total_eq := Dims.volume_eq_some volume
      obtain ⟨known_eq, -⟩ := Signed.product?_eq_some product
      have known_pos : 0 < known := by
        have := Dims.prod_nonneg others
        omega
      -- The known extents multiply to a positive number, as they are not negative and were divided
      -- by.
      have extent_nonneg : 0 ≤ extent := by
        have := Dims.prod_nonneg static
        rw [← total_eq, counts] at this
        exact Int.nonneg_of_mul_nonneg_right this known_pos
      rw [Dims.isStatic_iff] at others
      refine ⟨Dims.isStatic_iff.mpr fun d member => ?_, ?_⟩
      · rcases List.mem_cons.mp (arranged.mem_iff.mp member) with rfl | other
        · exact extent_nonneg
        · exact others d other
      · rw [arranged.prod_eq, List.prod_cons, ← known_eq, mul_comm, ← counts, total_eq]

end Reshapes

end TensorEngine
