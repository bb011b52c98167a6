import Mathlib.Algebra.BigOperators.Group.List.Basic
import Mathlib.Algebra.Ring.Int.Defs
import TensorEngine.Network.Inference
import TensorEngine.Proofs.Entries
import TensorEngine.Proofs.Words

/-!
# What dimensions say about extents

Dimensions are recorded before extents are known. They admit other dimensions of the same rank
that agree with every extent they know, and they describe a shape exactly when they admit the
shape read as dimensions. Known dimensions admit nothing but themselves.

## Main definitions

* `Dims.Admits`: dimensions that agree with all that is known
* `Shape.toDims`: the dimensions of a shape without regard to the width of words

## Main results

* `Dims.describes_iff`, `Dims.admits_ofShape`: describing a shape is admitting its extents
* `Dims.Admits.eq_of_isStatic`: known dimensions admit only themselves
* `permuteDims_eq_ok_iff`: a transposition of dimensions arranges them
-/

namespace TensorEngine

namespace Signed

/-- The signed reading of a word, by halves of its range. -/
theorem ofUnsigned_eq (n : Nat) : ofUnsigned n =
    if (n : Int) % 0x10000000000000000 < 0x8000000000000000 then (n : Int) % 0x10000000000000000
    else (n : Int) % 0x10000000000000000 - 0x10000000000000000 := by
  unfold ofUnsigned
  rw [Int.bmod_def]
  rfl

theorem inRange_ofUnsigned (n : Nat) : InRange (ofUnsigned n) := by
  simp only [InRange, least, greatest]
  rw [ofUnsigned_eq]
  split <;> omega

theorem ofUnsigned_of_inRange {n : Nat} (h : InRange n) : ofUnsigned n = n := by
  simp only [InRange, least, greatest] at h
  rw [ofUnsigned_eq]
  split <;> omega

/-- A word that is not negative as a signed word is its own signed reading. -/
theorem ofUnsigned_of_nonneg {n : Nat} (word : n < Unsigned.bound) (nonneg : 0 ≤ ofUnsigned n) :
    ofUnsigned n = n := by
  simp only [Unsigned.bound] at word
  rw [ofUnsigned_eq] at nonneg ⊢
  split at nonneg <;> omega

/-- The signed reading of a number is never more than the number. -/
theorem ofUnsigned_le (n : Nat) : ofUnsigned n ≤ n := by
  rw [ofUnsigned_eq]
  split <;> omega

theorem foldlM_mul?_cons {start factor p : Int} {factors : List Int} :
    (factor :: factors).foldlM mul? start = some p ↔
      InRange (start * factor) ∧ factors.foldlM mul? (start * factor) = some p := by
  rw [List.foldlM_cons, Option.bind_eq_bind, Option.bind_eq_some_iff]
  constructor
  · rintro ⟨next, first, rest⟩
    obtain ⟨range, rfl⟩ := mul?_eq_some_iff.mp first
    exact ⟨range, rest⟩
  · rintro ⟨range, rest⟩
    exact ⟨_, mul?_eq_some_iff.mpr ⟨range, rfl⟩, rest⟩

theorem foldlM_mul?_eq_some {start p : Int} {factors : List Int}
    (h : factors.foldlM mul? start = some p) (range : InRange start) :
    p = start * factors.prod ∧ InRange p := by
  induction factors generalizing start with
  | nil =>
    obtain rfl : start = p := Option.some.inj h
    exact ⟨by simp, range⟩
  | cons factor factors ih =>
    obtain ⟨range, rest⟩ := foldlM_mul?_cons.mp h
    obtain ⟨eq, final⟩ := ih rest range
    exact ⟨by rw [eq, List.prod_cons, mul_assoc], final⟩

/-- A product that fits is the exact product. -/
theorem product?_eq_some {factors : List Int} {p : Int} (h : product? factors = some p) :
    p = factors.prod ∧ InRange p := by
  simpa using foldlM_mul?_eq_some h (by decide)

end Signed

/-- The extents of a shape as dimensions that are all known. -/
def Shape.toDims (shape : Shape) : Dims :=
  shape.map fun n : Nat => (n : Int)

namespace Dims

variable {dims others : Dims} {shape : Shape}

/-- The other dimensions have the same rank and every extent that is known. -/
def Admits (dims others : Dims) : Prop :=
  List.Forall₂ (fun d e => d < 0 ∨ d = e) dims others

theorem isStatic_iff : dims.isStatic = true ↔ ∀ d ∈ dims, 0 ≤ d := by
  simp [isStatic]

theorem prod_nonneg (static : dims.isStatic) : 0 ≤ dims.prod := by
  rw [isStatic_iff] at static
  induction dims with
  | nil => decide
  | cons d dims ih =>
    rw [List.forall_mem_cons] at static
    exact Int.mul_nonneg static.1 (ih static.2)

/-- Known dimensions admit only themselves. -/
theorem Admits.eq_of_isStatic (h : Admits dims others) (static : dims.isStatic) :
    dims = others := by
  rw [isStatic_iff] at static
  induction h with
  | nil => rfl
  | cons admitted _ ih =>
    have known := static _ List.mem_cons_self
    rw [ih fun d member => static d (List.mem_cons_of_mem _ member),
      admitted.resolve_left (by omega)]

/-- Dimensions describe the shapes whose extents agree with all that is known. -/
theorem describes_iff :
    describes dims shape = true ↔
      List.Forall₂ (fun (d : Int) (n : Nat) => d < 0 ∨ d = n) dims shape := by
  induction dims generalizing shape with
  | nil => cases shape <;> simp [describes]
  | cons d dims ih => cases shape <;> simp [describes, ih]

/-- The dimensions of a shape are read word by word. -/
theorem inWords_ofShape (shape : Shape) : (ofShape shape).InWords :=
  List.forall_mem_map.mpr fun n _ => Signed.inRange_ofUnsigned n

/-- A described shape, read as dimensions, is admitted. -/
theorem admits_ofShape (words : dims.InWords) (h : describes dims shape) :
    Admits dims (ofShape shape) := by
  rw [describes_iff] at h
  induction h with
  | nil => exact .nil
  | @cons d n dims shape described _ ih =>
    refine .cons ?_ (ih fun e member => words e (List.mem_cons_of_mem _ member))
    rcases described with unknown | rfl
    · exact .inl unknown
    · exact .inr (Signed.ofUnsigned_of_inRange (words _ List.mem_cons_self)).symm

theorem toShape?_eq_some_iff :
    others.toShape? = some shape ↔ others = shape.toDims := by
  unfold toShape? Shape.toDims
  split
  next static =>
    rw [isStatic_iff] at static
    rw [Option.some.injEq]
    constructor
    · rintro rfl
      rw [List.map_map]
      exact (List.map_id'' (fun _ => rfl) _).symm.trans
        (List.map_congr_left fun d member => (Int.toNat_of_nonneg (static d member)).symm)
    · rintro rfl
      simp [Function.comp_def]
  next unknown =>
    refine iff_of_false nofun ?_
    rintro rfl
    exact unknown (isStatic_iff.mpr (by simp))

theorem isStatic_toDims (shape : Shape) : shape.toDims.isStatic :=
  isStatic_iff.mpr (by simp [Shape.toDims])

theorem exists_toDims (static : dims.isStatic) : ∃ shape : Shape, dims = shape.toDims := by
  refine ⟨dims.map Int.toNat, toShape?_eq_some_iff.mp ?_⟩
  rw [toShape?, if_pos static]

theorem toDims_injective {shape' : Shape} (h : shape.toDims = shape'.toDims) : shape = shape' :=
  Option.some.inj ((toShape?_eq_some_iff.mpr rfl).symm.trans (toShape?_eq_some_iff.mpr h))

/-- Known dimensions describe a shape when they are its extents. -/
theorem describes_iff_of_isStatic (static : dims.isStatic) :
    dims.describes shape ↔ shape.toDims = dims := by
  obtain ⟨shape', rfl⟩ := exists_toDims static
  rw [describes_iff, Shape.toDims, List.forall₂_map_left_iff]
  constructor
  · intro described
    have same : shape' = shape := by
      refine List.forall₂_eq_eq_eq ▸ described.imp fun n m agree => ?_
      omega
    rw [same]
    rfl
  · intro same
    obtain rfl := toDims_injective same
    exact List.forall₂_same.mpr fun _ _ => .inr rfl

theorem prod_toDims (shape : Shape) : shape.toDims.prod = shape.size := by
  induction shape with
  | nil => rfl
  | cons n shape ih =>
    rw [Shape.toDims, List.map_cons, List.prod_cons, ← Shape.toDims, ih]
    exact (Int.natCast_mul n _).symm

/-- The shape of admitted dimensions is described. -/
theorem Admits.describes (h : Admits dims others) (concrete : others.toShape? = some shape) :
    Dims.describes dims shape := by
  rw [toShape?_eq_some_iff] at concrete
  subst concrete
  rw [describes_iff]
  exact (List.forall₂_map_right_iff.mp h).imp fun _ _ => id

end Dims

/-- A transposition of dimensions takes a permutation and arranges them. -/
theorem permuteDims_eq_ok_iff {dims out : Dims} {order : List Nat} :
    permuteDims dims order = .ok out ↔ IsPermutation order dims.rank ∧ Arranged order dims out := by
  unfold permuteDims
  split
  next permutation => simp [permutation, Arranged.mapM_entry_eq_ok_iff]
  next other => simp [other]

end TensorEngine
