import TensorEngine.Lowering.Shuffles
import TensorEngine.Proofs.Network.Filling
import TensorEngine.Proofs.Tensor.Layout

/-!
# Reshape targets of rules

The targets that rules compute from recorded dimensions are filled, on every shape that the
dimensions describe, by the shape that the operation means.

## Main results

* `fills_of_flattenTarget`: the target that joins a range of axes
* `scanRequest_eq_ok`, `requestedShape_eq_ok`: the target of a requested shape
* `axis?_of_normalizeAxis`: axes counted from the end
-/

namespace TensorEngine

/-- Recorded extents without other negative entries than minus one are filled by extents that they
describe. -/
theorem Shape.entries_of_described {dims : Dims} {shape : Shape}
    (described : List.Forall₂ (fun (d : Int) (n : Nat) => d < 0 ∨ d = n) dims shape)
    (targets : ∀ d ∈ dims, d = -1 ∨ 0 ≤ d) (positive : ∀ n ∈ shape, 0 < n) :
    List.Forall₂ (fun (d : Int) (n : Nat) => d = -1 ∨ 0 < d ∧ d = n) dims shape := by
  induction described with
  | nil => exact .nil
  | cons entry _ ih =>
    rw [List.forall_mem_cons] at targets positive
    refine .cons ?_ (ih targets.2 positive.2)
    rcases entry with negative | rfl
    · exact .inl (by omega)
    · exact .inr ⟨by exact_mod_cast positive.1, rfl⟩

namespace Lowering

theorem axis?_of_normalizeAxis {axis : Int} {rank k : Nat} (h : normalizeAxis axis rank = .ok k) :
    axis? rank axis = some k := by
  -- Both branches compare the wrapped axis with the rank in the same way.
  have counted : ∀ wrapped : Int, wrapped = (if axis < 0 then axis + rank else axis) →
      (if 0 ≤ wrapped ∧ wrapped < rank then (.ok wrapped.toNat : Except RuleError Nat)
        else .error (.invalid (.axisOutOfRange axis rank))) = .ok k → axis? rank axis = some k := by
    intro wrapped same h
    split at h
    next within =>
      cases h
      simp only [axis?, ← same]
      rw [if_pos within]
    next => cases h
  unfold normalizeAxis at h
  split at h
  next negative =>
    obtain ⟨wrapped, sum, h⟩ := bind_eq_ok_iff.mp h
    unfold Signed.add at sum
    split at sum
    next => exact counted wrapped (by rw [if_pos negative, Except.ok.inj sum]) h
    next => cases sum
  next nonneg => exact counted axis (by rw [if_neg nonneg]) h

theorem slice_eq_ok_iff {ε α : Type} [HasFault ε] {xs ys : List α} {start stop : Nat} :
    (slice xs start stop : Except ε (List α)) = .ok ys ↔
      (start ≤ stop ∧ stop ≤ xs.length) ∧ ys = (xs.drop start).take (stop - start) := by
  unfold slice
  split
  next within => simp [within, eq_comm]
  next outside => exact iff_of_false nofun fun h => outside h.1

variable {dims target : Dims} {shape : Shape} {first last : Nat}

/-- Joined extents that are all known have the extent that their places have in the shape. -/
theorem collapsedExtent_eq_ok
    (described : List.Forall₂ (fun (d : Int) (n : Nat) => d < 0 ∨ d = n) dims shape)
    (known : Dims.isStatic ((dims.drop first).take (last + 1 - first))) {extent : Int}
    (h : collapsedExtent dims first last = .ok extent) :
    extent = Shape.size ((shape.take (last + 1)).drop first) := by
  obtain ⟨joined, cut, h⟩ := bind_eq_ok_iff.mp h
  obtain ⟨-, rfl⟩ := slice_eq_ok_iff.mp cut
  split at h
  next product =>
    cases h
    have joinedDescribed : Dims.describes ((dims.drop first).take (last + 1 - first))
        ((shape.drop first).take (last + 1 - first)) :=
      Dims.describes_iff.mpr (List.forall₂_take _ (List.forall₂_drop _ described))
    have same := (Dims.describes_iff_of_isStatic known).mp joinedDescribed
    rw [(Signed.product?_eq_some product).1, ← same, Dims.prod_toDims, List.drop_take]
  next => cases h

theorem size_joined (order : first ≤ last) :
    (shape.joined first last).size = shape.size := by
  have parts : shape = shape.take first ++ ((shape.take (last + 1)).drop first ++
      shape.drop (last + 1)) := by
    rw [← List.append_assoc]
    conv_lhs => rw [← List.take_append_drop (last + 1) shape]
    congr 1
    conv_lhs => rw [← List.take_append_drop first (shape.take (last + 1)), List.take_take]
    rw [Nat.min_eq_left (by omega)]
  rw [Shape.joined, Shape.size_append, Shape.size_cons]
  conv_rhs => rw [parts]
  rw [Shape.size_append, Shape.size_append]

/-- The target that joins a range of axes is filled by the shape with the axes joined. -/
theorem fills_of_flattenTarget {dynamicShape : Bool} (order : first ≤ last)
    (within : last < shape.length) (described : Dims.describes dims shape)
    (positive : ∀ n ∈ shape, 0 < n)
    (h : flattenTarget dynamicShape dims first last = .ok target)
    (targets : ∀ d ∈ target, d = -1 ∨ 0 ≤ d) :
    Shape.Fills shape 0 target (shape.joined first last) := by
  rw [Dims.describes_iff] at described
  have rank : dims.length = shape.length := List.Forall₂.length_eq described
  have joined_pos : 0 < Shape.size ((shape.take (last + 1)).drop first) :=
    Shape.size_pos_iff.mpr fun n member =>
      positive n (List.mem_of_mem_take (List.mem_of_mem_drop member))
  have leading_length : (shape.take first).length = first := by
    rw [List.length_take]
    omega
  -- With dynamic shapes, the axes in front are copied by zeros.
  have copies : ∀ {rest : Dims}, Shape.Fills shape first rest
      (Shape.size ((shape.take (last + 1)).drop first) :: shape.drop (last + 1)) →
      Shape.Fills shape 0 (List.replicate first 0 ++ rest) (shape.joined first last) := by
    intro rest fills
    have entries : ∀ (k n : Nat), (shape.take first)[k]? = some n → shape[0 + k]? = some n := by
      intro k n entry
      rw [Nat.zero_add]
      exact getElem?_of_isPrefix (List.take_prefix _ _) entry
    have leading := Shape.Fills.copy entries
      (show Shape.Fills shape (0 + (shape.take first).length) rest _ by
        rwa [Nat.zero_add, leading_length])
    rwa [leading_length] at leading
  have trailing : ∀ {place : Nat}, (∀ d ∈ dims.drop (last + 1), d = -1 ∨ 0 ≤ d) →
      Shape.Fills shape place (dims.drop (last + 1)) (shape.drop (last + 1)) := fun targets =>
    .of_entries (Shape.entries_of_described (List.forall₂_drop _ described) targets
      fun n member => positive n (List.mem_of_mem_drop member))
  -- A joined extent that is computed is that of the shape, if all the extents it joins are known.
  have extent : ∀ {extent : Int}, collapsedExtent dims first last = .ok extent →
      Dims.isStatic ((dims.drop first).take (last + 1 - first)) → ∀ {place : Nat},
      (∀ d ∈ dims.drop (last + 1), d = -1 ∨ 0 ≤ d) →
      Shape.Fills shape place (extent :: dims.drop (last + 1))
        (Shape.size ((shape.take (last + 1)).drop first) :: shape.drop (last + 1)) := by
    intro extent collapsed known place targets
    rw [collapsedExtent_eq_ok described known collapsed]
    exact .fixed joined_pos (trailing targets)
  have cut_trailing :
      (dims.drop (last + 1)).take (dims.length - (last + 1)) = dims.drop (last + 1) :=
    List.take_of_length_le (by rw [List.length_drop])
  unfold flattenTarget at h
  split at h
  next =>
    obtain ⟨_, cut, h⟩ := bind_eq_ok_iff.mp h
    obtain ⟨_, cut', h⟩ := bind_eq_ok_iff.mp h
    obtain ⟨-, rfl⟩ := slice_eq_ok_iff.mp cut
    obtain ⟨-, rfl⟩ := slice_eq_ok_iff.mp cut'
    rw [cut_trailing] at h
    dsimp only at h
    split at h
    next =>
      cases h
      refine copies (.inferred (trailing fun d member => targets d ?_))
      exact List.mem_append_right _ (List.mem_cons_of_mem _ member)
    next =>
      split at h
      next known =>
        obtain ⟨e, collapsed, result⟩ := bind_eq_ok_iff.mp h
        cases result
        refine copies (extent collapsed (by simpa [Dims.isStatic] using known.2) fun d member =>
          targets d ?_)
        exact List.mem_append_right _ (List.mem_cons_of_mem _ member)
      next => cases h
  next static =>
    obtain ⟨_, cut, h⟩ := bind_eq_ok_iff.mp h
    obtain ⟨e, collapsed, h⟩ := bind_eq_ok_iff.mp h
    obtain ⟨_, cut', result⟩ := bind_eq_ok_iff.mp h
    obtain ⟨-, rfl⟩ := slice_eq_ok_iff.mp cut
    obtain ⟨-, rfl⟩ := slice_eq_ok_iff.mp cut'
    cases result
    rw [cut_trailing, List.drop_zero, Nat.sub_zero] at targets ⊢
    have known : ∀ d ∈ dims, 0 ≤ d := by
      have bothKnown : dynamicShape = false ∧ dims.isStatic = true := by simpa using static
      exact Dims.isStatic_iff.mp bothKnown.2
    rw [collapsedExtent_eq_ok described (Dims.isStatic_iff.mpr fun d member =>
      known d (List.mem_of_mem_drop (List.mem_of_mem_take member))) collapsed]
    have entries := fun {xs : Dims} (sub : xs ⊆ dims) {ys : Shape} (sub' : ys ⊆ shape)
        (related : List.Forall₂ (fun (d : Int) (n : Nat) => d < 0 ∨ d = n) xs ys) =>
      Shape.entries_of_described related (fun d member => .inr (known d (sub member)))
        fun n member => positive n (sub' member)
    refine .of_entries (List.rel_append
      (entries (List.take_subset _ _) (List.take_subset _ _) (List.forall₂_take _ described))
      (.cons (.inr ⟨by exact_mod_cast joined_pos, rfl⟩)
        (entries (List.drop_subset _ _) (List.drop_subset _ _) (List.forall₂_drop _ described))))

/-! ### Requested shapes -/

/-- Scanning a request finds the product of the sizes that are given and the place of the one that
is left to be inferred, if there is one. -/
theorem scanRequest_eq_ok {sizes : List Int} {place : Nat} {inferred place? : Option Nat}
    {known product : Int} (h : scanRequest place inferred known sizes = .ok (place?, product)) :
    (∀ d ∈ sizes, d = -1 ∨ 0 < d) ∧ product = known * (sizes.filter (· ≠ -1)).prod ∧
      ((place? = inferred ∧ sizes.count (-1) = 0) ∨ inferred = none ∧
        ∃ k, place? = some (place + k) ∧ sizes[k]? = some (-1) ∧ sizes.count (-1) = 1) := by
  induction sizes generalizing place inferred known with
  | nil =>
    cases h
    exact ⟨nofun, (Int.mul_one _).symm, .inl ⟨rfl, rfl⟩⟩
  | cons d sizes ih =>
    unfold scanRequest at h
    split at h
    next minusOne =>
      subst minusOne
      split at h
      next => cases h
      next first =>
        have absent : inferred = none := by simpa using first
        obtain ⟨entries, count, only⟩ := ih h
        obtain ⟨rfl, rest⟩ | ⟨absurd, -⟩ := only
        · refine ⟨List.forall_mem_cons.mpr ⟨.inl rfl, entries⟩, count,
            .inr ⟨absent, 0, rfl, rfl, ?_⟩⟩
          rw [List.count_cons_self, rest]
        · cases absurd
    next given =>
      have kept : (d :: sizes).filter (· ≠ -1) = d :: sizes.filter (· ≠ -1) :=
        List.filter_cons_of_pos (by simpa using given)
      have counted : (d :: sizes).count (-1) = sizes.count (-1) :=
        List.count_cons_of_ne given
      split at h
      next positive =>
        split at h
        next next product =>
          obtain ⟨entries, count, only⟩ := ih h
          obtain ⟨-, rfl⟩ := Signed.mul?_eq_some_iff.mp product
          refine ⟨List.forall_mem_cons.mpr ⟨.inr positive, entries⟩, ?_, ?_⟩
          · rw [count, kept, List.prod_cons, Int.mul_assoc]
          · rw [counted]
            refine only.imp_right fun ⟨absent, k, at?, entry, once⟩ =>
              ⟨absent, k + 1, ?_, entry, once⟩
            rw [at?, Nat.add_right_comm, Nat.add_assoc]
        next => cases h
      next => split at h <;> cases h

theorem prod_map_inferred (sizes : List Int) (extent : Int) :
    (sizes.map fun d => if d = -1 then extent else d).prod =
      extent ^ sizes.count (-1) * (sizes.filter (· ≠ -1)).prod := by
  induction sizes with
  | nil => simp
  | cons d sizes ih =>
    by_cases given : d = -1
    · subst given
      rw [List.map_cons, if_pos rfl, List.prod_cons, ih, List.count_cons_self, pow_succ',
        List.filter_cons_of_neg (by simp), mul_assoc]
    · rw [List.map_cons, if_neg given, List.prod_cons, ih, List.count_cons_of_ne given,
        List.filter_cons_of_pos (by simpa using given), List.prod_cons, mul_left_comm]

theorem set_eq_map_inferred {sizes : List Int} {k : Nat} (entry : sizes[k]? = some (-1))
    (once : sizes.count (-1) = 1) (extent : Int) :
    sizes.set k extent = sizes.map fun d => if d = -1 then extent else d := by
  induction sizes generalizing k with
  | nil => cases entry
  | cons d sizes ih =>
    cases k with
    | zero =>
      cases entry
      have rest : sizes.count (-1) = 0 := by simpa using once
      -- No other size is left to be inferred, so the rest stays as it is.
      have others : sizes.map (fun d => if d = -1 then extent else d) = sizes.map id :=
        List.map_congr_left fun d member => if_neg <| by
          rintro rfl
          exact List.count_eq_zero.mp rest member
      rw [List.set_cons_zero, List.map_cons, if_pos rfl, others, List.map_id]
    | succ k =>
      have given : d ≠ -1 := by
        rintro rfl
        have rest : sizes.count (-1) = 0 := by simpa using once
        exact List.count_eq_zero.mp rest (List.mem_of_getElem? entry)
      rw [List.count_cons_of_ne given] at once
      rw [List.set_cons_succ, List.map_cons, if_neg given, ih entry once]

theorem prod_given_pos {sizes : List Int} (entries : ∀ d ∈ sizes, d = -1 ∨ 0 < d) :
    0 < (sizes.filter (· ≠ -1)).prod := by
  induction sizes with
  | nil => simp
  | cons d sizes ih =>
    rw [List.forall_mem_cons] at entries
    by_cases given : d = -1
    · rw [List.filter_cons_of_neg (by simpa using given)]
      exact ih entries.2
    · rw [List.filter_cons_of_pos (by simpa using given), List.prod_cons]
      exact Int.mul_pos (entries.1.resolve_left given) (ih entries.2)

/-- A request means the shape with the inferred extent when the product of its sizes is the number
of elements. -/
theorem requested?_eq_some (extent : Nat) {requested : List Int} {count : Nat}
    (entries : ∀ d ∈ requested, d = -1 ∨ 0 < d) (once : requested.count (-1) ≤ 1)
    (product : (extent : Int) ^ requested.count (-1) * (requested.filter (· ≠ -1)).prod = count) :
    ∃ s, Shape.requested? count requested = some s ∧ s.size = count ∧
      s.toDims = requested.map fun d => if d = -1 then (extent : Int) else d := by
  obtain ⟨known, known_eq⟩ : ∃ known : Shape, requested.filter (· ≠ -1) = known.toDims :=
    Dims.exists_toDims <| Dims.isStatic_iff.mpr fun d member => by
      obtain ⟨member, other⟩ := List.mem_filter.mp member
      exact Int.le_of_lt ((entries d member).resolve_left (by simpa using other))
  have known_nat : (requested.filter (· ≠ -1)).map Int.toNat = known := by
    rw [known_eq]
    simp [Shape.toDims, Function.comp_def]
  have known_pos : 0 < known.prod := by
    have positive := prod_given_pos entries
    rw [known_eq, Dims.prod_toDims, Shape.size_eq_prod] at positive
    exact_mod_cast positive
  rw [known_eq, Dims.prod_toDims, Shape.size_eq_prod] at product
  let shape : Shape := requested.map fun d => if d = -1 then extent else d.toNat
  have dims : shape.toDims = requested.map fun d => if d = -1 then (extent : Int) else d := by
    rw [Shape.toDims, List.map_map]
    refine List.map_congr_left fun d member => ?_
    rcases entries d member with rfl | positive
    · rfl
    · simp [show d ≠ -1 by omega, Int.max_eq_left (Int.le_of_lt positive)]
  have size : shape.size = count := by
    rw [← Int.natCast_inj, ← Dims.prod_toDims, dims, prod_map_inferred, known_eq,
      Dims.prod_toDims, Shape.size_eq_prod]
    exact product
  have same : (requested.map fun d => if d = -1 then count / known.prod else d.toNat) = shape := by
    refine List.map_congr_left fun d member => ?_
    by_cases inferred : d = -1
    · have one : requested.count (-1) = 1 :=
        once.antisymm (List.count_pos_iff.mpr (inferred ▸ member))
      rw [one, pow_one] at product
      rw [if_pos inferred, if_pos inferred]
      exact Nat.div_eq_of_eq_mul_left known_pos (by exact_mod_cast product.symm)
    · rw [if_neg inferred, if_neg inferred]
  refine ⟨shape, ?_, size, dims⟩
  simp only [Shape.requested?, known_nat, same]
  exact if_pos ⟨entries, once, size⟩

/-- The target of a request is the shape that the request means for as many elements. -/
theorem requestedShape_eq_ok {requested : List Int} (positive : 0 < shape.size)
    (h : requestedShape shape.toDims requested = .ok target) :
    ∃ s, Shape.requested? shape.size requested = some s ∧ s.size = shape.size ∧
      target = s.toDims := by
  unfold requestedShape at h
  dsimp only at h
  rw [if_neg (by simp [Dims.isStatic_toDims])] at h
  cases volume : Dims.volume shape.toDims with
  | none =>
    rw [volume] at h
    cases h
  | some total =>
    have total_eq : total = shape.size := by
      rw [Dims.volume_eq_some volume, Dims.prod_toDims]
    rw [volume] at h
    obtain ⟨⟨inferred, known⟩, scanned, h⟩ := bind_eq_ok_iff.mp h
    obtain ⟨entries, known_eq, only⟩ := scanRequest_eq_ok (mapError_eq_ok_iff.mp scanned)
    rw [one_mul] at known_eq
    rcases only with ⟨rfl, absent⟩ | ⟨-, k, rfl, entry, once⟩
    · dsimp only at h
      split at h
      next same =>
        cases h
        obtain ⟨s, means, size, dims⟩ := requested?_eq_some 0 entries (by omega)
          (by rw [absent, pow_zero, one_mul, ← known_eq, same, total_eq])
        have others :
            target.map (fun d => if d = -1 then ((0 : Nat) : Int) else d) = target.map id :=
          List.map_congr_left fun d member => if_neg <| by
            rintro rfl
            exact List.count_eq_zero.mp absent member
        exact ⟨s, means, size, by rw [dims, others, List.map_id]⟩
      next => cases h
    · rw [Nat.zero_add] at h
      dsimp only at h
      split at h
      next => cases h
      next =>
        obtain ⟨rest, remainder, h⟩ := bind_eq_ok_iff.mp h
        split at h
        next => cases h
        next exact =>
          obtain ⟨extent, quotient, result⟩ := bind_eq_ok_iff.mp h
          obtain rfl : rest = 0 := not_not.mp exact
          cases result
          have known_pos : 0 < known := known_eq ▸ prod_given_pos entries
          obtain ⟨counts, -⟩ := (divides_iff (Int.ne_of_gt known_pos)).mp ⟨remainder, quotient⟩
          rw [total_eq] at counts
          obtain ⟨e, rfl⟩ := Int.eq_ofNat_of_zero_le (a := extent) <| by
            by_contra negative
            have := Int.mul_neg_of_pos_of_neg known_pos (by omega : extent < 0)
            omega
          obtain ⟨s, means, size, dims⟩ := requested?_eq_some e entries (by omega)
            (by rw [once, pow_one, ← known_eq, counts, mul_comm])
          exact ⟨s, means, size, by rw [dims, set_eq_map_inferred entry once]⟩

end Lowering

end TensorEngine
