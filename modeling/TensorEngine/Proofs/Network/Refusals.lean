import TensorEngine.Proofs.Network.Inference

/-!
# Inference only refuses

The rules of inference count elements in signed words and divide by what they have counted. They
look at a product only when it fits, and divide only by what is not zero, so that their errors are
refusals of the operands and never faults.

## Main definitions

* `NetworkError.isOrderly`: errors that are no faults

## Main results

* `inferShuffle_orderly`, `inferBroadcast_orderly`, `inferMatrixMultiply_orderly`: inference has a
  result or refuses its operands
-/

namespace TensorEngine

/-- The error is a refusal, and not a fault of the computation. -/
def NetworkError.isOrderly : NetworkError → Bool
  | .fault _ => false
  | _ => true

/-- An inference has a result, or refuses its operands. -/
abbrev InfersOrRefuses (x : Except NetworkError Dims) : Prop :=
  Ends (fun e => e.isOrderly) (fun _ => True) x

theorem permuteDims_orderly (dims : Dims) (order : List Nat) :
    InfersOrRefuses (permuteDims dims order) := by
  unfold permuteDims
  split
  next permutation =>
    obtain ⟨out, arranged⟩ : ∃ out, Arranged order dims out :=
      Arranged.exists_of_lt permutation.2.1
    rw [Arranged.mapM_entry_eq_ok_iff.mpr arranged]
    trivial
  next => exact rfl

theorem transposeDims_orderly (dims : Dims) (order? : Option (List Nat)) :
    InfersOrRefuses (transposeDims dims order?) := by
  cases order? with
  | none => trivial
  | some order => exact permuteDims_orderly dims order

/-- A word that is divided by a positive number has a quotient and a remainder. -/
theorem Signed.divides_of_pos {ε : Type} [HasFault ε] {total known : Int} (range : InRange total)
    (positive : 0 < known) : (quotient total known : Except ε Int) = .ok (total.tdiv known) ∧
      (remainder total known : Except ε Int) = .ok (total.tmod known) := by
  have smaller : (total.tdiv known).natAbs ≤ total.natAbs := by
    rw [Int.natAbs_tdiv]
    exact Nat.div_le_self _ _
  have inRange : InRange (total.tdiv known) := by
    obtain ⟨low, high⟩ := range
    simp only [InRange, least, greatest] at low high ⊢
    rcases Int.le_total 0 total with nonneg | nonpos
    · have := Int.tdiv_nonneg nonneg (Int.le_of_lt positive)
      omega
    · have := Int.tdiv_nonneg (Int.neg_nonneg_of_nonpos nonpos) (Int.le_of_lt positive)
      rw [Int.neg_tdiv] at this
      omega
  simp [quotient, remainder, Int.ne_of_gt positive, inRange]

variable {reject : ReshapeFault → NetworkError}

/-- An extent is inferred from a count that fits by dividing by a product that is not zero. -/
theorem inferExtent_orderly (refuses : ∀ fault, (reject fault).isOrderly) {total : Option Int}
    (range : ∀ n ∈ total, Signed.InRange n) (dims : Dims) (place : Nat) :
    InfersOrRefuses (inferExtent total dims place reject) := by
  unfold inferExtent
  dsimp only
  cases total with
  | none => trivial
  | some total =>
    dsimp only
    split
    next others =>
      split
      next => exact refuses _
      next known product =>
        split
        next => exact refuses _
        next nonzero =>
          have positive : 0 < known := by
            have counted := (Signed.product?_eq_some product).1
            have nonneg : 0 ≤ (dims.eraseIdx place).prod := Dims.prod_nonneg others
            omega
          obtain ⟨quotient, remainder⟩ :=
            Signed.divides_of_pos (ε := NetworkError) (range total rfl) positive
          rw [remainder, ok_bind, quotient, ok_bind]
          split
          · exact refuses _
          · trivial
    next => trivial

theorem inferReshape_orderly (refuses : ∀ fault, (reject fault).isOrderly)
    (source target : Dims) : InfersOrRefuses (inferReshape source target reject) := by
  have range : ∀ n ∈ source.volume, Signed.InRange n := fun n => Dims.inRange_of_volume
  have copied : Ends (fun e => e.isOrderly) (fun _ => True)
      ((copyExtents source 0 none target).mapError reject) :=
    Ends.mapError_any (fun _ _ => trivial) refuses
  refine Ends.bind copied ?_
  rintro ⟨dims, inferred⟩ - -
  dsimp only
  split
  · exact refuses _
  cases inferred with
  | some place => exact inferExtent_orderly refuses range dims place
  | none =>
    cases source.volume with
    | none => trivial
    | some total =>
      dsimp only
      split
      · exact refuses _
      · trivial

/-- Dimensions are shuffled, or the shuffle is refused. -/
theorem inferShuffle_orderly (input : Dims) (spec : ShuffleSpec) :
    InfersOrRefuses (inferShuffle input spec) := by
  refine Ends.bind (transposeDims_orderly input spec.firstTranspose) fun dims _ _ => ?_
  cases spec.reshape with
  | none => exact transposeDims_orderly dims spec.secondTranspose
  | some target =>
    exact (inferReshape_orderly (fun _ => rfl) dims target).bind fun dims _ _ =>
      transposeDims_orderly dims spec.secondTranspose

/-- Dimensions are broadcast, or the operands are refused. -/
theorem inferBroadcast_orderly (lhs rhs : Dims) : InfersOrRefuses (inferBroadcast lhs rhs) := by
  unfold inferBroadcast
  split
  · trivial
  · exact rfl

/-- The dimensions of a matrix product are inferred, or the operands are refused. -/
theorem inferMatrixMultiply_orderly (lhs rhs : Dims) (op0 op1 : MatrixOp) :
    InfersOrRefuses (inferMatrixMultiply lhs op0 rhs op1) := by
  unfold inferMatrixMultiply
  split
  · dsimp only
    split
    · exact rfl
    · split
      · trivial
      · exact rfl
  · exact rfl

end TensorEngine
