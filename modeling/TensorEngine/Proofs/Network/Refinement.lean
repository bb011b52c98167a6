import TensorEngine.Proofs.Network.Refusals

/-!
# Inferring before extents are known

Dimensions are inferred when a network is built, and once more from the extents that its tensors turn
out to have. An extent that is not known yet is minus one, and can become any number. What was inferred
early is refined by what is inferred late, and what is refused early is refused late, whatever the
extents become, zero and one included.

The rules are shown to look ahead in this way from the late side. If the extents are accepted, so are the
dimensions that they refine, with a result that is refined. Dimensions with a negative extent other than
minus one are refined by nothing, and a broadcast does refuse some of these early.

## Main definitions

* `Dims.Refines`: extents that dimensions can turn out to have
* `Foresees`: an early inference that the late one bears out

## Main results

* `inferShuffle_foresees`, `inferBroadcast_foresees`, `inferMatrixMultiply_foresees`: each rule looks
  ahead
* `inference_foresees_extents`: all of them do
-/

namespace TensorEngine

namespace Dims

variable {dims concrete : Dims}

/-- The extents are those of the dimensions where these are known, and any numbers where they are minus
one. -/
def Refines (concrete dims : Dims) : Prop :=
  List.Forall₂ (fun d n => 0 ≤ n ∧ (d = -1 ∨ d = n)) dims concrete

instance : Decidable (Refines concrete dims) :=
  inferInstanceAs (Decidable (List.Forall₂ _ _ _))

/-- Dimensions without negative extents but minus one are refined by the known ones that they admit. -/
theorem refines_iff :
    concrete.Refines dims ↔ dims.Admits concrete ∧ concrete.isStatic ∧ ∀ d ∈ dims, -1 ≤ d := by
  rw [isStatic_iff]
  constructor
  · intro h
    refine ⟨h.imp fun d n extent => ?_, fun n member => ?_, fun d member => ?_⟩
    · omega
    · obtain ⟨d, -, nonneg, -⟩ := forall₂_mem_right h member
      exact nonneg
    · obtain ⟨n, -, nonneg, extent⟩ := forall₂_mem_left h member
      omega
  · rintro ⟨admits, nonneg, least⟩
    apply (forall₂_and_mem admits).imp
    intro d n ⟨extent, memberD, memberN⟩
    have := nonneg n memberN
    have := least d memberD
    omega

theorem Refines.admits (h : concrete.Refines dims) : dims.Admits concrete :=
  (refines_iff.mp h).1

theorem Refines.isStatic (h : concrete.Refines dims) : concrete.isStatic :=
  (refines_iff.mp h).2.1

theorem Refines.minusOne_le (h : concrete.Refines dims) : ∀ d ∈ dims, -1 ≤ d :=
  (refines_iff.mp h).2.2

theorem Refines.length_eq (h : concrete.Refines dims) : dims.length = concrete.length :=
  List.Forall₂.length_eq h

end Dims

/-- What is inferred early is refined by what is inferred late, and what is refused early is refused
late. -/
structure Foresees (early late : Except NetworkError Dims) : Prop where
  refined : ∀ out concrete, early = .ok out → late = .ok concrete → concrete.Refines out
  refused : ∀ e, early = .error e → ∃ e', late = .error e' ∧ e'.isOrderly

/-- An early inference looks ahead if it accepts what is accepted late, with a result that is refined. -/
theorem Foresees.of_late {early late : Except NetworkError Dims} (refuses : InfersOrRefuses late)
    (accepts : ∀ concrete, late = .ok concrete → ∃ out, early = .ok out ∧ concrete.Refines out) :
    Foresees early late := by
  constructor
  · intro out concrete inferred inferred'
    obtain ⟨out', accepted, refines⟩ := accepts concrete inferred'
    cases inferred.symm.trans accepted
    exact refines
  · intro e refused
    cases late with
    | error e' => exact ⟨e', rfl, refuses⟩
    | ok concrete =>
      obtain ⟨out, accepted, -⟩ := accepts concrete rfl
      cases refused.symm.trans accepted

/-! ### Shuffles -/

variable {source concrete target dims dims' : Dims} {target? : Option Dims} {place : Nat}
  {place? : Option Nat}

/-- Places that are copied from one source can be copied from every other one of its rank. -/
theorem Copies.exists_of_length_eq (rank : source.length = concrete.length)
    (h : Copies concrete place place? target dims') : ∃ dims, Copies source place place? target dims := by
  induction h with
  | nil => exact ⟨[], .nil⟩
  | @copied place _ _ _ _ entry _ ih =>
    obtain ⟨dims, copies⟩ := ih
    have within : place < source.length := rank ▸ (List.getElem?_eq_some_iff.mp entry).1
    exact ⟨_, .copied (List.getElem?_eq_getElem within) copies⟩
  | inferred _ ih =>
    obtain ⟨dims, copies⟩ := ih
    exact ⟨_, .inferred copies⟩
  | fixed positive _ ih =>
    obtain ⟨dims, copies⟩ := ih
    exact ⟨_, .fixed positive copies⟩

theorem Copies.minusOne_le (least : ∀ d ∈ source, -1 ≤ d)
    (h : Copies source place place? target dims) : ∀ d ∈ dims, -1 ≤ d := by
  induction h with
  | nil => exact nofun
  | copied entry _ ih => exact List.forall_mem_cons.mpr ⟨least _ (List.mem_of_getElem? entry), ih⟩
  | inferred _ ih => exact List.forall_mem_cons.mpr ⟨Int.le_refl _, ih⟩
  | fixed positive _ ih => exact List.forall_mem_cons.mpr ⟨by omega, ih⟩

theorem Reshapes.minusOne_le {out : Dims} (least : ∀ d ∈ source, -1 ≤ d)
    (h : Reshapes target? source out) : ∀ d ∈ out, -1 ≤ d := by
  by_cases static : source.isStatic
  · intro d member
    have := Dims.isStatic_iff.mp (h.prod_eq static).1 d member
    omega
  · cases target? with
    | none => exact (show out = source from h) ▸ least
    | some target =>
      obtain ⟨copied, place?, copies, completes⟩ := h
      rw [completes.eq_of_not_isStatic static]
      exact copies.minusOne_le least

/-- A reshape of extents is one of the dimensions that they refine. -/
theorem Reshapes.exists_of_refines {reshaped : Dims} (refines : concrete.Refines source)
    (h : Reshapes target? concrete reshaped) :
    ∃ out, Reshapes target? source out ∧ reshaped.Refines out := by
  have accepted : ∃ out, Reshapes target? source out := by
    by_cases static : source.isStatic
    · rw [refines.admits.eq_of_isStatic static]
      exact ⟨reshaped, h⟩
    · cases target? with
      | none => exact ⟨source, rfl⟩
      | some target =>
        -- Where an extent is unknown, nothing but the copies can be refused, and there are as many
        -- places to copy from.
        obtain ⟨_, place?, copies, -⟩ := h
        obtain ⟨copied, copies'⟩ := copies.exists_of_length_eq refines.length_eq
        exact ⟨copied, copied, place?, copies', .unknown place? (Bool.eq_false_iff.mpr static)⟩
  obtain ⟨out, early⟩ := accepted
  refine ⟨out, early, Dims.refines_iff.mpr ⟨early.admits refines.admits h, ?_, ?_⟩⟩
  · exact (h.prod_eq refines.isStatic).1
  · exact early.minusOne_le refines.minusOne_le

/-- A transposition of extents is one of the dimensions that they refine. -/
theorem Transposes.exists_of_refines {order? : Option (List Nat)} {transposed : Dims}
    (refines : concrete.Refines source) (h : Transposes order? concrete transposed) :
    ∃ out, Transposes order? source out ∧ transposed.Refines out := by
  have accepted : ∃ out, Transposes order? source out := by
    cases order? with
    | none => exact ⟨source, rfl⟩
    | some order =>
      have permutation : IsPermutation order source.length := refines.length_eq ▸ h.1
      obtain ⟨out, arranged⟩ := Arranged.exists_of_lt permutation.2.1
      exact ⟨out, permutation, arranged⟩
  obtain ⟨out, early⟩ := accepted
  exact ⟨out, early, early.forall₂ refines h⟩

theorem inferShuffle_foresees (refines : concrete.Refines source) (spec : ShuffleSpec) :
    Foresees (inferShuffle source spec) (inferShuffle concrete spec) := by
  apply Foresees.of_late (inferShuffle_orderly concrete spec)
  intro shuffled inferred
  obtain ⟨first', second', transposes, reshapes, transposes'⟩ := inferShuffle_eq_ok_iff.mp inferred
  obtain ⟨first, early, refines⟩ := transposes.exists_of_refines refines
  obtain ⟨second, early', refines⟩ := reshapes.exists_of_refines refines
  obtain ⟨out, early'', refines⟩ := transposes'.exists_of_refines refines
  exact ⟨out, inferShuffle_eq_ok_iff.mpr ⟨first, second, early, early', early''⟩, refines⟩

/-! ### Broadcasts and matrix products -/

variable {lhs rhs lhs' rhs' : Dims}

theorem exists_broadcastExtent? {a b m n c : Int} (left : 0 ≤ m ∧ (a = -1 ∨ a = m))
    (right : 0 ≤ n ∧ (b = -1 ∨ b = n)) (h : broadcastExtent? m n = some c) :
    ∃ d, broadcastExtent? a b = some d ∧ 0 ≤ c ∧ (d = -1 ∨ d = c) := by
  unfold broadcastExtent? at h ⊢
  grind

/-- A broadcast of extents is one of the dimensions that they refine. -/
theorem exists_broadcastExtents? {stretched : Dims} (left : lhs'.Refines lhs)
    (right : rhs'.Refines rhs) (h : broadcastExtents? lhs' rhs' = some stretched) :
    ∃ out, broadcastExtents? lhs rhs = some out ∧ stretched.Refines out := by
  induction left generalizing rhs rhs' stretched with
  | nil =>
    cases right with
    | nil =>
      cases h
      exact ⟨[], rfl, .nil⟩
    | cons => cases h
  | cons first _ ih =>
    cases right with
    | nil => cases h
    | cons second later =>
      simp only [broadcastExtents?, Option.bind_eq_bind, Option.bind_eq_some_iff] at h
      obtain ⟨c, head, rest, tail, result⟩ := h
      cases result
      obtain ⟨d, early, refines⟩ := exists_broadcastExtent? first second head
      obtain ⟨out, earlier, others⟩ := ih later tail
      refine ⟨d :: out, ?_, .cons refines others⟩
      simp [broadcastExtents?, early, earlier]

theorem inferBroadcast_foresees (left : lhs'.Refines lhs) (right : rhs'.Refines rhs) :
    Foresees (inferBroadcast lhs rhs) (inferBroadcast lhs' rhs') := by
  apply Foresees.of_late (inferBroadcast_orderly lhs' rhs')
  intro stretched inferred
  obtain ⟨out, early, refines⟩ :=
    exists_broadcastExtents? left right (inferBroadcast_eq_ok_iff.mp inferred)
  exact ⟨out, inferBroadcast_eq_ok_iff.mpr early, refines⟩

/-- The extents of a matrix refine what is known of its rows and columns, and so they do when it is
transposed. -/
theorem Dims.Refines.matrix {stack : Dims} {rows columns : Int}
    (h : Refines (stack ++ [rows, columns]) dims) (op : MatrixOp) :
    ∃ (stack' : Dims) (rows' columns' : Int), dims = stack' ++ [rows', columns'] ∧
      stack.Refines stack' ∧
      (0 ≤ (op.orient rows columns).1 ∧ ((op.orient rows' columns').1 = -1 ∨
        (op.orient rows' columns').1 = (op.orient rows columns).1)) ∧
      (0 ≤ (op.orient rows columns).2 ∧ ((op.orient rows' columns').2 = -1 ∨
        (op.orient rows' columns').2 = (op.orient rows columns).2)) := by
  obtain ⟨stack', rows', rest, rfl, outer, row, last⟩ := exists_split_of_forall₂ h
  obtain ⟨columns', _, column, nothing, rfl⟩ := List.forall₂_cons_right_iff.mp last
  cases nothing
  refine ⟨stack', rows', columns', rfl, outer, ?_⟩
  cases op with
  | none => exact ⟨row, column⟩
  | transpose => exact ⟨column, row⟩

theorem inferMatrixMultiply_foresees (left : lhs'.Refines lhs) (right : rhs'.Refines rhs)
    (op0 op1 : MatrixOp) :
    Foresees (inferMatrixMultiply lhs op0 rhs op1) (inferMatrixMultiply lhs' op0 rhs' op1) := by
  apply Foresees.of_late (inferMatrixMultiply_orderly lhs' rhs' op0 op1)
  intro product inferred
  obtain ⟨_, _, _, _, _, _, stack, rfl, rfl, agree, outer, rfl⟩ :=
    inferMatrixMultiply_eq_ok_iff.mp inferred
  obtain ⟨stack0, rows0, columns0, rfl, leftStack, m, k0⟩ := left.matrix op0
  obtain ⟨stack1, rows1, columns1, rfl, rightStack, k1, n⟩ := right.matrix op1
  obtain ⟨out, early, refines⟩ := exists_broadcastExtents? leftStack rightStack outer
  refine ⟨_, inferMatrixMultiply_eq_ok_iff.mpr
    ⟨_, _, _, _, _, _, out, rfl, rfl, ?_, early, rfl⟩, forall₂_append_pair.mpr ⟨refines, m, n⟩⟩
  -- Inner extents that are both known are those of the late product, which agree.
  intro ⟨known0, known1, different⟩
  exact agree (by omega)

/-- What is inferred from dimensions with unknown extents is borne out by all extents that these can turn
out to have. If the extents are accepted, what is inferred from them refines what was inferred from the
dimensions. If the dimensions are refused, so are the extents. -/
theorem inference_foresees_extents :
    (∀ {dims concrete : Dims}, concrete.Refines dims → ∀ spec : ShuffleSpec,
      Foresees (inferShuffle dims spec) (inferShuffle concrete spec)) ∧
    ∀ {lhs rhs lhs' rhs' : Dims}, lhs'.Refines lhs → rhs'.Refines rhs →
      Foresees (inferBroadcast lhs rhs) (inferBroadcast lhs' rhs') ∧
      ∀ op0 op1 : MatrixOp, Foresees (inferMatrixMultiply lhs op0 rhs op1)
        (inferMatrixMultiply lhs' op0 rhs' op1) := by
  constructor
  · intro dims concrete refines spec
    exact inferShuffle_foresees refines spec
  · intro lhs rhs lhs' rhs' left right
    exact ⟨inferBroadcast_foresees left right, inferMatrixMultiply_foresees left right⟩

/-- The extent that is inferred of an empty tensor refines the one that was left open, and inner extents
that differ are refused early and late. -/
theorem inference_foresees_extents_empty :
    let spec : ShuffleSpec := ⟨some [2, 0, 1], some [0, -1], some [1, 0]⟩
    Dims.Refines [2, 0, 3] [2, -1, -1] ∧ inferShuffle [2, -1, -1] spec = .ok [-1, -1] ∧
      inferShuffle [2, 0, 3] spec = .ok [0, 3] ∧ Dims.Refines [0, 3] [-1, -1] ∧
      Dims.Refines [0, 3] [-1, 3] ∧ Dims.Refines [4, 1] [4, -1] ∧
      inferMatrixMultiply [-1, 3] .none [4, -1] .none = .error (.matrixMultiply [-1, 3] [4, -1]) ∧
      ∃ e, inferMatrixMultiply [0, 3] .none [4, 1] .none = .error e ∧ e.isOrderly := by
  intro spec
  have refines : Dims.Refines [2, 0, 3] [2, -1, -1] := by decide
  have left : Dims.Refines [0, 3] [-1, 3] := by decide
  have right : Dims.Refines [4, 1] [4, -1] := by decide
  have early : inferShuffle [2, -1, -1] spec = .ok [-1, -1] := by rfl
  have late : inferShuffle [2, 0, 3] spec = .ok [0, 3] := by rfl
  have refused : inferMatrixMultiply [-1, 3] .none [4, -1] .none =
      .error (.matrixMultiply [-1, 3] [4, -1]) := by rfl
  have shuffles := inference_foresees_extents.1 refines spec
  have products := (inference_foresees_extents.2 left right).2 .none .none
  exact ⟨refines, early, late, shuffles.refined _ _ early late, left, right, refused,
    products.refused _ refused⟩

end TensorEngine
