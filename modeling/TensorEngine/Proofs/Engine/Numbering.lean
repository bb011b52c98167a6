import TensorEngine.Proofs.Engine.Restored

/-!
# Numbered bindings

Slot maps are made after two checks of each logical index alone: it is below the number of slots of its
kind, and no slot before has it. By counting, bindings that pass are numbered: the indices of inputs are
`0, 1, …` in some order, and so are those of outputs. It is of no consequence in which order the slots
are checked.

## Main definitions

* `LoadedEngine.kindCount`, `LoadedEngine.indices`: the slots of inputs or of outputs, and their
  logical indices
* `LoadedEngine.Numbered`: bindings that number the inputs and the outputs
* `Engine.bindingMapsIn`: slot maps whose indices are checked in another order
* `Engine.Misnumbered`: what is reported of slots that are not numbered

## Main results

* `Engine.checkIndices_eq_ok_iff_perm`: the check of all indices of a kind
* `Engine.exists_bindingMaps_iff`: slot maps exist for numbered bindings, and for no others
* `Engine.bindingMapsIn_eq_ok_iff`: the order of the checks does not matter
* `Engine.misnumbered_of_bindingMapsIn`: what a refusal reports is so
-/

namespace TensorEngine

namespace LoadedEngine

variable (loaded : LoadedEngine) (isInput : Bool)

/-- The number of slots for inputs, or for outputs. -/
def kindCount : Nat :=
  (List.range loaded.slotCount).countP fun slot =>
    (loaded.binding? slot).any (·.isInput == isInput)

/-- The logical indices in the names of inputs, or of outputs, in the order of the slots. -/
def indices : List Nat :=
  (List.range loaded.slotCount).filterMap fun slot =>
    (loaded.binding? slot).bind fun spec =>
      if spec.isInput = isInput then spec.name.logicalIndex.toOption else none

/-- Every slot has a binding whose name has a logical index, and the indices of inputs as well as those
of outputs are `0, 1, …` in some order. -/
structure Numbered : Prop where
  named : ∀ slot < loaded.slotCount, ∃ spec k,
    loaded.binding? slot = some spec ∧ spec.name.logicalIndex = .ok k
  numbered : ∀ isInput, (loaded.indices isInput).Perm (List.range (loaded.kindCount isInput))

end LoadedEngine

namespace Engine

variable {loaded : LoadedEngine} {inputs outputs : SlotMap} {slots : List IndexedSlot}

theorem exists_indexedSlot_iff {slot : Nat} : (∃ s, indexedSlot loaded slot = .ok s) ↔
    ∃ spec k, loaded.binding? slot = some spec ∧ spec.name.logicalIndex = .ok k := by
  constructor
  · rintro ⟨s, found⟩
    exact ⟨s.spec, s.index, (indexedSlot_eq_ok found).2⟩
  · rintro ⟨spec, k, bound, index⟩
    exact ⟨⟨slot, k, spec⟩, by simp only [indexedSlot, bound, index]⟩

/-- Slots whose bindings all have a logical index can be listed with these. -/
theorem exists_indexedSlots (named : ∀ slot < loaded.slotCount, ∃ spec k,
      loaded.binding? slot = some spec ∧ spec.name.logicalIndex = .ok k) :
    ∃ slots, List.Forall₂ (fun slot s => indexedSlot loaded slot = .ok s)
      (List.range loaded.slotCount) slots := by
  have each : ∀ slot ∈ List.range loaded.slotCount, ∃ s, indexedSlot loaded slot = .ok s := by
    intro slot member
    exact exists_indexedSlot_iff.mpr (named slot (List.mem_range.mp member))
  obtain ⟨slots, mapped⟩ := exists_mapM_eq_ok each
  exact ⟨slots, mapM_eq_ok_iff.mp mapped⟩

section Indexed

variable (indexed : List.Forall₂ (fun slot s => indexedSlot loaded slot = .ok s)
  (List.range loaded.slotCount) slots) (isInput : Bool)

include indexed

theorem indices_eq :
    loaded.indices isInput = (slots.filter (·.spec.isInput == isInput)).map (·.index) := by
  unfold LoadedEngine.indices
  generalize List.range loaded.slotCount = places at indexed ⊢
  induction indexed with
  | nil => rfl
  | cons found _ ih =>
    obtain ⟨-, bound, index⟩ := indexedSlot_eq_ok found
    rw [List.filterMap_cons, bound, Option.bind_some, index, ih, List.filter_cons]
    split <;> simp_all [Except.toOption]

theorem kindCount_eq :
    loaded.kindCount isInput = (slots.filter (·.spec.isInput == isInput)).length := by
  unfold LoadedEngine.kindCount
  generalize List.range loaded.slotCount = places at indexed ⊢
  rw [← List.countP_eq_length_filter]
  induction indexed with
  | nil => rfl
  | cons found _ ih =>
    obtain ⟨-, bound, -⟩ := indexedSlot_eq_ok found
    rw [List.countP_cons, List.countP_cons, bound, ih]
    rfl

/-- The slots of a kind stand in their order. -/
theorem kept_sublist :
    ((slots.filter (·.spec.isInput == isInput)).map (·.slot)).Sublist
      (List.range loaded.slotCount) := by
  have places : slots.map (·.slot) = List.range loaded.slotCount := by
    have each : List.Forall₂ (· = ·) (slots.map (·.slot)) (List.range loaded.slotCount) := by
      rw [List.forall₂_map_left_iff]
      exact indexed.flip.imp fun s slot found => (indexedSlot_eq_ok found).1
    rwa [List.forall₂_eq_eq_eq] at each
  exact places ▸ List.filter_sublist.map _

end Indexed

/-- The check passes if the indices are below the number, not among those before, and different. -/
theorem checkIndices_eq_ok_iff {count : Nat} {seen : List Nat} :
    checkIndices count seen slots = .ok () ↔
      (∀ s ∈ slots, s.index < count ∧ s.index ∉ seen) ∧ (slots.map (·.index)).Nodup := by
  induction slots generalizing seen with
  | nil => simp [checkIndices]
  | cons s slots ih =>
    rw [checkIndices]
    by_cases past : count ≤ s.index
    · rw [if_pos past]
      exact iff_of_false nofun fun h => Nat.not_lt.mpr past (h.1 s List.mem_cons_self).1
    · by_cases twice : s.index ∈ seen
      · rw [if_neg past, if_pos twice]
        exact iff_of_false nofun fun h => (h.1 s List.mem_cons_self).2 twice
      · rw [if_neg past, if_neg twice, ih, List.forall_mem_cons, List.map_cons, List.nodup_cons]
        -- What the rest must avoid is what is seen before and this index.
        have fresh : (∀ t ∈ slots, t.index < count ∧ t.index ∉ s.index :: seen) ↔
            (∀ t ∈ slots, t.index < count ∧ t.index ∉ seen) ∧ s.index ∉ slots.map (·.index) := by
          simp only [List.mem_cons, List.mem_map]
          grind
        rw [fresh]
        constructor
        · rintro ⟨⟨rest, absent⟩, distinct⟩
          exact ⟨⟨⟨Nat.lt_of_not_le past, twice⟩, rest⟩, absent, distinct⟩
        · rintro ⟨⟨-, rest⟩, absent, distinct⟩
          exact ⟨⟨rest, absent⟩, distinct⟩

/-- As many different indices as slots, all below their number, are all that there are. -/
theorem checkIndices_eq_ok_iff_perm : checkIndices slots.length [] slots = .ok () ↔
    (slots.map (·.index)).Perm (List.range slots.length) := by
  rw [checkIndices_eq_ok_iff]
  constructor
  · rintro ⟨below, distinct⟩
    apply IsPermutation.perm_range
    refine ⟨List.length_map .., ?_, distinct⟩
    exact List.forall_mem_map.mpr fun s member => (below s member).1
  · intro numbered
    refine ⟨fun s member => ⟨?_, List.not_mem_nil⟩, numbered.nodup_iff.mpr List.nodup_range⟩
    exact List.mem_range.mp (numbered.mem_iff.mp (List.mem_map_of_mem member))

/-- Slot maps exist for numbered bindings, and for no others. -/
theorem exists_bindingMaps_iff : (∃ maps, bindingMaps loaded = .ok maps) ↔ loaded.Numbered := by
  constructor
  · rintro ⟨⟨inputs, outputs⟩, maps⟩
    obtain ⟨slots, indexed, checked, -, -⟩ := bindingMaps_eq_ok_iff.mp maps
    constructor
    · intro slot within
      obtain ⟨s, -, found⟩ := forall₂_mem_left indexed (List.mem_range.mpr within)
      exact exists_indexedSlot_iff.mp ⟨s, found⟩
    · intro isInput
      rw [indices_eq indexed, kindCount_eq indexed]
      exact checkIndices_eq_ok_iff_perm.mp (checked isInput)
  · intro numbered
    obtain ⟨slots, indexed⟩ := exists_indexedSlots numbered.named
    refine ⟨(_, _), bindingMaps_eq_ok_iff.mpr ⟨slots, indexed, fun isInput => ?_, rfl, rfl⟩⟩
    have perm := numbered.numbered isInput
    rw [indices_eq indexed, kindCount_eq indexed] at perm
    exact checkIndices_eq_ok_iff_perm.mpr perm

/-! ### The order of the checks -/

variable {arrange : List IndexedSlot → List IndexedSlot}

/-- The slot maps, when the slots of a kind are checked in the order in which they are arranged. -/
def bindingMapsIn (arrange : List IndexedSlot → List IndexedSlot) (loaded : LoadedEngine) :
    Except EngineError (SlotMap × SlotMap) := do
  let slots ← (List.range loaded.slotCount).mapM (indexedSlot loaded)
  let inputs := slots.filter (·.spec.isInput)
  let outputs := slots.filter (!·.spec.isInput)
  checkIndices inputs.length [] (arrange inputs)
  checkIndices outputs.length [] (arrange outputs)
  return (slotMap inputs, slotMap outputs)

theorem checkIndices_perm {slots' : List IndexedSlot} (same : slots'.Perm slots) {count : Nat}
    {seen : List Nat} :
    checkIndices count seen slots' = .ok () ↔ checkIndices count seen slots = .ok () := by
  rw [checkIndices_eq_ok_iff, checkIndices_eq_ok_iff, (same.map _).nodup_iff]
  simp only [same.mem_iff]

/-- The order of the checks does not matter. -/
theorem bindingMapsIn_eq_ok_iff (arranges : ∀ slots, (arrange slots).Perm slots)
    {maps : SlotMap × SlotMap} :
    bindingMapsIn arrange loaded = .ok maps ↔ bindingMaps loaded = .ok maps := by
  simp only [bindingMapsIn, bindingMaps, bind_eq_ok_iff, checkIndices_perm (arranges _)]

/-! ### Refusals -/

/-- What is reported of a slot whose logical index is past the number of its kind, or which another slot
of its kind has as well. -/
inductive Misnumbered (loaded : LoadedEngine) : EngineError → Prop
  | pastCount {slot k : Nat} {spec : BindingSpec} (within : slot < loaded.slotCount)
    (indexes : Indexes loaded spec.isInput slot k spec) (past : loaded.kindCount spec.isInput ≤ k) :
    Misnumbered loaded (.bindingIndex spec.name k .pastCount)
  | usedTwice {slot other k : Nat} {spec spec' : BindingSpec} (within : slot < loaded.slotCount)
    (within' : other < loaded.slotCount) (different : other ≠ slot)
    (indexes : Indexes loaded spec.isInput slot k spec)
    (indexes' : Indexes loaded spec.isInput other k spec') :
    Misnumbered loaded (.bindingIndex spec.name k .usedTwice)

/-- A slot that does not pass is past the count, or has an index that was seen before. -/
theorem exists_split_of_checkIndices {count : Nat} {seen : List Nat} {e : EngineError}
    (h : checkIndices count seen slots = .error e) : ∃ before s after, slots = before ++ s :: after ∧
      (count ≤ s.index ∧ e = .bindingIndex s.spec.name s.index .pastCount ∨
        (s.index ∈ seen ∨ ∃ t ∈ before, t.index = s.index) ∧
          e = .bindingIndex s.spec.name s.index .usedTwice) := by
  induction slots generalizing seen with
  | nil => cases h
  | cons s slots ih =>
    rw [checkIndices] at h
    by_cases past : count ≤ s.index
    · rw [if_pos past] at h
      cases h
      exact ⟨[], s, slots, rfl, .inl ⟨past, rfl⟩⟩
    · by_cases twice : s.index ∈ seen
      · rw [if_neg past, if_pos twice] at h
        cases h
        exact ⟨[], s, slots, rfl, .inr ⟨.inl twice, rfl⟩⟩
      · rw [if_neg past, if_neg twice] at h
        obtain ⟨before, t, after, rfl, refused⟩ := ih h
        refine ⟨s :: before, t, after, rfl, refused.imp_right fun ⟨found, reported⟩ => ⟨?_, reported⟩⟩
        rcases found with found | ⟨u, member, same⟩
        · rcases List.mem_cons.mp found with same | found
          · exact .inr ⟨s, List.mem_cons_self, same.symm⟩
          · exact .inl found
        · exact .inr ⟨u, List.mem_cons_of_mem _ member, same⟩

/-- A kind of slots that does not pass is misnumbered. -/
theorem misnumbered_of_checkIndices
    (indexed : List.Forall₂ (fun slot s => indexedSlot loaded slot = .ok s)
      (List.range loaded.slotCount) slots) {isInput : Bool} {checked : List IndexedSlot}
    (arranged : checked.Perm (slots.filter (·.spec.isInput == isInput))) {e : EngineError}
    (h : checkIndices (slots.filter (·.spec.isInput == isInput)).length [] checked = .error e) :
    Misnumbered loaded e := by
  have indexes : ∀ s ∈ checked, s.slot < loaded.slotCount ∧
      Indexes loaded isInput s.slot s.index s.spec := by
    intro s member
    obtain ⟨listed, kind⟩ := List.mem_filter.mp (arranged.mem_iff.mp member)
    obtain ⟨slot, within, found⟩ := forall₂_mem_right indexed listed
    obtain ⟨rfl, bound, index⟩ := indexedSlot_eq_ok found
    exact ⟨List.mem_range.mp within, bound, beq_iff_eq.mp kind, index⟩
  obtain ⟨before, s, after, split, refused⟩ := exists_split_of_checkIndices h
  obtain ⟨within, indexesS⟩ := indexes s (by simp [split])
  obtain rfl := indexesS.isInput
  rcases refused with ⟨past, rfl⟩ | ⟨twice, rfl⟩
  · rw [← kindCount_eq indexed] at past
    exact .pastCount within indexesS past
  · obtain ⟨t, member, same⟩ := twice.resolve_left List.not_mem_nil
    obtain ⟨within', indexesT⟩ := indexes t (by simp [split, member])
    have distinct : (checked.map (·.slot)).Nodup :=
      (arranged.map _).nodup_iff.mpr ((kept_sublist indexed _).nodup List.nodup_range)
    have different : t.slot ≠ s.slot := by
      rw [split, List.map_append, List.map_cons, List.nodup_append] at distinct
      exact distinct.2.2 _ (List.mem_map_of_mem member) _ List.mem_cons_self
    exact .usedTwice within within' different indexesS (same ▸ indexesT)

/-- Slots that all have a logical index have slot maps, or are misnumbered. -/
theorem misnumbered_of_bindingMapsIn (arranges : ∀ slots, (arrange slots).Perm slots)
    (named : ∀ slot < loaded.slotCount, ∃ spec k,
      loaded.binding? slot = some spec ∧ spec.name.logicalIndex = .ok k) {e : EngineError}
    (h : bindingMapsIn arrange loaded = .error e) : Misnumbered loaded e := by
  obtain ⟨slots, indexed⟩ := exists_indexedSlots named
  have refuses : ∀ isInput e, checkIndices (slots.filter (·.spec.isInput == isInput)).length []
      (arrange (slots.filter (·.spec.isInput == isInput))) = .error e → Misnumbered loaded e :=
    fun _ _ => misnumbered_of_checkIndices indexed (arranges _)
  have inputs := refuses true
  have outputs := refuses false
  simp only [beq_true, beq_false] at inputs outputs
  rw [bindingMapsIn, mapM_eq_ok_iff.mpr indexed, ok_bind] at h
  dsimp only at h
  cases first : checkIndices (slots.filter (·.spec.isInput)).length []
      (arrange (slots.filter (·.spec.isInput))) with
  | error e' =>
    rw [first] at h
    cases h
    exact inputs _ first
  | ok =>
    rw [first, ok_bind] at h
    cases second : checkIndices (slots.filter (!·.spec.isInput)).length []
        (arrange (slots.filter (!·.spec.isInput))) with
    | error e' =>
      rw [second] at h
      cases h
      exact outputs _ second
    | ok =>
      rw [second] at h
      cases h

end Engine

end TensorEngine
