import TensorEngine.Proofs.Lowering.Logic

/-!
# Programs that follow others

Two lowerings are compared by running two programs from states that are alike. One program follows the
other if it succeeds whenever the other one does, and the states after that are alike again. What is
known of two networks stays known as they grow, so a promise about answers is made for networks that a
proof has in hand, and for all that they grow to.

## Main definitions

* `Networks`, `Networks.Grow`: the networks of two lowerings, and what they grow to
* `Program.Follows`: a program that succeeds whenever another one does

## Main results

* `Program.Follows.bind`: programs that follow others compose
-/

namespace TensorEngine.Lowering

/-- The networks of two lowerings. -/
abbrev Networks := Network × Network

namespace Networks

/-- Both networks grow. -/
def Grow (w v : Networks) : Prop :=
  w.1.Grows v.1 ∧ w.2.Grows v.2

theorem Grow.refl (w : Networks) : w.Grow w :=
  ⟨.refl _, .refl _⟩

theorem Grow.trans {u v w : Networks} (h : u.Grow v) (h' : v.Grow w) : u.Grow w :=
  ⟨h.1.trans h'.1, h.2.trans h'.2⟩

/-- The networks of two states. -/
def ofStates (state state' : State) : Networks :=
  (state.network, state'.network)

end Networks

namespace Program

variable {ε ε' α α' β β' : Type} {Alike : State → State → Prop} {w : Networks}
  {program : Program ε α} {program' : Program ε' α'} {post : Networks → α → α' → Prop}

theorem run_perform_eq_ok_iff {e : Network.Edit} {state next : State} {id : TensorId} :
    (perform e).run state = (.ok id, next) ↔ state.edit e = (.ok id, next) := by
  simp only [perform, run]
  rcases state.edit e with ⟨error | id', next'⟩ <;> simp [ofExcept, run]

theorem run_associate_eq_ok_iff {value : ValueId} {tensor id : TensorId} {state next : State} :
    (associate value tensor).run state = (.ok id, next) ↔
      state.bind value tensor = (.ok id, next) := by
  simp only [associate, run]
  rcases state.bind value tensor with ⟨error | id', next'⟩ <;> simp [ofExcept, run]

/-- From states that are alike, whose networks have grown from `w`, the second program succeeds if the
first one does, and then the states are alike again and the answers are as promised. -/
def Follows (Alike : State → State → Prop) (w : Networks) (program : Program ε α)
    (program' : Program ε' α') (post : Networks → α → α' → Prop) : Prop :=
  ∀ state state', w.Grow (.ofStates state state') → Alike state state' →
    ∀ a next, program.run state = (.ok a, next) →
      ∃ a' next', program'.run state' = (.ok a', next') ∧ Alike next next' ∧
        post (.ofStates next next') a a'

namespace Follows

theorem done {a : α} {a' : α'} (h : ∀ v, w.Grow v → post v a a') :
    Follows Alike w (.done a : Program ε α) (.done a' : Program ε' α') post := by
  rintro state state' grow alike _ _ ⟨⟩
  exact ⟨a', state', rfl, alike, h _ grow⟩

theorem pure {a : α} {a' : α'} (h : ∀ v, w.Grow v → post v a a') :
    Follows Alike w (Pure.pure a : Program ε α) (Pure.pure a' : Program ε' α') post :=
  done h

/-- There is nothing to follow where a program is refused. -/
theorem refuse (error : ε) : Follows Alike w (.refuse error : Program ε α) program' post := by
  rintro state state' - - _ _ ⟨⟩

/-- A result on one side is matched by a result on the other one. -/
theorem ofExcepts {x : Except ε α} {x' : Except ε' α'}
    (h : ∀ a, x = .ok a → ∃ a', x' = .ok a' ∧ ∀ v, w.Grow v → post v a a') :
    Follows Alike w (ofExcept x) (ofExcept x') post := by
  intro state state' grow alike a next ran
  obtain ⟨result, rfl⟩ := run_ofExcept_eq_ok_iff.mp ran
  obtain ⟨a', result', promise⟩ := h a result
  exact ⟨a', state', run_ofExcept_eq_ok_iff.mpr ⟨result', rfl⟩, alike, promise _ grow⟩

/-- The same result on both sides. -/
theorem ofExcept (x : Except ε α) :
    Follows Alike w (ofExcept x) (ofExcept x) fun _ a a' => a' = a ∧ x = .ok a :=
  ofExcepts fun a result => ⟨a, result, fun _ _ => ⟨rfl, result⟩⟩

/-- Programs that go on with answers follow if both parts do. -/
theorem bind {next : α → Program ε β} {next' : α' → Program ε' β'}
    {post' : Networks → β → β' → Prop} (first : Follows Alike w program program' post)
    (later : ∀ v a a', w.Grow v → post v a a' → Follows Alike v (next a) (next' a') post') :
    Follows Alike w (program >>= next) (program' >>= next') post' := by
  intro state state' grow alike b last ran
  obtain ⟨a, middle, before, after⟩ := run_bind_eq_ok_iff.mp ran
  obtain ⟨a', middle', before', alike, promise⟩ := first _ _ grow alike _ _ before
  have grown : w.Grow (.ofStates middle middle') :=
    grow.trans ⟨grows_of_run before, grows_of_run before'⟩
  obtain ⟨b', last', after', rest⟩ :=
    later _ a a' grown promise _ _ (.refl _) alike _ _ after
  exact ⟨b', last', run_bind_eq_ok_iff.mpr ⟨a', middle', before', after'⟩, rest⟩

/-- Both branches of a condition go on in the same way. -/
theorem ite_bind {c : Prop} [Decidable c] {other : Program ε α} {other' : Program ε' α'}
    {next : α → Program ε β} {next' : α' → Program ε' β'} {post' : Networks → β → β' → Prop}
    (holds : c → Follows Alike w program program' post)
    (fails : ¬c → Follows Alike w other other' post)
    (later : ∀ v a a', w.Grow v → post v a a' → Follows Alike v (next a) (next' a') post') :
    Follows Alike w (if c then program >>= next else other >>= next)
      (if c then program' >>= next' else other' >>= next') post' := by
  split
  next h => exact (holds h).bind later
  next h => exact (fails h).bind later

theorem mono {post' : Networks → α → α' → Prop} (h : Follows Alike w program program' post)
    (weaker : ∀ v a a', post v a a' → post' v a a') :
    Follows Alike w program program' post' := by
  intro state state' grow alike a next ran
  obtain ⟨a', next', ran', alike', promise⟩ := h _ _ grow alike a next ran
  exact ⟨a', next', ran', alike', weaker _ _ _ promise⟩

theorem mapError {δ δ' : Type} {f : ε → δ} {f' : ε' → δ'}
    (h : Follows Alike w program program' post) :
    Follows Alike w (program.mapError f) (program'.mapError f') post := by
  intro state state' grow alike a next ran
  obtain ⟨a', next', ran', rest⟩ :=
    h _ _ grow alike _ _ (run_mapError_eq_ok_iff.mp ran)
  exact ⟨a', next', run_mapError_eq_ok_iff.mpr ran', rest⟩

/-- Programs that read their states follow if they do for every two states that are alike. -/
theorem inspect {next : State → Program ε α} {next' : State → Program ε' α'}
    (h : ∀ state state', w.Grow (.ofStates state state') → Alike state state' →
      Follows Alike (.ofStates state state') (next state) (next' state') post) :
    Follows Alike w (.inspect next) (.inspect next') post :=
  fun state state' grow alike => h state state' grow alike state state' (.refl _) alike

/-- What is read of two states is read of states that are alike. -/
theorem gets (f : State → α) (f' : State → α') :
    Follows Alike w (gets f : Program ε α) (gets f' : Program ε' α') fun v a a' =>
      ∃ state state', Alike state state' ∧ v = .ofStates state state' ∧ a = f state ∧
        a' = f' state' := by
  rintro state state' grow alike _ _ ⟨⟩
  exact ⟨_, _, rfl, alike, state, state', alike, rfl, rfl, rfl⟩

end Follows

end Program

end TensorEngine.Lowering
