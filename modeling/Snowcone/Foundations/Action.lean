/-! Actions on a state that may stop: what a sequence does from what its parts do.
An action that stops leaves the state as it was at that time.
-/

namespace Action

variable {σ Stop α β : Type} {action : EStateM Stop σ α} {next : α → EStateM Stop σ β}
  {before after : σ}

/-- Behind an action that ends, the sequence goes on with its value. -/
theorem bind_of_ok {value : α} (ends : action before = .ok value after)
    : (action >>= next) before = next value after := by
  change EStateM.bind action next before = _
  rw [EStateM.bind, ends]

/-- Behind an action that stops, nothing is done. -/
theorem bind_of_error {stop : Stop} (stops : action before = .error stop after)
    : (action >>= next) before = .error stop after := by
  change EStateM.bind action next before = _
  rw [EStateM.bind, stops]

/-- A sequence ends if both of its parts do. -/
theorem bind_ok_iff {result : β}
    : (action >>= next) before = .ok result after
      ↔ ∃ value between, action before = .ok value between
        ∧ next value between = .ok result after := by
  cases outcome : action before with
  | error stop between =>
      rw [bind_of_error outcome]
      simp
  | ok value between =>
      rw [bind_of_ok outcome]
      constructor
      · exact fun ends => ⟨value, between, rfl, ends⟩
      · rintro ⟨_, _, ⟨⟩, ends⟩
        exact ends

/-- A sequence stops where one of its parts does. -/
theorem bind_error_iff {stop : Stop}
    : (action >>= next) before = .error stop after
      ↔ action before = .error stop after
        ∨ ∃ value between, action before = .ok value between
          ∧ next value between = .error stop after := by
  cases outcome : action before with
  | error other between =>
      rw [bind_of_error outcome]
      simp
  | ok value between =>
      rw [bind_of_ok outcome]
      constructor
      · exact fun stops => Or.inr ⟨value, between, rfl, stops⟩
      · rintro (⟨⟨⟩⟩ | ⟨_, _, ⟨⟩, stops⟩)
        exact stops

/-- Reading the state first. -/
theorem get_bind {next : σ → EStateM Stop σ β}
    : ((get : EStateM Stop σ σ) >>= next) before = next before before :=
  rfl

/-- Changing the state first. -/
theorem modify_bind {change : σ → σ} {next : PUnit → EStateM Stop σ β}
    : ((modify change : EStateM Stop σ PUnit) >>= next) before = next ⟨⟩ (change before) :=
  rfl

end Action
