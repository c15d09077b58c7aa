import Snowcone.Tasks.Prompts

/-! What a run should do with its prompts, and the histories in which no prompt comes while another
one is still being made.
-/

namespace Snowcone.Tasks.Prompts

open Bytes Coroutine

-----------------------------------------------------------------------------------------
-- What is asked of a run
-----------------------------------------------------------------------------------------

/-- The prompts of a task and their answers take turns. The flag tells whether a prompt is open. -/
inductive Turns (number : Nat) : Bool → List Entry → Prop
  | none : Turns number false []
  | asked {log} (earlier : Turns number false log) : Turns number true (log ++ [.asked number])
  | answered {log answer} (earlier : Turns number true log)
    : Turns number false (log ++ [.answered number answer])
  | other {isOpen log entry} (earlier : Turns number isOpen log)
    (notAsked : entry ≠ .asked number) (notAnswered : ∀ answer, entry ≠ .answered number answer)
    : Turns number isOpen (log ++ [entry])

/-- Every task that prompts is the one that will be answered, every prompt is answered once, and
nothing else was resumed.
-/
structure Held (world : World) : Prop where
  current : ∀ number, (world.tasks number).prompts = true → world.passwordTask = some number
  once : ∀ number, Turns number (world.tasks number).prompts world.log
  unrefused : ∀ number, .refused number ∉ world.log
  found : .noTask ∉ world.log

/-- A task prompts while another one that prompts has not suspended yet. -/
def Crossed (log : List Entry) : Prop :=
  ∃ before first between second after,
    log = before ++ .asked first :: between ++ .asked second :: after
    ∧ .waits first ∉ between

/-- A body does not prompt before it suspends for something else. -/
def Quiet : Script Unit → Prop
  | .yields (.prompt _) _ => False
  | _ => True

/-- A task whose prompt is aborted does not prompt again at once. -/
inductive Patient : Script Unit → Prop
  | returns : Patient (.returns ())
  | raises {error} : Patient (.raises error)
  | prompt {label next} (quiet : Quiet (next [])) (later : ∀ values, Patient (next values))
    : Patient (.yields (.prompt label) next)
  | other {suspension next} (notPrompt : ∀ label, suspension ≠ .prompt label)
    (later : ∀ values, Patient (next values))
    : Patient (.yields suspension next)

/-- The task whose prompt is open would prompt again at once if it were aborted. -/
def Impatient (world : World) : Prop :=
  ∃ task again, world.passwordTask = some task ∧ (world.tasks task).co = .suspended again
    ∧ ¬ Quiet (again [])

/-- A body would prompt while the prompt that it aborts comes again at once. -/
def Loses (world : World) (body : Script Unit) : Prop := ¬ Quiet body ∧ Impatient world

/-- What a task runs first when it is started, or woken from something that is not a prompt. -/
def Event.Begins (world : World) (body : Script Unit) : Event → Prop
  | .starts main => body = main
  | .wakes task values => ∃ next, (world.tasks task).co = .suspended next ∧ body = next values
  | .confirms _ | .switches _ => False

/-- A task prompts at once while another one would prompt again when it is aborted for it. -/
def Crosses (world : World) (event : Event) : Prop :=
  ∃ body, event.Begins world body ∧ Loses world body

-----------------------------------------------------------------------------------------
-- Histories
-----------------------------------------------------------------------------------------

/-- A history in which nothing is crossed, prompt by prompt. -/
inductive Calm : List Entry → Prop
  | nil : Calm []
  | other {log entry} (earlier : Calm log) (notAsked : ∀ number, entry ≠ .asked number)
    : Calm (log ++ [entry])
  | prompt {log number middle} (earlier : Calm log) (noneAsked : ∀ other, .asked other ∉ middle)
    : Calm (log ++ .asked number :: (middle ++ [.waits number]))

/-- In a calm history every task that has prompted has suspended, by induction on the history. -/
theorem Calm.closed {log : List Entry} (calm : Calm log) {before after : List Entry}
    {number : Nat} (whole : log = before ++ .asked number :: after)
    : .waits number ∈ after := by
  induction calm generalizing before after with
  | nil => simp at whole
  | @other log entry _ notAsked ih =>
      rcases List.append_eq_append_iff.mp whole with ⟨rest, rfl, isLast⟩ | ⟨rest, rfl, isRest⟩
      · cases rest with
        | nil => exact absurd (List.cons.inj isLast).1 (notAsked number)
        | cons _ rest => simp at isLast
      · cases rest with
        | nil => exact absurd (List.cons.inj isRest).1.symm (notAsked number)
        | cons first rest =>
            obtain ⟨rfl, rfl⟩ := List.cons.inj isRest
            exact List.mem_append_left _ (ih rfl)
  | @prompt log other middle _ noneAsked ih =>
      rcases List.append_eq_append_iff.mp whole with ⟨rest, rfl, isLast⟩ | ⟨rest, rfl, isRest⟩
      · cases rest with
        | nil =>
            obtain ⟨same, rfl⟩ := List.cons.inj isLast
            obtain rfl := Entry.asked.inj same
            simp
        | cons first rest =>
            have isTail : middle ++ [.waits other] = rest ++ .asked number :: after :=
              (List.cons.inj isLast).2
            have isIn : Entry.asked number ∈ middle ++ [.waits other] := by simp [isTail]
            rcases List.mem_append.mp isIn with isIn | isIn
            · exact absurd isIn (noneAsked number)
            · simp at isIn
      · cases rest with
        | nil =>
            obtain ⟨same, rfl⟩ := List.cons.inj isRest
            obtain rfl := Entry.asked.inj same
            simp
        | cons first rest =>
            obtain ⟨rfl, rfl⟩ := List.cons.inj isRest
            exact List.mem_append_left _ (ih rfl)

/-- More of a history crosses only at a prompt that comes in the new part. -/
theorem crossed_append {log more : List Entry} (calm : Calm log)
    (crossed : Crossed (log ++ more))
    : Crossed log ∨ ∃ front number rest, more = front ++ .asked number :: rest ∧ front ≠ [] := by
  obtain ⟨before, first, between, second, after, whole, unsuspended⟩ := crossed
  rcases List.append_eq_append_iff.mp whole with ⟨rest, isFront, isMore⟩ | ⟨rest, isLog, isRest⟩
  · cases rest with
    | nil =>
        rw [List.append_nil] at isFront
        exact absurd (calm.closed isFront.symm) unsuspended
    | cons entry rest => exact .inr ⟨entry :: rest, second, after, isMore, by simp⟩
  · cases rest with
    | nil =>
        rw [List.append_nil] at isLog
        exact absurd (calm.closed isLog) unsuspended
    | cons entry rest =>
        obtain ⟨rfl, rfl⟩ := List.cons.inj isRest
        exact .inl ⟨before, first, between, second, rest, isLog, unsuspended⟩

/-- Nothing is crossed in a calm history, by induction on it. -/
theorem Calm.uncrossed {log : List Entry} (calm : Calm log) : ¬ Crossed log := by
  induction calm with
  | nil =>
      rintro ⟨before, _, _, _, _, whole, -⟩
      simp at whole
  | @other log entry earlier notAsked ih =>
      intro crossed
      rcases crossed_append earlier crossed with crossed | ⟨front, number, rest, isMore, some_⟩
      · exact ih crossed
      · cases front with
        | nil => exact some_ rfl
        | cons _ front => simp at isMore
  | @prompt log number middle earlier noneAsked ih =>
      intro crossed
      rcases crossed_append earlier crossed with crossed | ⟨front, other, rest, isMore, some_⟩
      · exact ih crossed
      · cases front with
        | nil => exact some_ rfl
        | cons entry front =>
            have isTail : middle ++ [.waits number] = front ++ .asked other :: rest :=
              (List.cons.inj isMore).2
            have isIn : Entry.asked other ∈ middle ++ [.waits number] := by simp [isTail]
            rcases List.mem_append.mp isIn with isIn | isIn
            · exact noneAsked other isIn
            · simp at isIn

end Snowcone.Tasks.Prompts
