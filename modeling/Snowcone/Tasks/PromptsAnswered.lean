import Snowcone.Tasks.PromptSteps

/-! When every prompt is answered: as long as no task prompts while another one that prompts is
still aborting it.
-/

namespace Snowcone.Tasks.Prompts

open Bytes Coroutine

-----------------------------------------------------------------------------------------
-- Patient tasks
-----------------------------------------------------------------------------------------

/-- A task whose prompt is aborted will not prompt again at once, now and later. -/
def Task.Patient (task : Task) : Prop :=
  ∀ next, task.co = .suspended next →
    (∀ values, Prompts.Patient (next values)) ∧ (task.prompts = true → Quiet (next []))

/-- All tasks are patient. -/
def World.Patient (world : World) : Prop := ∀ number, (world.tasks number).Patient

/-- Patient tasks go on in a patient way. -/
theorem World.Patient.set {world : World} (patient : world.Patient) {task : Task}
    (isPatient : task.Patient) (number : Nat)
    : (world.set number task).Patient := by
  intro other
  by_cases isIt : other = number
  · have isThis : (world.set number task).tasks other = task := by
      rw [isIt]
      exact Function.update_self _ _ _
    rw [isThis]
    exact isPatient
  · have isOther : (world.set number task).tasks other = world.tasks other :=
      Function.update_of_ne isIt _ _
    rw [isOther]
    exact patient other

/-- A task that is not suspended is patient. -/
theorem patient_of_dead {task : Task} (notSuspended : ∀ next, task.co ≠ .suspended next)
    : task.Patient :=
  fun next suspended => absurd suspended (notSuspended next)

/-- Changing the mode keeps tasks patient, if the resume that it makes does. -/
theorem patient_setInputMode {resume : Resume}
    (kept : ∀ (world : World) number values, world.Patient → (resume world number values).Patient)
    {world : World} (patient : world.Patient) (mode : Option InputMode)
    (prompt : Option (Bytes × Nat))
    : (setInputMode resume world mode prompt).Patient := by
  unfold setInputMode
  cases world.passwordTask with
  | none => split <;> exact patient
  | some task =>
      split
      · exact kept { world with
          passwordTask := prompt.map Prod.snd, inputMode := mode
          passwordLabel := prompt.map Prod.fst } task [] patient
      · exact kept { world with passwordTask := none, inputMode := mode } task [] patient

/-- A patient body keeps tasks patient, by cases on how it goes on. -/
theorem patient_proceed {resume : Resume}
    (kept : ∀ (world : World) number values, world.Patient → (resume world number values).Patient)
    {world : World} (patient : world.Patient) (number : Nat) {body : Script Unit}
    (isPatient : Patient body)
    : (proceed resume world number body).Patient := by
  cases isPatient with
  | returns => exact patient.set (patient_of_dead (by rintro _ ⟨⟩)) number
  | @raises error =>
      have reported : World.Patient { world with statuses := world.statuses ++ [error] } := patient
      exact reported.set (patient_of_dead (by rintro _ ⟨⟩)) number
  | @prompt label next quiet later =>
      have asked : (world.note (.asked number)).Patient := patient
      refine (patient_setInputMode kept asked (some .password) (some (label, number))).set ?_ number
      rintro _ ⟨⟩
      exact ⟨later, fun _ => quiet⟩
  | @other suspension next notPrompt later =>
      cases suspension with
      | prompt label => exact absurd rfl (notPrompt label)
      | execute call =>
          refine patient.set ?_ number
          rintro _ ⟨⟩
          exact ⟨later, by rintro ⟨⟩⟩
      | other =>
          refine patient.set ?_ number
          rintro _ ⟨⟩
          exact ⟨later, by rintro ⟨⟩⟩

/-- Resuming a task keeps all tasks patient, by induction on the depth. -/
theorem patient_resume (depth : Nat) (world : World) (number : Nat) (values : List LuaValue)
    (patient : world.Patient)
    : (resume depth world number values).Patient := by
  induction depth generalizing world number values with
  | zero => exact patient
  | succ depth ih =>
      cases isCo : (world.tasks number).co with
      | dead =>
          rw [resume, isCo]
          exact patient
      | running =>
          rw [resume, isCo]
          exact patient
      | suspended next =>
          rw [resume_suspended isCo]
          refine patient_proceed ih (World.Patient.set ?_ (patient_of_dead (by rintro _ ⟨⟩)) number)
            number ((patient number next isCo).1 values)
          split <;> exact patient

/-- Tasks stay patient as long as only patient ones are started. -/
theorem patient_step {world after : World} (patient : world.Patient) {event : Event}
    (starts : ∀ main, event = .starts main → Patient main) (moves : step world event = some after)
    : after.Patient := by
  cases event with
  | starts main =>
      obtain rfl := Option.some.inj moves
      have more : World.Patient { world with started := world.started + 1 } := patient
      refine patient_resume maxCCalls _ _ _ (more.set ?_ world.started)
      rintro _ ⟨⟩
      exact ⟨fun _ => starts main rfl, by rintro ⟨⟩⟩
  | confirms text =>
      rw [step, ite_eq_iff] at moves
      obtain ⟨-, moves⟩ | ⟨-, moves⟩ := moves
      · obtain rfl := Option.some.inj moves
        have nobody : World.Patient { world with passwordTask := none } := patient
        have switched := patient_setInputMode (patient_resume maxCCalls) nobody none none
        rw [executePassword]
        split
        · exact patient_resume _ _ _ _ switched
        · exact switched
      · cases moves
  | switches mode =>
      rw [step, ite_eq_iff] at moves
      obtain ⟨-, moves⟩ | ⟨-, moves⟩ := moves
      · cases moves
      · obtain rfl := Option.some.inj moves
        exact patient_setInputMode (patient_resume maxCCalls) patient mode none
  | wakes task values =>
      rw [step] at moves
      split at moves
      · obtain rfl := Option.some.inj moves
        exact patient_resume _ _ _ _ patient
      · obtain rfl := Option.some.inj moves
        exact patient_resume _ _ _ _ patient
      · cases moves
      · cases moves

-----------------------------------------------------------------------------------------
-- Runs
-----------------------------------------------------------------------------------------

/-- Nothing is asked before anything is started. -/
theorem idle_new : Idle .new where
  current := by rintro number ⟨⟩
  once := fun _ => .none
  unrefused := by rintro number ⟨⟩
  found := by rintro ⟨⟩
  prompting := by rintro number ⟨⟩
  mode := iff_of_false (by rintro ⟨⟩) fun isSome => isSome rfl
  calm := .nil
  fresh := fun _ _ => rfl
  resting := fun _ => rfl

/-- In every run all prompts are in order, or one was lost. -/
theorem idle_or_lost {events : List Event} {world : World}
    (run : Runs.Reaches step .new events world)
    : Idle world ∨ Lost world.log := by
  refine @Runs.Reaches.invariant _ _ _ _ _ _ (fun world => Idle world ∨ Lost world.log) run
    (Or.inl idle_new) fun world event after before moves => ?_
  rcases before with idle | lost
  · exact (idle.step moves).imp And.left And.left
  · exact Or.inr (lost.of_prefix (prefix_step moves))

/-- In a run of patient tasks all prompts are in order, by induction on the run. -/
theorem idle_of_patient {events : List Event} {world : World}
    (run : Runs.Reaches step .new events world)
    (patient : ∀ main, .starts main ∈ events → Patient main)
    : Idle world ∧ world.Patient := by
  induction run with
  | start => exact ⟨idle_new, fun _ => patient_of_dead (by rintro _ ⟨⟩)⟩
  | @next events world event after _ moves ih =>
      obtain ⟨idle, patients⟩ := ih fun main isIn => patient main (List.mem_append_left _ isIn)
      have kept := patient_step patients
        (fun main isStart => patient main (by simp [isStart])) moves
      rcases idle.step moves with ⟨idle', -⟩ | ⟨-, _, -, -, task, again, isTask, suspended, loud⟩
      · exact ⟨idle', kept⟩
      · exact absurd ((patients task again suspended).2 (idle.prompting task isTask)) loud

/-- What is lost is not in order. -/
theorem Lost.not_held {world : World} (lost : Lost world.log) : ¬ Held world := by
  obtain ⟨-, number, isRefused⟩ := lost
  exact fun held => held.unrefused number isRefused

/-- Prompts that are made one after the other, until one of them is given a password. -/
def asksEach : List Bytes → Script Unit
  | [] => .returns ()
  | label :: labels =>
      ((askPassword label).pcall).bind (fun
        | .ok _ => .returns ()
        | .error _ => asksEach labels)

/-- A task has two credentials that prompt; another task prompts while the first one does. -/
def crossedPrompts : List Event :=
  [.starts (asksEach [lit "first", lit "second"]), .starts (asksEach [lit "key"])]

/-- A task that asks once, and is over without a password. -/
def asksOnce (label : Bytes) : Script Unit :=
  ((askPassword label).pcall).bind (fun _ => .returns ())

/-- A task that asks once is patient. -/
theorem patient_asksOnce (label : Bytes) : Patient (asksOnce label) := by
  refine .prompt trivial fun values => ?_
  cases isAnswer : valueAt values 0 <;> simp only [Body.bind, Body.pcall, isAnswer] <;>
    exact .returns

/-- Two tasks prompt, and the second one is answered. -/
def twoPrompts : List Event :=
  [.starts (asksOnce (lit "first")), .starts (asksOnce (lit "second")), .confirms (lit "secret")]

end Snowcone.Tasks.Prompts
