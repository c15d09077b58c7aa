import Snowcone.Tasks.DispatchLoop

/-! What the bodies of tasks do before they suspend: to the other tasks, to the one that prompts,
and to the table of the tasks.
-/

namespace Snowcone.Tasks.Dispatch

open Bytes Coroutine
open WaitIrc (Command Irc Given)

variable {resume : Resume} {world before middle after : World} {number other : Nat} {task : Task}

-----------------------------------------------------------------------------------------
-- What bodies do
-----------------------------------------------------------------------------------------

/-- The task that goes on. -/
@[simp]
theorem set_self : (world.set number task).tasks number = task := Function.update_self _ _ _

/-- The other tasks stay as they are. -/
@[simp]
theorem set_of_ne (differs : other ≠ number)
    : (world.set number task).tasks other = world.tasks other :=
  Function.update_of_ne differs _ _

/-- A task that has left its queue. -/
@[simp]
theorem leave_self : (world.leave number).queue number = false := Function.update_self _ _ _

/-- The other tasks stay in the queue. -/
@[simp]
theorem leave_of_ne (differs : other ≠ number)
    : (world.leave number).queue other = world.queue other :=
  Function.update_of_ne differs _ _

/-- What holds of all tasks, after one of them goes on in another way. -/
theorem forall_set {holds : Nat → Task → Prop}
    (others : ∀ other, other ≠ number → holds other (world.tasks other)) (here : holds number task)
    (other : Nat)
    : holds other ((world.set number task).tasks other) := by
  by_cases isIt : other = number
  · rw [isIt, set_self]
    exact here
  · rw [set_of_ne isIt]
    exact others other isIt

/-- However bodies run: tasks are only added, no body is left running, and the loop and the
connection are as they were.
-/
structure Extends (before after : World) : Prop where
  started : before.started ≤ after.started
  inserted : before.inserted <+: after.inserted
  running : ∀ number, (after.tasks number).co = .running → (before.tasks number).co = .running
  closed : after.closed = before.closed
  loop : after.loop = before.loop

/-- Nothing happens. -/
theorem Extends.refl (world : World) : Extends world world :=
  ⟨Nat.le_refl _, List.prefix_refl _, fun _ isRunning => isRunning, rfl, rfl⟩

/-- What happens in two parts, by transitivity of each of the relations. -/
theorem Extends.trans (first : Extends before middle) (second : Extends middle after)
    : Extends before after where
  started := first.started.trans second.started
  inserted := first.inserted.trans second.inserted
  running := fun number isRunning => first.running number (second.running number isRunning)
  closed := second.closed.trans first.closed
  loop := second.loop.trans first.loop

/-- A task that goes on, but does not run. -/
theorem extends_set (world : World) (number : Nat) (rests : task.co ≠ .running)
    : Extends world (world.set number task) where
  started := Nat.le_refl _
  inserted := List.prefix_refl _
  running := @forall_set world number task
    (fun other task => task.co = .running → (world.tasks other).co = .running)
    (fun _ _ isRunning => isRunning) (fun isRunning => absurd isRunning rests)
  closed := rfl
  loop := rfl

/-- A task is put into the table. -/
theorem extends_insert (world : World) (main : Script) : Extends world (world.insert main) where
  started := Nat.le_succ _
  inserted := List.prefix_append _ _
  running := (extends_set world world.started Co.noConfusion).running
  closed := rfl
  loop := rfl

/-- A task is left as it is, and does not become the one that prompts. -/
structure Left (number : Nat) (before after : World) : Prop where
  task : after.tasks number = before.tasks number
  queue : after.queue number = before.queue number
  password : before.passwordTask ≠ some number → after.passwordTask ≠ some number

/-- A task is left alone in two parts. -/
theorem Left.trans (first : Left number before middle) (second : Left number middle after)
    : Left number before after where
  task := second.task.trans first.task
  queue := second.queue.trans first.queue
  password := fun notPrompting => second.password (first.password notPrompting)

/-- What another task does. -/
theorem left_set (differs : other ≠ number) : Left other world (world.set number task) :=
  ⟨set_of_ne differs, rfl, fun notPrompting => notPrompting⟩

/-- Another task is over. -/
theorem left_finish (statuses : List Bytes) (differs : other ≠ number)
    : Left other world (World.finish { world with statuses } number) :=
  ⟨set_of_ne differs, leave_of_ne differs, fun notPrompting => notPrompting⟩

/-- A task is put into the table behind those that were started. -/
theorem left_insert (inside : other < world.started) (main : Script)
    : Left other world (world.insert main) :=
  ⟨set_of_ne (Nat.ne_of_lt inside), Function.update_of_ne (Nat.ne_of_lt inside) _ _,
    fun notPrompting => notPrompting⟩

/-- A task that runs already, or that is neither resumed nor prompting. -/
structure Apart (world : World) (resumed number : Nat) : Prop where
  inside : number < world.started
  outside : (world.tasks number).co = .running
    ∨ number ≠ resumed ∧ world.passwordTask ≠ some number

/-- The tasks between any two things that happen, and while bodies run. -/
structure Sound (world : World) : Prop where
  password : ∀ number, world.passwordTask = some number →
    (world.tasks number).suspension = some .password ∨ (world.tasks number).co = .running
  wants : ∀ number, (world.tasks number).suspension ≠ some .irc →
    (world.tasks number).wantCommand = []
  running : ∀ number, (world.tasks number).co = .running →
    (world.tasks number).suspension = none
  alive : ∀ number, world.queue number = true → (world.tasks number).co ≠ .dead
  fresh : ∀ number, world.started ≤ number → world.queue number = false
    ∧ world.passwordTask ≠ some number ∧ (world.tasks number).suspension = none

/-- The tasks of the table were started. -/
theorem Sound.inside (sound : Sound world) (isQueued : world.queue number = true)
    : number < world.started := by
  by_contra beyond
  cases isQueued.symm.trans (sound.fresh number (Nat.le_of_not_lt beyond)).1

/-- A task that runs wants no command. -/
theorem Sound.noWants (sound : Sound world) (isRunning : (world.tasks number).co = .running)
    : (world.tasks number).wantCommand = [] := by
  apply sound.wants
  rw [sound.running number isRunning]
  rintro ⟨⟩

/-- What prompts was started, and wants no command. -/
theorem Sound.prompting (sound : Sound world) (isPrompting : world.passwordTask = some number)
    : number < world.started ∧ (world.tasks number).wantCommand = [] := by
  constructor
  · by_contra beyond
    exact (sound.fresh number (Nat.le_of_not_lt beyond)).2.1 isPrompting
  · rcases sound.password number isPrompting with isPassword | isRunning
    · apply sound.wants
      rw [isPassword]
      rintro ⟨⟩
    · exact sound.noWants isRunning

/-- A task goes on in a way that fits. -/
theorem Sound.set (sound : Sound world) (inside : number < world.started)
    (password : world.passwordTask = some number →
      task.suspension = some .password ∨ task.co = .running)
    (wants : task.suspension ≠ some .irc → task.wantCommand = [])
    (running : task.co = .running → task.suspension = none)
    (alive : world.queue number = true → task.co ≠ .dead)
    : Sound (world.set number task) where
  password := @forall_set world number task
    (fun other task => world.passwordTask = some other →
      task.suspension = some .password ∨ task.co = .running)
    (fun other _ => sound.password other) password
  wants := @forall_set world number task
    (fun _ task => task.suspension ≠ some .irc → task.wantCommand = [])
    (fun other _ => sound.wants other) wants
  running := @forall_set world number task
    (fun _ task => task.co = .running → task.suspension = none)
    (fun other _ => sound.running other) running
  alive := @forall_set world number task
    (fun other task => world.queue other = true → task.co ≠ .dead)
    (fun other _ => sound.alive other) alive
  fresh := fun other beyond => by
    have differs : other ≠ number := Nat.ne_of_gt (Nat.lt_of_lt_of_le inside beyond)
    rw [set_of_ne differs]
    exact sound.fresh other beyond

/-- A task leaves its queue. -/
theorem Sound.leave (sound : Sound world) (number : Nat) : Sound (world.leave number) := by
  have kept {other : Nat} (isQueued : (world.leave number).queue other = true)
      : world.queue other = true ∧ other ≠ number := by
    by_cases isIt : other = number
    · rw [isIt, leave_self] at isQueued
      cases isQueued
    · exact ⟨(leave_of_ne isIt).symm.trans isQueued, isIt⟩
  refine {
    sound with
    alive := fun other isQueued => sound.alive other (kept isQueued).1
    fresh := fun other beyond => ⟨?_, (sound.fresh other beyond).2⟩
  }
  cases isQueued : (world.leave number).queue other with
  | false => rfl
  | true => cases (sound.fresh other beyond).1.symm.trans (kept isQueued).1

/-- A task is over. -/
theorem Sound.finish (sound : Sound world) (inside : number < world.started)
    (notPrompting : world.passwordTask ≠ some number)
    (wants : (world.tasks number).wantCommand = [])
    : Sound (world.finish number) := by
  apply (sound.leave number).set inside
  · exact fun isPrompting => absurd isPrompting notPrompting
  · exact fun _ => wants
  · rintro ⟨⟩
  · intro isQueued
    cases leave_self.symm.trans isQueued

/-- A task is started in another table. -/
theorem Sound.create (sound : Sound world) (main : Script) : Sound (world.create main) := by
  have more : Sound { world with started := world.started + 1 } := {
    sound with
    fresh := fun number beyond => sound.fresh number (Nat.le_of_succ_le beyond)
  }
  apply more.set (Nat.lt_succ_self _)
  · exact fun isPrompting => absurd isPrompting (sound.fresh _ (Nat.le_refl _)).2.1
  · exact fun _ => rfl
  · rintro ⟨⟩
  · rintro _ ⟨⟩

/-- A task is put into the table. -/
theorem Sound.insert (sound : Sound world) (main : Script) : Sound (world.insert main) := by
  have created := sound.create main
  refine {
    created with
    alive := fun number isQueued => ?_
    fresh := fun number beyond => ⟨?_, (created.fresh number beyond).2⟩
  }
  · by_cases isIt : number = world.started
    · subst isIt
      show ((world.create main).tasks world.started).co ≠ .dead
      rw [World.create, set_self]
      rintro ⟨⟩
    · exact created.alive number ((Function.update_of_ne isIt _ _).symm.trans isQueued)
  · have beyond' : world.started + 1 ≤ number := beyond
    have differs : number ≠ world.started := by omega
    exact (Function.update_of_ne differs _ _).trans (created.fresh number beyond).1

/-- What a resume does, whatever the body that it runs is. -/
structure Resumes (resume : Resume) : Prop where
  goesOn : ∀ world number given, Extends world (resume world number given)
  received : ∀ world number values other, other < world.started →
    ((resume world number (.values values)).tasks other).received = (world.tasks other).received
  left : ∀ world resumed given number, Apart world resumed number →
    Left number world (resume world resumed given)
  sound : ∀ world number given, Sound world → number < world.started →
    world.passwordTask ≠ some number → (world.tasks number).wantCommand = [] →
    Sound (resume world number given)

/-- Aborting a prompt is a resume. -/
theorem goesOn_setInputMode (resumes : Resumes resume) (world : World) (prompting : Option Nat)
    : Extends world (setInputMode resume world prompting) := by
  unfold setInputMode
  have entered : Extends world { world with passwordTask := prompting } :=
    ⟨Nat.le_refl _, List.prefix_refl _, fun _ isRunning => isRunning, rfl, rfl⟩
  cases world.passwordTask with
  | none => exact entered
  | some task => exact entered.trans (resumes.goesOn _ _ _)

/-- A body goes on until it suspends or ends, by induction on it. -/
theorem goesOn_proceed (resumes : Resumes resume) (world : World) (number : Nat) (body : Script)
    : Extends world (proceed resume world number body)
      ∧ ((proceed resume world number body).tasks number).co ≠ .running := by
  have finished (world : World)
      : Extends world (world.finish number)
        ∧ ((world.finish number).tasks number).co ≠ .running := by
    have ends := @extends_set { world.tasks number with co := .dead } world number Co.noConfusion
    exact ⟨{ ends with }, by simp [World.finish, World.leave]⟩
  have reported (world : World) (message : Bytes) : Extends world (world.report message) := {
    Extends.refl world with }
  induction body generalizing world with
  | returns => exact finished world
  | raises error => exact ⟨(reported world error).trans (finished _).1, (finished _).2⟩
  | waitIrc commands timeout next =>
      exact ⟨extends_set _ _ Co.noConfusion, by simp [proceed, Task.waitIrc]⟩
  | asksPassword next _ =>
      rw [proceed]
      have entered := goesOn_setInputMode resumes world (some number)
      exact ⟨entered.trans (extends_set _ _ Co.noConfusion), by simp⟩
  | pauses pause next => exact ⟨extends_set _ _ Co.noConfusion, by simp [proceed, Task.pauses]⟩
  | starts main next _ ih =>
      rw [proceed]
      split
      · exact ⟨(reported _ _).trans (finished _).1, (finished _).2⟩
      · obtain ⟨goesOn, rests⟩ := ih (resume (world.insert main) world.started (.values []))
        exact ⟨((extends_insert world main).trans (resumes.goesOn _ _ _)).trans goesOn, rests⟩

/-- A body that starts a task has put one into the table. -/
theorem inserted_starts (resumes : Resumes resume) (isOpen : world.closed = false) (number : Nat)
    (main next : Script)
    : (proceed resume world number (.starts main next)).inserted ≠ world.inserted := by
  rw [proceed, if_neg (by simp [isOpen])]
  have later := (goesOn_proceed resumes (resume (world.insert main) world.started (.values []))
    number next).1
  have grows := (resumes.goesOn (world.insert main) world.started _).trans later
  have longer : (world.inserted ++ [world.started]).length ≤ _ := grows.inserted.length_le
  intro same
  rw [same, List.length_append] at longer
  exact Nat.not_succ_le_self _ longer

/-- No message is dispatched while a body runs, by induction on it. -/
theorem received_proceed (resumes : Resumes resume) (world : World) (number : Nat) (body : Script)
    {other : Nat} (inside : other < world.started)
    : ((proceed resume world number body).tasks other).received
      = (world.tasks other).received := by
  have goesOn {world : World} {task : Task} (same : task.received = (world.tasks number).received)
      : ((world.set number task).tasks other).received = (world.tasks other).received := by
    by_cases isIt : other = number
    · rw [isIt, set_self, same]
    · rw [set_of_ne isIt]
  induction body generalizing world with
  | returns => exact goesOn rfl
  | raises error => exact goesOn rfl
  | waitIrc commands timeout next => exact goesOn rfl
  | asksPassword next _ =>
      rw [proceed]
      refine Eq.trans (goesOn rfl) ?_
      unfold setInputMode
      cases world.passwordTask with
      | none => rfl
      | some task => exact resumes.received _ _ _ other inside
  | pauses pause next => exact goesOn rfl
  | starts main next _ ih =>
      rw [proceed]
      split
      · exact goesOn rfl
      · have inserted : other < (world.insert main).started := Nat.lt_succ_of_lt inside
        have more := (resumes.goesOn (world.insert main) world.started (.values [])).started
        rw [ih _ (Nat.lt_of_lt_of_le inserted more), resumes.received _ _ _ other inserted,
          (left_insert inside main).task]

/-- A task is left alone by an abort that is not its own. -/
theorem left_setInputMode (resumes : Resumes resume) (inside : other < world.started)
    (outside : (world.tasks other).co = .running ∨ world.passwordTask ≠ some other)
    {prompting : Option Nat} (differs : prompting ≠ some other)
    : Left other world (setInputMode resume world prompting) := by
  unfold setInputMode
  cases isTask : world.passwordTask with
  | none => exact ⟨rfl, rfl, fun _ => differs⟩
  | some task =>
      have left := resumes.left { world with passwordTask := prompting } task (.values []) other
        ⟨inside, outside.imp_right fun notPrompting =>
          ⟨fun isIt => notPrompting (isIt ▸ isTask), differs⟩⟩
      exact ⟨left.task, left.queue, fun _ => left.password differs⟩

/-- A task is left alone while another one runs, by induction on what that one does. -/
theorem left_proceed (resumes : Resumes resume) (body : Script) (differs : other ≠ number)
    (inside : other < world.started)
    (outside : (world.tasks other).co = .running ∨ world.passwordTask ≠ some other)
    : Left other world (proceed resume world number body) := by
  induction body generalizing world with
  | returns => exact left_finish world.statuses differs
  | raises error => exact left_finish _ differs
  | waitIrc commands timeout next => exact left_set differs
  | asksPassword next _ =>
      rw [proceed]
      exact (left_setInputMode resumes inside outside (by simpa using Ne.symm differs)).trans
        (left_set differs)
  | pauses pause next => exact left_set differs
  | starts main next _ ih =>
      rw [proceed]
      split
      · exact left_finish _ differs
      -- The new task runs first, then the rest of this body.
      · have inserted := left_insert inside main
        have apart : Apart (world.insert main) world.started other := by
          refine ⟨Nat.lt_succ_of_lt inside, ?_⟩
          rw [inserted.task]
          exact outside.imp_right fun notPrompting => ⟨Nat.ne_of_lt inside, notPrompting⟩
        have started := inserted.trans (resumes.left _ world.started (.values []) other apart)
        have more := (resumes.goesOn (world.insert main) world.started (.values [])).started
        refine started.trans (ih (Nat.lt_of_lt_of_le apart.inside more) ?_)
        rw [started.task]
        exact outside.imp_right started.password

/-- A task that runs is left as it is by an abort. -/
theorem task_setInputMode (resumes : Resumes resume) (inside : number < world.started)
    (isRunning : (world.tasks number).co = .running) (prompting : Option Nat)
    : (setInputMode resume world prompting).tasks number = world.tasks number := by
  unfold setInputMode
  cases world.passwordTask with
  | none => rfl
  | some task =>
      exact (resumes.left { world with passwordTask := prompting } task _ number
        ⟨inside, .inl isRunning⟩).task

/-- A task that runs becomes the one that prompts. -/
theorem sound_setInputMode (resumes : Resumes resume) (sound : Sound world)
    (inside : number < world.started) (isRunning : (world.tasks number).co = .running)
    (notPrompting : world.passwordTask ≠ some number)
    : Sound (setInputMode resume world (some number)) := by
  have entering : Sound { world with passwordTask := some number } := {
    sound with
    password := by
      rintro _ ⟨⟩
      exact .inr isRunning
    fresh := fun other beyond => by
      refine ⟨(sound.fresh other beyond).1, ?_, (sound.fresh other beyond).2.2⟩
      rintro ⟨⟩
      exact Nat.not_le_of_lt inside beyond
  }
  unfold setInputMode
  cases isTask : world.passwordTask with
  | none => exact entering
  | some task =>
      obtain ⟨started, noWants⟩ := sound.prompting isTask
      have differs : some number ≠ some task := by
        rintro ⟨⟩
        exact notPrompting isTask
      exact resumes.sound _ task _ entering started differs noWants

/-- A body keeps the tasks sound, by induction on it. -/
theorem sound_proceed (resumes : Resumes resume) (sound : Sound world)
    (inside : number < world.started) (isRunning : (world.tasks number).co = .running)
    (notPrompting : world.passwordTask ≠ some number) (body : Script)
    : Sound (proceed resume world number body) := by
  have finished (statuses : List Bytes)
      : Sound (World.finish { world with statuses } number) := by
    have reported : Sound { world with statuses } := { sound with }
    exact reported.finish inside notPrompting (sound.noWants isRunning)
  induction body generalizing world with
  | returns => exact finished world.statuses
  | raises error => exact finished _
  | waitIrc commands timeout next =>
      apply sound.set inside
      · exact fun isPrompting => absurd isPrompting notPrompting
      · exact fun notIrc => absurd rfl notIrc
      · rintro ⟨⟩
      · rintro _ ⟨⟩
  | asksPassword next _ =>
      have more := (goesOn_setInputMode resumes world (some number)).started
      have same := task_setInputMode resumes inside isRunning (some number)
      rw [proceed]
      apply (sound_setInputMode resumes sound inside isRunning notPrompting).set
        (Nat.lt_of_lt_of_le inside more)
      · exact fun _ => .inl rfl
      · intro _
        rw [same]
        exact sound.noWants isRunning
      · rintro ⟨⟩
      · rintro _ ⟨⟩
  | pauses pause next =>
      apply sound.set inside
      · exact fun isPrompting => absurd isPrompting notPrompting
      · exact fun _ => sound.noWants isRunning
      · rintro ⟨⟩
      · rintro _ ⟨⟩
  | starts main next _ ih =>
      rw [proceed]
      split
      · exact finished _
      · have inserted := left_insert inside main
        have apart : Apart (world.insert main) world.started number := by
          refine ⟨Nat.lt_succ_of_lt inside, .inl ?_⟩
          rw [inserted.task]
          exact isRunning
        have started := inserted.trans (resumes.left _ world.started (.values []) number apart)
        have more := (resumes.goesOn (world.insert main) world.started (.values [])).started
        have isNew : (world.insert main).tasks world.started = .new main :=
          Function.update_self _ _ _
        have noWants : ((world.insert main).tasks world.started).wantCommand = [] := by
          rw [isNew]
          rfl
        have isSound := resumes.sound _ _ (.values []) (sound.insert main)
          (Nat.lt_succ_self world.started) (sound.fresh _ (Nat.le_refl _)).2.1 noWants
        have inside' := Nat.lt_of_lt_of_le apart.inside more
        refine ih isSound inside' ?_ (started.password notPrompting) ?_
        · rw [started.task]
          exact isRunning
        · intro statuses
          have reported : Sound { resume (world.insert main) world.started (.values []) with
            statuses } := { isSound with }
          refine reported.finish inside' (started.password notPrompting) ?_
          have same : ((resume (world.insert main) world.started (.values [])).tasks
              number).wantCommand = (world.tasks number).wantCommand :=
            congrArg Task.wantCommand started.task
          exact same.trans (sound.noWants isRunning)

/-- A task that is suspended runs. -/
theorem resume_suspended {next : Given → Script}
    (suspended : (world.tasks number).co = .suspended next) (depth : Nat) (given : Given)
    : Dispatch.resume (depth + 1) world number given
      = proceed (Dispatch.resume depth) (world.set number ((world.tasks number).takes given)) number
        (next given) := by
  rw [Dispatch.resume, suspended]
  rfl

/-- What `Task:resume` does, by induction on how deep it is nested. -/
theorem resumes_resume (depth : Nat) : Resumes (Dispatch.resume depth) := by
  have reported (world : World) (message : Bytes) : Extends world (world.report message) := {
    Extends.refl world with }
  induction depth with
  | zero => exact {
      goesOn := fun world _ _ => reported world _
      received := fun _ _ _ _ _ => rfl
      left := fun _ _ _ _ _ => ⟨rfl, rfl, fun notPrompting => notPrompting⟩
      sound := fun _ _ _ sound _ _ _ => { sound with }
    }
  | succ depth resumes =>
      refine {
        goesOn := fun world number given => ?_
        received := fun world number values other inside => ?_
        left := fun world resumed given number apart => ?_
        sound := fun world number given sound inside notPrompting noWants => ?_
      }
      · cases isCo : (world.tasks number).co with
        | running =>
            rw [Dispatch.resume, isCo]
            exact reported world _
        | dead =>
            rw [Dispatch.resume, isCo]
            exact { Extends.refl world with }
        | suspended next =>
            rw [resume_suspended isCo]
            obtain ⟨goesOn, rests⟩ := goesOn_proceed resumes
              (world.set number ((world.tasks number).takes given)) number (next given)
            refine { goesOn with running := fun other isRunning => ?_ }
            have before := goesOn.running other isRunning
            by_cases isIt : other = number
            · exact absurd (isIt ▸ isRunning) rests
            · rwa [set_of_ne isIt] at before
      · cases isCo : (world.tasks number).co with
        | running =>
            rw [Dispatch.resume, isCo]
            rfl
        | dead =>
            rw [Dispatch.resume, isCo]
            rfl
        | suspended next =>
            rw [resume_suspended isCo]
            refine (received_proceed resumes (world.set number ((world.tasks number).takes
              (.values values))) number _ inside).trans ?_
            by_cases isIt : other = number
            · rw [isIt, set_self]
              rfl
            · rw [set_of_ne isIt]
      -- A coroutine that is not running is not that of a task that runs.
      · have differs {co : Co} (isCo : (world.tasks resumed).co = co) (notRunning : co ≠ .running)
            : number ≠ resumed := by
          rcases apart.outside with isRunning | ⟨differs, -⟩
          · rintro rfl
            exact notRunning (isCo.symm.trans isRunning)
          · exact differs
        cases isCo : (world.tasks resumed).co with
        | running =>
            rw [Dispatch.resume, isCo]
            exact ⟨rfl, rfl, fun notPrompting => notPrompting⟩
        | dead =>
            rw [Dispatch.resume, isCo]
            exact ⟨rfl, Function.update_of_ne (differs isCo Co.noConfusion) _ _,
              fun notPrompting => notPrompting⟩
        | suspended next =>
            rw [resume_suspended isCo]
            have isOther := differs isCo Co.noConfusion
            have taken := @left_set world resumed number ((world.tasks resumed).takes given) isOther
            refine taken.trans (left_proceed resumes _ isOther apart.inside ?_)
            rw [taken.task]
            exact apart.outside.imp_right And.right
      · cases isCo : (world.tasks number).co with
        | running =>
            rw [Dispatch.resume, isCo]
            exact { sound with }
        | dead =>
            rw [Dispatch.resume, isCo]
            exact { sound.leave number with }
        | suspended next =>
            rw [resume_suspended isCo]
            have taken : Sound (world.set number ((world.tasks number).takes given)) := by
              apply sound.set inside
              · exact fun isPrompting => absurd isPrompting notPrompting
              · exact fun _ => noWants
              · exact fun _ => rfl
              · rintro _ ⟨⟩
            exact sound_proceed resumes taken inside (by rw [set_self]; rfl) notPrompting _

-----------------------------------------------------------------------------------------
-- What is put into the table
-----------------------------------------------------------------------------------------

/-- A task that runs is not resumed. -/
theorem inserted_of_running (isRunning : (world.tasks number).co = .running) (depth : Nat)
    (given : Given)
    : (Dispatch.resume depth world number given).inserted = world.inserted := by
  cases depth with
  | zero => rfl
  | succ depth =>
      rw [Dispatch.resume, isRunning]
      rfl

/-- What a task puts into the table when its prompt is aborted by a task that runs. -/
theorem inserted_aborted_iff (isPrompting : world.passwordTask = some other)
    (isRunning : (world.tasks other).co = .running) (isOpen : world.closed = false) (depth : Nat)
    (body : Script)
    : (proceed (Dispatch.resume depth) world number body).inserted = world.inserted
      ↔ ¬ body.Starts := by
  cases body with
  | starts main next =>
      exact iff_of_false (inserted_starts (resumes_resume depth) isOpen number main next)
        fun quiet => quiet trivial
  | asksPassword next =>
      refine iff_of_true ?_ id
      show (setInputMode (Dispatch.resume depth) world (some number)).inserted = world.inserted
      rw [setInputMode, isPrompting]
      exact @inserted_of_running { world with passwordTask := some number } other isRunning depth _
  | returns => exact iff_of_true rfl id
  | raises error => exact iff_of_true rfl id
  | waitIrc commands timeout next => exact iff_of_true rfl id
  | pauses pause next => exact iff_of_true rfl id

/-- What a body puts into the table. -/
theorem inserted_iff (isRunning : (world.tasks number).co = .running)
    (notPrompting : world.passwordTask ≠ some number) (isOpen : world.closed = false) (depth : Nat)
    (body : Script)
    : (proceed (Dispatch.resume (depth + 1)) world number body).inserted = world.inserted
      ↔ ¬ Inserts world body := by
  cases body with
  | starts main next =>
      exact iff_of_false (inserted_starts (resumes_resume (depth + 1)) isOpen number main next)
        fun quiet => quiet trivial
  | asksPassword next =>
      show (setInputMode (Dispatch.resume (depth + 1)) world (some number)).inserted
        = world.inserted ↔ _
      rw [setInputMode]
      cases isTask : world.passwordTask with
      | none =>
          refine iff_of_true rfl ?_
          rintro ⟨task, _, isSome, -⟩
          cases isTask.symm.trans isSome
      | some task =>
          have differs : number ≠ task := by
            rintro rfl
            exact notPrompting isTask
          have unsuspended {co : Co} (isCo : (world.tasks task).co = co)
              (notSuspended : ∀ again, co ≠ .suspended again)
              : ¬ Inserts world (.asksPassword next) := by
            rintro ⟨other, again, isSome, suspended, -⟩
            obtain rfl := Option.some.inj (isTask.symm.trans isSome)
            exact notSuspended again (isCo.symm.trans suspended)
          cases isCo : (world.tasks task).co with
          | running =>
              refine iff_of_true ?_ (unsuspended isCo fun _ => Co.noConfusion)
              exact @inserted_of_running { world with passwordTask := some number } task isCo _ _
          | dead =>
              refine iff_of_true ?_ (unsuspended isCo fun _ => Co.noConfusion)
              simp only [Dispatch.resume, isCo]
              rfl
          | suspended again =>
              have isBody := @resume_suspended { world with passwordTask := some number } task again
                isCo depth (.values [])
              have stillRuns : ((World.set { world with passwordTask := some number } task
                  ((world.tasks task).takes (.values []))).tasks number).co = .running := by
                rw [set_of_ne differs]
                exact isRunning
              have aborted := @inserted_aborted_iff (World.set { world with
                passwordTask := some number } task ((world.tasks task).takes (.values []))) task
                number rfl stillRuns isOpen depth (again (.values []))
              rw [← isBody] at aborted
              refine aborted.trans (not_congr ?_)
              refine ⟨fun starts => ⟨task, again, isTask, isCo, starts⟩, ?_⟩
              rintro ⟨other, others, isSome, suspended, starts⟩
              obtain rfl := Option.some.inj (isTask.symm.trans isSome)
              cases isCo.symm.trans suspended
              exact starts
  | returns => exact iff_of_true rfl id
  | raises error => exact iff_of_true rfl id
  | waitIrc commands timeout next => exact iff_of_true rfl id
  | pauses pause next => exact iff_of_true rfl id

/-- A task that does not prompt makes no difference to what a body puts into the table. -/
theorem inserts_set (notPrompting : world.passwordTask ≠ some number) (body : Script)
    : Inserts (world.set number task) body ↔ Inserts world body := by
  cases body with
  | asksPassword next =>
      refine exists_congr fun other => exists_congr fun again =>
        and_congr_right fun isPrompting => ?_
      have differs : other ≠ number := by
        rintro rfl
        exact notPrompting isPrompting
      rw [set_of_ne differs]
  | _ => exact Iff.rfl

end Snowcone.Tasks.Dispatch
