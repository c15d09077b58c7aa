import Snowcone.Foundations.Runs
import Snowcone.Tasks.WaitIrc

/-! Every wait is resumed once, with what ended it, as long as no timer or lookup has to be
cancelled: both cancellations raise an error.
-/

namespace Snowcone.Tasks.WaitIrc

open Bytes Coroutine EventLoop Runs

-----------------------------------------------------------------------------------------
-- What is asked of the waits
-----------------------------------------------------------------------------------------

/-- Whether a happening ends a wait for these commands. -/
def Happening.ends (commands : List Command) : Happening → Bool
  | .received irc => irc.command ∈ commands
  | .timedOut => true
  | .closed => true

/-- What a task is resumed with when its wait ends so. -/
def Happening.outcome : Happening → List Given
  | .received irc => [.irc (some irc)]
  | .timedOut => [.irc none]
  | .closed => []

/-- What a wait is to be resumed with: the first matching message, or nil if the timeout is
earlier. A wait that goes on or that is cancelled is not resumed.
-/
def Wait.due (wait : Wait) : List Given :=
  match wait.history.find? (·.ends wait.commands) with
  | some happening => happening.outcome
  | none => []

/-- What is asked of the handling of an event: no error, every wait is resumed as it is due, no
timer of a finished wait resumes a task, and a disconnect goes through, which leaves no task.
-/
structure Handled (event : Event) (after : World) : Prop where
  raisesNothing : after.raised = []
  resumes : ∀ task ∈ after.tasks, ∀ wait ∈ task.waits, wait.resumed = wait.due
  strays : ∀ task ∈ after.tasks, task.strays = []
  closes : event = .disconnect → after.closed = true
  cancelled : after.closed = true → ∀ task ∈ after.tasks, task.queued = false ∧ task.co = .dead

/-- Neither a timer nor a lookup has to be cancelled: no message comes that ends a wait whose
timeout is running, and at a disconnect no task has a timer or a lookup.
-/
def NothingToCancel (world : World) : Event → Prop
  | .message irc => world.closed = false → ∀ task ∈ world.tasks, task.queued = true →
      irc.command ∈ task.wantCommand → task.timerHandle = none
  | .disconnect => world.closed = false → ∀ task ∈ world.tasks, task.queued = true →
      task.timerHandle = none ∧ task.dnslookupHandle = none
  | .spawn _ | .reorder _ | .expire _ _ | .handler _ _ | .completes _ _ => True

-----------------------------------------------------------------------------------------
-- What the actions do
-----------------------------------------------------------------------------------------

/-- There must be no timer for `cancel_timer` to return. -/
theorem cancelTimer_ok_iff {task after : Task}
    : cancelTimer task = .ok () after ↔ task.timerHandle = none ∧ after = task := by
  rw [cancelTimer, Action.get_bind]
  cases task.timerHandle with
  | none =>
      constructor
      · rintro ⟨⟩
        exact ⟨rfl, rfl⟩
      · rintro ⟨_, rfl⟩
        rfl
  | some timer =>
      constructor
      · rintro ⟨⟩
      · rintro ⟨⟨⟩, _⟩

/-- There must be no lookup for `cancel_dnslookup` to return. -/
theorem cancelDnslookup_ok_iff {task after : Task}
    : cancelDnslookup task = .ok () after ↔ task.dnslookupHandle = none ∧ after = task := by
  rw [cancelDnslookup, Action.get_bind]
  cases task.dnslookupHandle with
  | none =>
      constructor
      · rintro ⟨⟩
        exact ⟨rfl, rfl⟩
      · rintro ⟨_, rfl⟩
        rfl
  | some name =>
      constructor
      · rintro ⟨⟩
      · rintro ⟨⟨⟩, _⟩

/-- There must be no timer for `resume_irc` to return. -/
theorem resumeIrc_ok_iff {irc : Option Irc} {task after : Task}
    : resumeIrc irc task = .ok () after
      ↔ task.timerHandle = none ∧ after = { task with wantCommand := [] }.resume (.irc irc) := by
  constructor
  · intro ends
    obtain ⟨_, _, cancelled, later⟩ := Action.bind_ok_iff.mp ends
    obtain ⟨noTimer, rfl⟩ := cancelTimer_ok_iff.mp cancelled
    cases later
    exact ⟨noTimer, rfl⟩
  · rintro ⟨noTimer, rfl⟩
    exact Action.bind_of_ok (cancelTimer_ok_iff.mpr ⟨noTimer, rfl⟩)

/-- A task gets the message that it waits for. -/
theorem dispatch_of_wanted {irc : Irc} {task : Task} (wanted : irc.command ∈ task.wantCommand)
    : dispatch irc task = resumeIrc (some irc) task := by
  rw [dispatch, Action.get_bind, if_pos wanted]

/-- Another message changes nothing. -/
theorem dispatch_of_unwanted {irc : Irc} {task : Task}
    (unwanted : irc.command ∉ task.wantCommand)
    : dispatch irc task = .ok () task := by
  rw [dispatch, Action.get_bind, if_neg unwanted]
  rfl

/-- There must be neither a timer nor a lookup for `Task:cancel` to return. -/
theorem cancel_ok_iff {task after : Task}
    : cancel task = .ok () after
      ↔ task.timerHandle = none ∧ task.dnslookupHandle = none
        ∧ after = { task with queued := false, co := .dead, waiting := none } := by
  rw [cancel, Action.modify_bind]
  constructor
  · intro ends
    obtain ⟨_, _, first, later⟩ := Action.bind_ok_iff.mp ends
    obtain ⟨noTimer, rfl⟩ := cancelTimer_ok_iff.mp first
    obtain ⟨_, _, second, last⟩ := Action.bind_ok_iff.mp later
    obtain ⟨noLookup, rfl⟩ := cancelDnslookup_ok_iff.mp second
    cases last
    exact ⟨noTimer, noLookup, rfl⟩
  · rintro ⟨noTimer, noLookup, rfl⟩
    refine Action.bind_ok_iff.mpr ⟨(), _, cancelTimer_ok_iff.mpr ⟨noTimer, rfl⟩, ?_⟩
    exact Action.bind_ok_iff.mpr ⟨(), _, cancelDnslookup_ok_iff.mpr ⟨noLookup, rfl⟩, rfl⟩

/-- A loop over the queued tasks ends if its rounds do, by induction on the tasks. -/
theorem forQueued_eq_none_iff {round : Act Unit} {tasks : List Task}
    : (forQueued round tasks).2 = none
      ↔ ∀ task ∈ tasks, task.queued = true → ∃ after, round task = .ok () after := by
  induction tasks with
  | nil => simp [forQueued]
  | cons task rest ih =>
      rw [List.forall_mem_cons, ← ih, forQueued]
      by_cases queued : task.queued = true
      · cases outcome : round task <;> simp [queued]
      · simp [queued]

/-- What the tasks are after a loop that ends, by induction on the tasks. -/
theorem mem_forQueued {round : Act Unit} {tasks : List Task} {after : Task}
    (ends : (forQueued round tasks).2 = none) (isIn : after ∈ (forQueued round tasks).1)
    : ∃ task ∈ tasks, (task.queued = false ∧ after = task)
        ∨ (task.queued = true ∧ round task = .ok () after) := by
  induction tasks with
  | nil => cases isIn
  | cons task rest ih =>
      have hereOrLater : ((task.queued = false ∧ after = task)
          ∨ (task.queued = true ∧ round task = .ok () after))
          ∨ (after ∈ (forQueued round rest).1 ∧ (forQueued round rest).2 = none) := by
        rw [forQueued] at ends isIn
        by_cases queued : task.queued = true
        · cases outcome : round task with
          | error message between => simp [queued, outcome] at ends
          | ok value between =>
              simp only [queued, if_true, outcome] at ends isIn
              rcases List.mem_cons.mp isIn with rfl | later
              · exact Or.inl (Or.inr ⟨queued, rfl⟩)
              · exact Or.inr ⟨later, ends⟩
        · simp only [queued] at ends isIn
          rcases List.mem_cons.mp isIn with rfl | later
          · exact Or.inl (Or.inl ⟨by simpa using queued, rfl⟩)
          · exact Or.inr ⟨later, ends⟩
      rcases hereOrLater with here | ⟨later, rest⟩
      · exact ⟨task, List.mem_cons_self, here⟩
      · obtain ⟨other, member, case⟩ := ih rest later
        exact ⟨other, List.mem_cons_of_mem task member, case⟩

-----------------------------------------------------------------------------------------
-- Waits
-----------------------------------------------------------------------------------------

/-- Something happens to a wait. -/
def Wait.note (wait : Wait) (happening : Happening) : Wait :=
  { wait with history := wait.history ++ [happening] }

/-- A wait that has ended. -/
def Wait.Ended (wait : Wait) : Prop :=
  ∃ happening, wait.history.find? (·.ends wait.commands) = some happening

/-- A wait that has ended, and what it was resumed with. -/
structure Wait.Settled (wait : Wait) : Prop where
  ended : wait.Ended
  resumed : wait.resumed = wait.due

/-- A wait that goes on. -/
structure Wait.Open (wait : Wait) : Prop where
  goesOn : wait.history.find? (·.ends wait.commands) = none
  resumed : wait.resumed = []

/-- A wait is due the outcome of what ended it. -/
theorem Wait.due_of_find {wait : Wait} {happening : Happening}
    (found : wait.history.find? (·.ends wait.commands) = some happening)
    : wait.due = happening.outcome := by
  rw [Wait.due, found]

/-- Nothing that happens later changes how a wait ended. -/
theorem Wait.Settled.note {wait : Wait} (settled : wait.Settled) (happening : Happening)
    : (wait.note happening).Settled := by
  obtain ⟨first, found⟩ := settled.ended
  have same : (wait.note happening).history.find? (·.ends wait.commands) = some first := by
    rw [Wait.note, List.find?_append, found, Option.some_or]
  refine ⟨⟨first, same⟩, ?_⟩
  rw [Wait.due_of_find same, ← Wait.due_of_find found]
  exact settled.resumed

/-- A wait goes on if what happens does not end it. -/
theorem Wait.Open.note {wait : Wait} (goesOn : wait.Open) {happening : Happening}
    (other : happening.ends wait.commands = false)
    : (wait.note happening).Open := by
  refine ⟨?_, goesOn.resumed⟩
  change (wait.history ++ [happening]).find? (·.ends wait.commands) = none
  rw [List.find?_append, goesOn.goesOn, Option.none_or, List.find?_singleton]
  simp [other]

/-- A wait that ends is settled when it is resumed with the outcome. -/
theorem Wait.Open.settles {wait : Wait} (goesOn : wait.Open) (happening : Happening)
    (ends : happening.ends wait.commands = true)
    : { wait.note happening with
        resumed := (wait.note happening).resumed ++ happening.outcome }.Settled := by
  have found : (wait.note happening).history.find? (·.ends wait.commands) = some happening := by
    change (wait.history ++ [happening]).find? (·.ends wait.commands) = _
    rw [List.find?_append, goesOn.goesOn, Option.none_or, List.find?_singleton]
    simp [ends]
  refine ⟨⟨happening, found⟩, Eq.trans ?_ (Wait.due_of_find found).symm⟩
  change wait.resumed ++ happening.outcome = happening.outcome
  rw [goesOn.resumed, List.nil_append]

/-- A wait that goes on is not due yet. -/
theorem Wait.Open.due {wait : Wait} (goesOn : wait.Open) : wait.resumed = wait.due := by
  rw [goesOn.resumed, Wait.due, goesOn.goesOn]

-----------------------------------------------------------------------------------------
-- Tasks between two events
-----------------------------------------------------------------------------------------

/-- A timer whose handler has run. -/
def TaskTimer.spent : TaskTimer := { callback := none, status := .done }

/-- A task whose body runs: all waits are settled, and nothing is outstanding. -/
structure Idle (task : Task) : Prop where
  waits : ∀ wait ∈ task.waits, wait.Settled
  timers : ∀ timer ∈ task.timers, timer = .spent
  timerHandle : task.timerHandle = none
  dnslookupHandle : task.dnslookupHandle = none
  operation : task.operation = none
  waiting : task.waiting = none
  wantCommand : task.wantCommand = []
  strays : task.strays = []

/-- A callback is for what the task is suspended in. -/
inductive Callback.Serves (task : Task) : Callback → Prop
  | waitIrc {number} (waiting : task.waiting = some number) : Serves task (.waitIrc number)
  | sleep (waiting : task.waiting = none) : Serves task .sleep

/-- A suspended task is in its queue; a dead one has left it and has no handles. -/
inductive Task.Lives (task : Task) : Prop
  | suspended (next) (co : task.co = .suspended next) (queued : task.queued = true)
  | dead (co : task.co = .dead) (queued : task.queued = false) (waiting : task.waiting = none)
    (timerHandle : task.timerHandle = none) (dnslookupHandle : task.dnslookupHandle = none)

/-- A task between two events. -/
structure Resting (task : Task) : Prop where
  settled : ∀ number wait, task.waits[number]? = some wait → task.waiting ≠ some number →
    wait.Settled
  current : ∀ number, task.waiting = some number →
    ∃ wait, task.waits[number]? = some wait ∧ wait.commands = task.wantCommand ∧ wait.Open
  wantCommand : task.queued = true → task.waiting = none → task.wantCommand = []
  timers : ∀ number timer, task.timers[number]? = some timer →
    timer = .spent
    ∨ (task.timerHandle = some number
      ∧ ∃ callback, timer.callback = some callback ∧ callback.Serves task)
  operation : task.operation ≠ none → task.timerHandle = none ∧ task.waiting = none
  lookup : task.dnslookupHandle ≠ none → task.operation = some .dnslookup
  strays : task.strays = []
  lives : task.Lives

/-- A task that is idle rests when it has suspended or ended, also for an operation. -/
theorem Idle.resting {task : Task} (idle : Idle task) {operation : Option Operation}
    {handle : Option Bytes} (lookup : handle ≠ none → operation = some .dnslookup)
    (lives : { task with operation, dnslookupHandle := handle }.Lives)
    : Resting { task with operation, dnslookupHandle := handle } where
  settled _ wait found _ := idle.waits wait (List.mem_of_getElem? found)
  current _ waiting := absurd (idle.waiting.symm.trans waiting) (Option.some_ne_none _).symm
  wantCommand _ _ := idle.wantCommand
  timers _ timer found := Or.inl (idle.timers timer (List.mem_of_getElem? found))
  operation _ := ⟨idle.timerHandle, idle.waiting⟩
  lookup
  strays := idle.strays
  lives

/-- A timer that is started behind the last one is the only one that is not spent. -/
theorem spent_or_last {timers : List TaskTimer} {started timer : TaskTimer} {number : Nat}
    (spent : ∀ timer ∈ timers, timer = .spent)
    (found : (timers ++ [started])[number]? = some timer)
    : timer = .spent ∨ (number = timers.length ∧ timer = started) := by
  rcases Nat.lt_or_ge number timers.length with earlier | notEarlier
  · rw [List.getElem?_append_left earlier] at found
    exact Or.inl (spent timer (List.mem_of_getElem? found))
  · rw [List.getElem?_append_right notEarlier, List.getElem?_singleton] at found
    split at found
    · refine Or.inr ⟨by omega, (Option.some.inj found).symm⟩
    · cases found

/-- The task that begins a wait rests. -/
theorem Idle.resting_waitIrc {task : Task} (idle : Idle task) (queued : task.queued = true)
    (commands : List Command) (timeout : Option Int) (next : Given → Script)
    : Resting { task.beginWaitIrc commands timeout with co := .suspended next } := by
  have settled : ∀ number wait, (task.waits ++ [Wait.new commands])[number]? = some wait →
      some task.waits.length ≠ some number → wait.Settled := by
    intro number wait found notLast
    have earlier : number < task.waits.length := by
      have inside := (List.getElem?_eq_some_iff.mp found).1
      rw [List.length_append, List.length_singleton] at inside
      have different : task.waits.length ≠ number := fun same => notLast (congrArg some same)
      omega
    rw [List.getElem?_append_left earlier] at found
    exact idle.waits wait (List.mem_of_getElem? found)
  have current : ∀ number, some task.waits.length = some number →
      ∃ wait, (task.waits ++ [Wait.new commands])[number]? = some wait
        ∧ wait.commands = commands ∧ wait.Open := by
    rintro _ ⟨⟩
    exact ⟨.new commands, List.getElem?_concat_length, rfl, rfl, rfl⟩
  have notBusy : ¬ task.operation ≠ none := not_not.mpr idle.operation
  have noLookup : ¬ task.dnslookupHandle ≠ none := not_not.mpr idle.dnslookupHandle
  cases timeout with
  | none =>
      exact {
        settled
        current
        wantCommand := fun _ unwaiting => absurd unwaiting (Option.some_ne_none _)
        timers := fun _ timer found =>
          Or.inl (idle.timers timer (List.mem_of_getElem? found))
        operation := fun busy => absurd busy notBusy
        lookup := fun lookup => absurd lookup noLookup
        strays := idle.strays
        lives := .suspended next rfl queued
      }
  | some delay =>
      exact {
        settled
        current
        wantCommand := fun _ unwaiting => absurd unwaiting (Option.some_ne_none _)
        timers := by
          intro number timer found
          rcases spent_or_last idle.timers found with spent | ⟨rfl, rfl⟩
          · exact Or.inl spent
          · exact Or.inr ⟨rfl, _, rfl, .waitIrc rfl⟩
        operation := fun busy => absurd busy notBusy
        lookup := fun lookup => absurd lookup noLookup
        strays := idle.strays
        lives := .suspended next rfl queued
      }

/-- The task that begins to sleep rests. -/
theorem Idle.resting_sleep {task : Task} (idle : Idle task) (queued : task.queued = true)
    (delay : Int) (next : Given → Script)
    : Resting (task.proceed (.yields (.sleep delay) next)) where
  settled _ wait found _ := idle.waits wait (List.mem_of_getElem? found)
  current _ waiting := absurd (idle.waiting.symm.trans waiting) (Option.some_ne_none _).symm
  wantCommand _ _ := idle.wantCommand
  timers := by
    intro number timer found
    rcases spent_or_last idle.timers found with spent | ⟨rfl, rfl⟩
    · exact Or.inl spent
    · exact Or.inr ⟨rfl, .sleep, rfl, .sleep idle.waiting⟩
  operation busy := absurd idle.operation busy
  lookup lookup := absurd idle.dnslookupHandle lookup
  strays := idle.strays
  lives := .suspended next rfl queued

/-- However its body goes on, the task rests behind it. -/
theorem Idle.resting_proceed {task : Task} (idle : Idle task) (queued : task.queued = true)
    (body : Script)
    : Resting (task.proceed body).leaveQueue := by
  have same : task = { task with operation := none, dnslookupHandle := none } := by
    rw [← idle.operation, ← idle.dnslookupHandle]
  cases body with
  | returns result =>
      have ended : Idle { task with co := .dead, queued := false } :=
        { idle with strays := idle.strays }
      rw [same]
      exact ended.resting (absurd rfl) (.dead rfl rfl idle.waiting idle.timerHandle rfl)
  | raises error =>
      have ended : Idle {
          task with co := .dead, queued := false, statuses := task.statuses ++ [error] } :=
        { idle with strays := idle.strays }
      rw [same]
      exact ended.resting (absurd rfl) (.dead rfl rfl idle.waiting idle.timerHandle rfl)
  | yields suspension next =>
      have suspended : Idle { task with co := .suspended next } :=
        { idle with strays := idle.strays }
      cases suspension with
      | waitIrc commands timeout => exact idle.resting_waitIrc queued commands timeout next
      | sleep delay => exact idle.resting_sleep queued delay next
      | dnslookup name => exact suspended.resting (fun _ => rfl) (.suspended next rfl queued)
      | other =>
          rw [same]
          exact suspended.resting (absurd rfl) (.suspended next rfl queued)

/-- A suspended task that is idle as soon as its wait has ended rests behind a resume. -/
theorem resting_resume {task : Task} {given : Given} {next : Given → Script}
    (co : task.co = .suspended next) (queued : task.queued = true)
    (idle : Idle (task.endWait given))
    : Resting (task.resume given) := by
  have goesOn : task.resume given
      = ((task.endWait given).proceed (next given)).leaveQueue := by
    rw [Task.resume, co]
    rfl
  have stillQueued : (task.endWait given).queued = true := by
    rw [Task.endWait]
    split <;> exact queued
  rw [goesOn]
  exact idle.resting_proceed stillQueued (next given)

/-- A task that is in no wait is idle already. -/
theorem Idle.endWait {task : Task} (idle : Idle task) (given : Given)
    : Idle (task.endWait given) := by
  rw [Task.endWait, idle.waiting]
  exact idle

/-- A new task rests. -/
theorem resting_new (script : Script) : Resting (.new script) := by
  refine resting_resume rfl rfl ?_
  exact {
    waits := fun _ isIn => nomatch isIn
    timers := fun _ isIn => nomatch isIn
    timerHandle := rfl
    dnslookupHandle := rfl
    operation := rfl
    waiting := rfl
    wantCommand := rfl
    strays := rfl
  }

-----------------------------------------------------------------------------------------
-- What one event does to a task
-----------------------------------------------------------------------------------------

/-- Everything that happens to a task is noted for its waits. -/
theorem getElem?_happens {task : Task} {happening : Happening} {number : Nat} {wait : Wait}
    (found : (task.happens happening).waits[number]? = some wait)
    : ∃ earlier, task.waits[number]? = some earlier ∧ wait = earlier.note happening := by
  obtain ⟨earlier, here, rfl⟩ := Option.map_eq_some_iff.mp ((List.getElem?_map ..).symm.trans found)
  exact ⟨earlier, here, rfl⟩

/-- A task rests if what happens does not end its wait. -/
theorem Resting.happens {task : Task} (resting : Resting task) {happening : Happening}
    (other : ∀ number, task.waiting = some number → happening.ends task.wantCommand = false)
    : Resting (task.happens happening) where
  settled number wait found different := by
    obtain ⟨earlier, here, rfl⟩ := getElem?_happens found
    exact (resting.settled number earlier here different).note happening
  current number waiting := by
    obtain ⟨wait, found, commands, goesOn⟩ := resting.current number waiting
    refine ⟨wait.note happening, ?_, commands, goesOn.note (commands ▸ other number waiting)⟩
    exact (List.getElem?_map ..).trans (congrArg (Option.map _) found)
  wantCommand := resting.wantCommand
  timers number timer found := by
    rcases resting.timers number timer found with spent | ⟨handle, callback, isSome, serves⟩
    · exact Or.inl spent
    · refine Or.inr ⟨handle, callback, isSome, ?_⟩
      cases serves with
      | waitIrc waiting => exact .waitIrc waiting
      | sleep waiting => exact .sleep waiting
  operation := resting.operation
  lookup := resting.lookup
  strays := resting.strays
  lives := by
    cases resting.lives with
    | suspended next co queued => exact .suspended next co queued
    | dead co queued waiting timer lookup => exact .dead co queued waiting timer lookup

/-- A task without a timer handle has only spent timers. -/
theorem Resting.spent {task : Task} (resting : Resting task) (noTimer : task.timerHandle = none)
    : ∀ timer ∈ task.timers, timer = .spent := by
  intro timer isIn
  obtain ⟨number, found⟩ := List.getElem?_of_mem isIn
  rcases resting.timers number timer found with spent | ⟨handle, _⟩
  · exact spent
  · rw [noTimer] at handle
    cases handle

/-- A task that waits for an IRC command has no operation and no lookup. -/
theorem Resting.no_operation {task : Task} (resting : Resting task) {number : Nat}
    (waiting : task.waiting = some number)
    : task.operation = none ∧ task.dnslookupHandle = none := by
  have noOperation : task.operation = none := by
    by_contra busy
    rw [(resting.operation busy).2] at waiting
    cases waiting
  refine ⟨noOperation, ?_⟩
  by_contra lookup
  rw [resting.lookup lookup] at noOperation
  cases noOperation

/-- A task whose last open wait ends is idle. -/
theorem idle_endWait {task : Task} {number : Nat} {given : Given}
    (waiting : task.waiting = some number)
    (others : ∀ other wait, task.waits[other]? = some wait → other ≠ number → wait.Settled)
    (this : ∀ wait, task.waits[number]? = some wait →
      { wait with resumed := wait.resumed ++ [given] }.Settled)
    (idle : Idle { task with waits := [], waiting := none })
    : Idle (task.endWait given) := by
  rw [Task.endWait, waiting]
  refine { idle with waits := ?_ }
  intro wait isIn
  obtain ⟨other, found⟩ := List.getElem?_of_mem isIn
  rw [List.getElem?_modify] at found
  obtain ⟨earlier, here, rfl⟩ := Option.map_eq_some_iff.mp found
  split
  · rename_i same
    exact this earlier (same ▸ here)
  · rename_i different
    exact others other earlier here (Ne.symm different)

/-- A task that has left its queue is in no wait. -/
theorem Resting.waiting_of_not_queued {task : Task} (resting : Resting task)
    (notQueued : task.queued = false)
    : task.waiting = none := by
  cases resting.lives with
  | suspended next co queued =>
      rw [queued] at notQueued
      cases notQueued
  | dead co queued noWait => exact noWait

/-- The message that ends a wait settles it, if there is no timer to cancel. -/
theorem Resting.received {task : Task} (resting : Resting task) (queued : task.queued = true)
    {irc : Irc} (wanted : irc.command ∈ task.wantCommand) (noTimer : task.timerHandle = none)
    : ∃ after, dispatch irc (task.happens (.received irc)) = .ok () after ∧ Resting after := by
  have isWanted : irc.command ∈ (task.happens (.received irc)).wantCommand := wanted
  refine ⟨_, (dispatch_of_wanted isWanted).trans (resumeIrc_ok_iff.mpr ⟨noTimer, rfl⟩), ?_⟩
  cases resting.lives with
  | dead co notQueued =>
      rw [notQueued] at queued
      cases queued
  | suspended next co =>
      refine resting_resume co queued ?_
      cases waiting : task.waiting with
      | none =>
          rw [resting.wantCommand queued waiting] at wanted
          cases wanted
      | some number =>
          obtain ⟨wait, found, commands, goesOn⟩ := resting.current number waiting
          obtain ⟨noOperation, noLookup⟩ := resting.no_operation waiting
          refine idle_endWait waiting ?_ ?_ ?_
          · intro other later noted different
            obtain ⟨earlier, here, rfl⟩ := getElem?_happens noted
            refine (resting.settled other earlier here ?_).note _
            rw [waiting]
            exact fun same => different (Option.some.inj same).symm
          · intro later noted
            obtain ⟨earlier, here, rfl⟩ := getElem?_happens noted
            obtain rfl := Option.some.inj (found.symm.trans here)
            refine goesOn.settles (.received irc) ?_
            rw [commands]
            exact decide_eq_true wanted
          · exact {
              waits := fun _ isIn => nomatch isIn
              timers := resting.spent noTimer
              timerHandle := noTimer
              dnslookupHandle := noLookup
              operation := noOperation
              waiting := rfl
              wantCommand := rfl
              strays := resting.strays
            }

/-- When the timer of a task has fired, all its timers are spent. -/
theorem Resting.spent_set {task : Task} (resting : Resting task) {number : Nat}
    (handle : task.timerHandle = some number)
    : ∀ timer ∈ task.timers.set number .spent, timer = .spent := by
  intro timer isIn
  obtain ⟨other, found⟩ := List.getElem?_of_mem isIn
  rw [List.getElem?_set] at found
  split at found
  · split at found
    · exact (Option.some.inj found).symm
    · cases found
  · rename_i different
    rcases resting.timers other timer found with spent | ⟨otherHandle, _⟩
    · exact spent
    · rw [handle] at otherHandle
      exact absurd (Option.some.inj otherHandle) different

/-- The timer of a wait settles it with nil. -/
theorem Resting.timedOut {task : Task} (resting : Resting task) {number wait : Nat}
    (handle : task.timerHandle = some number) (waiting : task.waiting = some wait)
    : ∃ after, Callback.call (.waitIrc wait)
          { task with timers := task.timers.set number .spent } = .ok () after
        ∧ Resting after := by
  have isSame : Callback.call (.waitIrc wait)
        { task with timers := task.timers.set number .spent }
      = resumeIrc none {
          { task with timers := task.timers.set number .spent }.timesOut wait with
          timerHandle := none } := rfl
  rw [isSame]
  refine ⟨_, resumeIrc_ok_iff.mpr ⟨rfl, rfl⟩, ?_⟩
  cases resting.lives with
  | dead co queued none =>
      rw [waiting] at none
      cases none
  | suspended next co queued =>
      obtain ⟨_, found, commands, goesOn⟩ := resting.current wait waiting
      obtain ⟨noOperation, noLookup⟩ := resting.no_operation waiting
      refine resting_resume co queued (idle_endWait waiting ?_ ?_ ?_)
      · intro other later noted different
        have here : task.waits[other]? = some later :=
          (List.getElem?_modify_ne _ _ (Ne.symm different)).symm.trans noted
        refine resting.settled other later here ?_
        rw [waiting]
        exact fun same => different (Option.some.inj same).symm
      · intro later noted
        have ended := (List.getElem?_modify_eq ..).symm.trans noted
        rw [found] at ended
        obtain rfl := Option.some.inj ended
        exact goesOn.settles .timedOut rfl
      · exact {
          waits := fun _ isIn => nomatch isIn
          timers := resting.spent_set handle
          timerHandle := rfl
          dnslookupHandle := noLookup
          operation := noOperation
          waiting := rfl
          wantCommand := rfl
          strays := (if_pos waiting).trans resting.strays
        }

/-- The timer of a sleep wakes the task. -/
theorem Resting.slept {task : Task} (resting : Resting task) {number : Nat}
    (handle : task.timerHandle = some number) (waiting : task.waiting = none)
    : ∃ after, Callback.call .sleep { task with timers := task.timers.set number .spent }
          = .ok () after
        ∧ Resting after := by
  refine ⟨_, rfl, ?_⟩
  cases resting.lives with
  | dead co queued noWait noTimer =>
      rw [handle] at noTimer
      cases noTimer
  | suspended next co queued =>
      have noOperation : task.operation = none := by
        by_contra busy
        rw [(resting.operation busy).1] at handle
        cases handle
      have noLookup : task.dnslookupHandle = none := by
        by_contra lookup
        rw [resting.lookup lookup] at noOperation
        cases noOperation
      have idle : Idle {
          task with timers := task.timers.set number .spent, timerHandle := none } := {
        waits := by
          intro wait isIn
          obtain ⟨other, found⟩ := List.getElem?_of_mem isIn
          exact resting.settled other wait found (by simp [waiting])
        timers := resting.spent_set handle
        timerHandle := rfl
        dnslookupHandle := noLookup
        operation := noOperation
        waiting
        wantCommand := resting.wantCommand queued waiting
        strays := resting.strays
      }
      exact resting_resume co queued (idle.endWait _)

/-- The handler of a timer raises nothing, and the task of a timer is in its queue. -/
theorem Resting.handler {task : Task} (resting : Resting task) {number : Nat}
    {timer : TaskTimer} (found : task.timers[number]? = some timer)
    (expired : timer.status = .expired)
    : task.queued = true
      ∧ ∃ after, timerHandler number timer task = .ok () after ∧ Resting after := by
  rcases resting.timers number timer found with rfl | ⟨handle, callback, isSome, serves⟩
  · cases expired
  · have queued : task.queued = true := by
      cases resting.lives with
      | suspended next co queued => exact queued
      | dead co queued waiting noTimer =>
          rw [handle] at noTimer
          cases noTimer
    refine ⟨queued, ?_⟩
    have calls : timerHandler number timer task
        = callback.call { task with timers := task.timers.set number .spent } := by
      rw [timerHandler, Action.modify_bind, isSome]
      rfl
    rw [calls]
    cases serves with
    | waitIrc waiting => exact resting.timedOut handle waiting
    | sleep waiting => exact resting.slept handle waiting

/-- A timer whose status alone changes keeps the task at rest. -/
theorem Resting.set_status {task : Task} (resting : Resting task) {number : Nat}
    {timer : TaskTimer} (found : task.timers[number]? = some timer)
    (notSpent : timer.status ≠ .done) (status : WaitStatus)
    : Resting { task with timers := task.timers.set number { timer with status } } where
  settled := resting.settled
  current := resting.current
  wantCommand := resting.wantCommand
  timers other later foundLater := by
    rw [List.getElem?_set] at foundLater
    split at foundLater
    · rename_i same
      split at foundLater
      · obtain rfl := Option.some.inj foundLater
        rcases resting.timers number timer found with rfl | ⟨handle, callback, isSome, serves⟩
        · exact absurd rfl notSpent
        · refine Or.inr ⟨same ▸ handle, callback, isSome, ?_⟩
          cases serves with
          | waitIrc waiting => exact .waitIrc waiting
          | sleep waiting => exact .sleep waiting
      · cases foundLater
    · rcases resting.timers other later foundLater with spent | ⟨handle, callback, isSome, serves⟩
      · exact Or.inl spent
      · refine Or.inr ⟨handle, callback, isSome, ?_⟩
        cases serves with
        | waitIrc waiting => exact .waitIrc waiting
        | sleep waiting => exact .sleep waiting
  operation := resting.operation
  lookup := resting.lookup
  strays := resting.strays
  lives := by
    cases resting.lives with
    | suspended next co queued => exact .suspended next co queued
    | dead co queued waiting noTimer noLookup =>
        exact .dead co queued waiting noTimer noLookup

/-- A dead task rests when all its waits are settled and all its timers are spent. -/
theorem resting_dead {task : Task} (co : task.co = .dead) (queued : task.queued = false)
    (settled : ∀ (number : Nat) (wait : Wait), task.waits[number]? = some wait → wait.Settled)
    (spent : ∀ timer ∈ task.timers, timer = .spent) (noTimer : task.timerHandle = none)
    (noLookup : task.dnslookupHandle = none) (noWait : task.waiting = none)
    (noStray : task.strays = [])
    : Resting task where
  settled number wait found _ := settled number wait found
  current _ waiting := absurd (noWait.symm.trans waiting) (Option.some_ne_none _).symm
  wantCommand isQueued _ := absurd (queued.symm.trans isQueued) Bool.false_ne_true
  timers _ timer found := Or.inl (spent timer (List.mem_of_getElem? found))
  operation _ := ⟨noTimer, noWait⟩
  lookup lookup := absurd noLookup lookup
  strays := noStray
  lives := .dead co queued noWait noTimer noLookup

/-- The callback of an operation raises nothing. A dead task cannot be resumed, which is only
reported.
-/
theorem Resting.completes {task : Task} (resting : Resting task) {operation : Operation}
    (outstanding : task.operation = some operation) (values : List (Option Bytes))
    : ∃ after, completeOperation operation values task = .ok () after ∧ Resting after
        ∧ (task.queued = false → after.queued = false) := by
  have busy : task.operation ≠ none := by simp [outstanding]
  obtain ⟨noTimer, noWait⟩ := resting.operation busy
  have forgotten : completeOperation operation values task
      = .ok () ({ task with operation := none, dnslookupHandle := none }.resume
          (.values values)) := by
    cases operation with
    | dnslookup => rfl
    | other =>
        have noLookup : task.dnslookupHandle = none := by
          by_contra lookup
          rw [resting.lookup lookup] at outstanding
          cases outstanding
        rw [← noLookup]
        rfl
  have settled : ∀ (number : Nat) (wait : Wait), task.waits[number]? = some wait →
      wait.Settled :=
    fun number wait found => resting.settled number wait found (by simp [noWait])
  refine ⟨_, forgotten, ?_⟩
  cases resting.lives with
  | suspended next co queued =>
      have idle : Idle { task with operation := none, dnslookupHandle := none } := {
        waits := by
          intro wait isIn
          obtain ⟨number, found⟩ := List.getElem?_of_mem isIn
          exact settled number wait found
        timers := resting.spent noTimer
        timerHandle := noTimer
        dnslookupHandle := rfl
        operation := rfl
        waiting := noWait
        wantCommand := resting.wantCommand queued noWait
        strays := resting.strays
      }
      refine ⟨resting_resume co queued (idle.endWait _), fun notQueued => ?_⟩
      rw [queued] at notQueued
      cases notQueued
  | dead co queued =>
      have refused : { task with operation := none, dnslookupHandle := none }.resume
            (.values values)
          = {
              task with
              operation := none
              dnslookupHandle := none
              queued := false
              statuses := task.statuses ++ [lit "cannot resume dead coroutine"]
            } := by
        rw [Task.resume, show task.co = .dead from co]
        simp only [State.resume, Task.leaveQueue]
      rw [refused]
      exact ⟨resting_dead co rfl settled (resting.spent noTimer) noTimer rfl noWait
        resting.strays, fun _ => rfl⟩

/-- A task that is cancelled is dead, and its wait is not resumed. -/
theorem Resting.cancelled {task : Task} (resting : Resting task)
    (noTimer : task.timerHandle = none) (noLookup : task.dnslookupHandle = none)
    : Resting { task.happens .closed with queued := false, co := .dead, waiting := none } := by
  have closed : ∀ (number : Nat) (wait : Wait),
      (task.happens .closed).waits[number]? = some wait → wait.Settled := by
    intro number wait noted
    obtain ⟨earlier, here, rfl⟩ := getElem?_happens noted
    by_cases waiting : task.waiting = some number
    · obtain ⟨_, found, _, goesOn⟩ := resting.current number waiting
      obtain rfl := Option.some.inj (found.symm.trans here)
      have settles := goesOn.settles .closed rfl
      rwa [Happening.outcome, List.append_nil] at settles
    · exact (resting.settled number earlier here waiting).note .closed
  exact resting_dead rfl rfl closed (resting.spent noTimer) noTimer noLookup rfl resting.strays

-----------------------------------------------------------------------------------------
-- Runs
-----------------------------------------------------------------------------------------

/-- A state in which all events so far were handled. -/
structure Safe (world : World) : Prop where
  raised : world.raised = []
  resting : ∀ task ∈ world.tasks, Resting task
  closed : world.closed = true → ∀ task ∈ world.tasks, task.queued = false

/-- The task of a callback is replaced. -/
theorem Safe.set {world : World} (safe : Safe world) {number : Nat} {task after : Task}
    (found : world.tasks[number]? = some task) (resting : Resting after)
    (queued : task.queued = false → after.queued = false)
    : Safe { world with tasks := world.tasks.set number after } where
  raised := safe.raised
  resting other isIn := by
    rcases List.mem_or_eq_of_mem_set isIn with before | rfl
    · exact safe.resting other before
    · exact resting
  closed closed other isIn := by
    rcases List.mem_or_eq_of_mem_set isIn with before | rfl
    · exact safe.closed closed other before
    · exact queued (safe.closed closed task (List.mem_of_getElem? found))

/-- A callback that raises nothing replaces its task. -/
theorem callback_of_ok {world : World} {number : Nat} {task after : Task} {action : Act Unit}
    (ends : action task = .ok () after)
    : world.callback number task action = { world with tasks := world.tasks.set number after } := by
  rw [World.callback, ends]

/-- The dispatch of a message ends if it cancels nothing. -/
theorem Safe.dispatches {world : World} (safe : Safe world) {irc : Irc}
    (nothing : ∀ task ∈ world.tasks, task.queued = true → irc.command ∈ task.wantCommand →
      task.timerHandle = none)
    : ∀ task ∈ world.tasks, task.queued = true →
      ∃ after, dispatch irc (task.happens (.received irc)) = .ok () after ∧ Resting after := by
  intro task isIn queued
  by_cases wanted : irc.command ∈ task.wantCommand
  · exact (safe.resting task isIn).received queued wanted (nothing task isIn queued wanted)
  · refine ⟨_, dispatch_of_unwanted wanted, (safe.resting task isIn).happens ?_⟩
    exact fun _ _ => decide_eq_false wanted

/-- A message leaves the state safe if it cancels nothing. -/
theorem Safe.message {world : World} (safe : Safe world) (isOpen : world.closed = false)
    {irc : Irc} (nothing : NothingToCancel world (.message irc))
    : Safe (world.message irc) := by
  have dispatches := safe.dispatches (nothing isOpen)
  have ends : (forQueued (dispatch irc) (world.tasks.map (·.happens (.received irc)))).2
      = none := by
    rw [forQueued_eq_none_iff]
    intro noted isIn queued
    obtain ⟨task, member, rfl⟩ := List.mem_map.mp isIn
    obtain ⟨after, done, _⟩ := dispatches task member queued
    exact ⟨after, done⟩
  refine ⟨?_, ?_, fun closed => absurd (isOpen.symm.trans closed) Bool.false_ne_true⟩
  · change world.raised ++ _ = []
    rw [ends, safe.raised]
    rfl
  · intro after isIn
    obtain ⟨noted, noteIsIn, here⟩ := mem_forQueued ends isIn
    obtain ⟨task, member, rfl⟩ := List.mem_map.mp noteIsIn
    rcases here with ⟨notQueued, rfl⟩ | ⟨queued, done⟩
    · refine (safe.resting task member).happens ?_
      intro number waiting
      rw [(safe.resting task member).waiting_of_not_queued notQueued] at waiting
      cases waiting
    · obtain ⟨other, otherDone, resting⟩ := dispatches task member queued
      rw [done] at otherDone
      cases otherDone
      exact resting

/-- A disconnect goes through if it cancels nothing, and no task is left. -/
theorem Safe.disconnect {world : World} (safe : Safe world) (isOpen : world.closed = false)
    (nothing : NothingToCancel world .disconnect)
    : Safe world.disconnect ∧ world.disconnect.closed = true := by
  have ends : (forQueued cancel (world.tasks.map (·.happens .closed))).2 = none := by
    rw [forQueued_eq_none_iff]
    intro noted isIn queued
    obtain ⟨task, member, rfl⟩ := List.mem_map.mp isIn
    obtain ⟨noTimer, noLookup⟩ := nothing isOpen task member queued
    exact ⟨_, cancel_ok_iff.mpr ⟨noTimer, noLookup, rfl⟩⟩
  have result : world.disconnect = {
      world with
      tasks := (forQueued cancel (world.tasks.map (·.happens .closed))).1
      closed := true
    } := by
    rw [World.disconnect]
    split
    · rename_i tasks loop
      rw [loop]
    · rename_i tasks error loop
      rw [loop] at ends
      cases ends
  have cancelled : ∀ after ∈ (forQueued cancel (world.tasks.map (·.happens .closed))).1,
      Resting after ∧ after.queued = false := by
    intro after isIn
    obtain ⟨noted, noteIsIn, here⟩ := mem_forQueued ends isIn
    obtain ⟨task, member, rfl⟩ := List.mem_map.mp noteIsIn
    have resting := safe.resting task member
    rcases here with ⟨notQueued, rfl⟩ | ⟨queued, done⟩
    · refine ⟨resting.happens ?_, notQueued⟩
      intro number waiting
      rw [resting.waiting_of_not_queued notQueued] at waiting
      cases waiting
    · obtain ⟨noTimer, noLookup, rfl⟩ := cancel_ok_iff.mp done
      exact ⟨resting.cancelled noTimer noLookup, rfl⟩
  rw [result]
  exact ⟨⟨safe.raised, fun task isIn => (cancelled task isIn).1,
    fun _ task isIn => (cancelled task isIn).2⟩, rfl⟩

/-- An event that cancels nothing is handled. -/
theorem Safe.step {world after : World} {event : Event} (safe : Safe world)
    (nothing : NothingToCancel world event) (moves : step world event = some after)
    : Safe after ∧ (event = .disconnect → after.closed = true) := by
  cases event with
  | spawn script =>
      refine ⟨?_, by rintro ⟨⟩⟩
      rw [WaitIrc.step] at moves
      split at moves
      · cases moves
      · rename_i isOpen
        obtain rfl := Option.some.inj moves
        refine ⟨safe.raised, ?_, fun closed => absurd closed isOpen⟩
        intro task isIn
        rcases List.mem_append.mp isIn with before | new
        · exact safe.resting task before
        · obtain rfl := List.mem_singleton.mp new
          exact resting_new script
  | reorder order =>
      refine ⟨?_, by rintro ⟨⟩⟩
      rw [WaitIrc.step] at moves
      split at moves
      · obtain rfl := Option.some.inj moves
        have earlier : ∀ task ∈ order.filterMap (world.tasks[·]?), task ∈ world.tasks := by
          intro task isIn
          obtain ⟨number, _, found⟩ := List.mem_filterMap.mp isIn
          exact List.mem_of_getElem? found
        exact ⟨safe.raised, fun task isIn => safe.resting task (earlier task isIn),
          fun closed task isIn => safe.closed closed task (earlier task isIn)⟩
      · cases moves
  | message irc =>
      refine ⟨?_, by rintro ⟨⟩⟩
      obtain rfl := Option.some.inj moves
      split
      · exact safe
      · rename_i isOpen
        exact safe.message (Bool.not_eq_true _ ▸ isOpen) nothing
  | expire number timerNumber =>
      refine ⟨?_, by rintro ⟨⟩⟩
      obtain ⟨task, found, rest⟩ := Option.bind_eq_some_iff.mp moves
      obtain ⟨timer, timerFound, last⟩ := Option.bind_eq_some_iff.mp rest
      split at last
      · rename_i outstanding
        obtain rfl := Option.some.inj last
        have resting := safe.resting task (List.mem_of_getElem? found)
        exact safe.set found
          (resting.set_status timerFound (by rw [outstanding]; rintro ⟨⟩) .expired) id
      · cases last
  | handler number timerNumber =>
      refine ⟨?_, by rintro ⟨⟩⟩
      obtain ⟨task, found, rest⟩ := Option.bind_eq_some_iff.mp moves
      obtain ⟨timer, timerFound, last⟩ := Option.bind_eq_some_iff.mp rest
      have resting := safe.resting task (List.mem_of_getElem? found)
      cases status : timer.status with
      | expired =>
          obtain ⟨queued, next, ends, nextRests⟩ := resting.handler timerFound status
          rw [status] at last
          obtain rfl := Option.some.inj last
          rw [callback_of_ok ends]
          refine safe.set found nextRests (fun notQueued => ?_)
          rw [queued] at notQueued
          cases notQueued
      | cancelled =>
          rw [status] at last
          obtain rfl := Option.some.inj last
          exact safe.set found
            (resting.set_status timerFound (by rw [status]; rintro ⟨⟩) .done) id
      | outstanding =>
          rw [status] at last
          cases last
      | done =>
          rw [status] at last
          cases last
  | completes number values =>
      refine ⟨?_, by rintro ⟨⟩⟩
      obtain ⟨task, found, rest⟩ := Option.bind_eq_some_iff.mp moves
      obtain ⟨operation, outstanding, last⟩ := Option.bind_eq_some_iff.mp rest
      obtain rfl := Option.some.inj last
      have resting := safe.resting task (List.mem_of_getElem? found)
      obtain ⟨next, ends, nextRests, queued⟩ := resting.completes outstanding values
      rw [callback_of_ok ends]
      exact safe.set found nextRests queued
  | disconnect =>
      obtain rfl := Option.some.inj moves
      split
      · rename_i closed
        exact ⟨safe, fun _ => closed⟩
      · rename_i isOpen
        obtain ⟨isSafe, closed⟩ := safe.disconnect (Bool.not_eq_true _ ▸ isOpen) nothing
        exact ⟨isSafe, fun _ => closed⟩

/-- Every wait of a task at rest was resumed as it is due. -/
theorem Resting.resumed {task : Task} (resting : Resting task)
    : ∀ wait ∈ task.waits, wait.resumed = wait.due := by
  intro wait isIn
  obtain ⟨number, found⟩ := List.getElem?_of_mem isIn
  by_cases waiting : task.waiting = some number
  · obtain ⟨current, here, _, goesOn⟩ := resting.current number waiting
    obtain rfl := Option.some.inj (found.symm.trans here)
    exact goesOn.due
  · exact (resting.settled number wait found waiting).resumed

/-- An event that leads to a safe state is handled. -/
theorem Safe.handled {event : Event} {after : World} (safe : Safe after)
    (closes : event = .disconnect → after.closed = true)
    : Handled event after where
  raisesNothing := safe.raised
  resumes task isIn := (safe.resting task isIn).resumed
  strays task isIn := (safe.resting task isIn).strays
  closes
  cancelled closed task isIn := by
    have notQueued := safe.closed closed task isIn
    refine ⟨notQueued, ?_⟩
    cases (safe.resting task isIn).lives with
    | suspended next co queued =>
        rw [queued] at notQueued
        cases notQueued
    | dead co => exact co

/-- A message that raises no error cancels nothing. -/
theorem nothingToCancel_message {world : World} {irc : Irc}
    (raisesNothing : (world.message irc).raised = [])
    : NothingToCancel world (.message irc) := by
  intro _ task isIn queued wanted
  have ends : (forQueued (dispatch irc) (world.tasks.map (·.happens (.received irc)))).2
      = none := by
    have noError := (List.append_eq_nil_iff.mp raisesNothing).2
    exact Option.toList_eq_nil_iff.mp noError
  obtain ⟨after, done⟩ := forQueued_eq_none_iff.mp ends _ (List.mem_map_of_mem isIn) queued
  have isWanted : irc.command ∈ (task.happens (.received irc)).wantCommand := wanted
  exact (resumeIrc_ok_iff.mp ((dispatch_of_wanted isWanted).symm.trans done)).1

/-- A disconnect that raises no error cancels nothing. -/
theorem nothingToCancel_disconnect {world : World}
    (raisesNothing : world.disconnect.raised = [])
    : NothingToCancel world .disconnect := by
  intro _ task isIn queued
  have ends : (forQueued cancel (world.tasks.map (·.happens .closed))).2 = none := by
    rw [World.disconnect] at raisesNothing
    split at raisesNothing
    · rename_i tasks loop
      rw [loop]
    · exact absurd (List.append_eq_nil_iff.mp raisesNothing).2 (List.cons_ne_nil _ _)
  obtain ⟨after, done⟩ := forQueued_eq_none_iff.mp ends _ (List.mem_map_of_mem isIn) queued
  obtain ⟨noTimer, noLookup, _⟩ := cancel_ok_iff.mp done
  exact ⟨noTimer, noLookup⟩

/-- An event that is handled cancels nothing. -/
theorem Handled.nothingToCancel {world after : World} {event : Event}
    (handled : Handled event after) (moves : step world event = some after)
    : NothingToCancel world event := by
  have raisesNothing := handled.raisesNothing
  cases event with
  | message irc =>
      obtain rfl := Option.some.inj moves
      intro isOpen
      rw [if_neg (by rw [isOpen]; rintro ⟨⟩)] at raisesNothing
      exact nothingToCancel_message raisesNothing isOpen
  | disconnect =>
      obtain rfl := Option.some.inj moves
      intro isOpen
      rw [if_neg (by rw [isOpen]; rintro ⟨⟩)] at raisesNothing
      exact nothingToCancel_disconnect raisesNothing isOpen
  | spawn script => trivial
  | reorder order => trivial
  | expire task timer => trivial
  | handler task timer => trivial
  | completes task values => trivial

/-- The start of a connection is safe. -/
theorem safe_start : Safe .start where
  raised := rfl
  resting _ isIn := nomatch isIn
  closed closed := absurd closed Bool.false_ne_true

/-- In every run, every event is handled exactly as long as none of them finds a timer or a
lookup to cancel.
-/
theorem waits_handled_iff (events : List Event)
    : Along step (fun _ event after => Handled event after) .start events
      ↔ Along step (fun world event _ => NothingToCancel world event) .start events := by
  have agree : ∀ world event after, Safe world → step world event = some after →
      (Handled event after ↔ NothingToCancel world event) := by
    intro world event after safe moves
    constructor
    · exact fun handled => handled.nothingToCancel moves
    · intro nothing
      obtain ⟨isSafe, closes⟩ := safe.step nothing moves
      exact isSafe.handled closes
  refine along_iff events safe_start ?_ agree
  intro world event after safe moves handled
  exact (safe.step (handled.nothingToCancel moves) moves).1

/-- A task that waits once for a reply, a second at most. -/
def waitsOnce : Script :=
  .yields (.waitIrc [.reply 903] (some 1000)) (fun _ => .returns ())

/-- The reply that it waits for. -/
def awaitedReply : Irc :=
  { command := .reply 903, args := [lit "nick", lit "SASL authentication successful"] }

/-- The reply comes before the timeout, and the task is resumed with nil. -/
def lostReply : List Event :=
  [.spawn waitsOnce, .message awaitedReply, .expire 0 0, .handler 0 0]

/-- The reply that ends a timed wait raises an error instead, and the timer resumes the task
with nil. A disconnect in place of the reply does not return.
-/
theorem lostReply_not_handled
    : ((run step .start lostReply).map (fun world => (world.raised, world.tasks.map (·.waits)))
          = some (
            ["bad argument #1 to 'cancel' (steady_timer expected, got no value)"],
            [[{
              commands := [.reply 903]
              history := [.received awaitedReply, .timedOut]
              resumed := [.irc none]
            }]]))
      ∧ (run step .start [.spawn waitsOnce, .disconnect]).map (·.closed) = some false
      ∧ ¬ Along step (fun _ event after => Handled event after) .start lostReply := by
  refine ⟨rfl, rfl, fun along => ?_⟩
  obtain ⟨_, later⟩ := along _ rfl
  exact absurd (later _ rfl).1.raisesNothing (List.cons_ne_nil _ _)

end Snowcone.Tasks.WaitIrc
