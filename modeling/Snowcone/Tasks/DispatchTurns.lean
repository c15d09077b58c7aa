import Snowcone.Tasks.DispatchBodies

/-! When a loop over the tasks is a fair one: nothing is put into the table that it goes through,
and every task that was waiting for the message gets it once.
-/

namespace Snowcone.Tasks.Dispatch

open Bytes Coroutine
open WaitIrc (Command Irc Given)

variable {world after : World} {number : Nat} {task : Task}

-----------------------------------------------------------------------------------------
-- Steps
-----------------------------------------------------------------------------------------

/-- A loop that goes on, in a connection that is open. -/
structure Loop.GoesOn (loop : Loop) (closed : Bool) (started : Nat) : Prop where
  isOpen : closed = false
  nodup : loop.rest.Nodup
  inside : ∀ number, loop.queue number = true → number < started

/-- A loop goes on when more tasks were started. -/
theorem Loop.GoesOn.more {loop : Loop} {closed : Bool} {started more : Nat}
    (goesOn : loop.GoesOn closed started) (grows : started ≤ more)
    : loop.GoesOn closed more :=
  ⟨goesOn.isOpen, goesOn.nodup,
    fun number isQueued => (goesOn.inside number isQueued).trans_le grows⟩

/-- The client between two things that happen. -/
structure Idle (world : World) : Prop extends Sound world where
  rests : ∀ number, (world.tasks number).co ≠ .running
  goesOn : ∀ loop, world.loop = some loop → loop.GoesOn world.closed world.started

/-- A task is resumed, and suspends again or is over. -/
theorem Idle.resumes (idle : Idle world) (inside : number < world.started)
    (notPrompting : world.passwordTask ≠ some number)
    (noWants : (world.tasks number).wantCommand = []) (given : Given)
    : Idle (Dispatch.resume maxCCalls world number given)
      ∧ (Dispatch.resume maxCCalls world number given).loop = world.loop := by
  have resumes := resumes_resume maxCCalls
  have goesOn := resumes.goesOn world number given
  refine ⟨{
    toSound := resumes.sound world number given idle.toSound inside notPrompting noWants
    rests := fun other isRunning => idle.rests other (goesOn.running other isRunning)
    goesOn := fun loop isLoop => ?_
  }, goesOn.loop⟩
  rw [goesOn.loop] at isLoop
  rw [goesOn.closed]
  exact (idle.goesOn loop isLoop).more goesOn.started

/-- A task goes on in a way that fits, and does not run. -/
theorem Idle.set (idle : Idle world) (inside : number < world.started)
    (password : world.passwordTask = some number → task.suspension = some .password)
    (wants : task.suspension ≠ some .irc → task.wantCommand = [])
    (rests : task.co ≠ .running) (alive : world.queue number = true → task.co ≠ .dead)
    : Idle (world.set number task) where
  toSound := idle.toSound.set inside (fun isPrompting => .inl (password isPrompting)) wants
    (fun isRunning => absurd isRunning rests) alive
  rests := @forall_set world number task (fun _ task => task.co ≠ .running)
    (fun other _ => idle.rests other) rests
  goesOn := idle.goesOn

/-- What prompts is suspended for its password. -/
theorem Idle.asking (idle : Idle world) (isPrompting : world.passwordTask = some number)
    : (world.tasks number).suspension = some .password :=
  (idle.toSound.password number isPrompting).resolve_right (idle.rests number)

/-- A task that is suspended for something was started. -/
theorem Idle.started (idle : Idle world) {suspension : Suspension}
    (suspended : (world.tasks number).suspension = some suspension)
    : number < world.started := by
  by_contra beyond
  cases suspended.symm.trans (idle.fresh number (Nat.le_of_not_lt beyond)).2.2

/-- A task of the table that waits for a command can be resumed with it. -/
theorem Idle.waits (idle : Idle world) (isQueued : world.queue number = true) {command : Command}
    (wanted : command ∈ (world.tasks number).wantCommand)
    : number < world.started ∧ world.passwordTask ≠ some number
      ∧ ∃ next, (world.tasks number).co = .suspended next := by
  refine ⟨idle.toSound.inside isQueued, fun isPrompting => ?_, ?_⟩
  · rw [(idle.toSound.prompting isPrompting).2] at wanted
    cases wanted
  · cases isCo : (world.tasks number).co with
    | suspended next => exact ⟨next, rfl⟩
    | running => exact absurd isCo (idle.rests number)
    | dead => exact absurd isCo (idle.alive number isQueued)

/-- A task that waits is resumed with a message, or with nothing. -/
theorem Idle.gets (idle : Idle world) (inside : number < world.started)
    (notPrompting : world.passwordTask ≠ some number) (irc : Option Irc)
    (moves : resumeIrc world number irc = .ok after)
    : Idle after ∧ after.loop = world.loop := by
  rw [resumeIrc, ite_eq_iff] at moves
  obtain ⟨-, moves⟩ | ⟨-, moves⟩ := moves
  · cases moves
  · obtain rfl := Except.ok.inj moves
    have unwanted : Idle (world.set number { world.tasks number with wantCommand := [] }) :=
      idle.set inside (fun isPrompting => absurd isPrompting notPrompting) (fun _ => rfl)
        (idle.rests number) (idle.alive number)
    exact unwanted.resumes inside notPrompting (by rw [set_self]) _

/-- A turn of the loop. -/
theorem Idle.turns (idle : Idle world) {loop : Loop} (isLoop : world.loop = some loop)
    : Idle (turn world loop) := by
  obtain ⟨isOpen, nodup, started⟩ := idle.goesOn loop isLoop
  have visits (rest : List Nat) (distinct : rest.Nodup) (raised : List String)
      : Idle { world with loop := some { loop with rest }, raised } := {
    idle with
    goesOn := by
      rintro _ ⟨⟩
      exact ⟨isOpen, distinct, started⟩
  }
  unfold turn
  cases isRest : loop.rest with
  | nil => exact { idle with goesOn := by rintro _ ⟨⟩ }
  | cons number rest =>
      rw [isRest] at nodup
      have visited := visits rest nodup.of_cons world.raised
      dsimp only
      split
      · rename_i waits
        obtain ⟨inside, notPrompting, -⟩ := idle.waits waits.1 waits.2
        split
        · rename_i next isNext
          exact (visited.gets inside notPrompting _ isNext).1
        · exact visits [] .nil _
      · exact visited

/-- Cancelling all tasks, by induction on them. -/
theorem idle_disconnect (idle : Idle world) (noLoop : world.loop = none) {order : List Nat}
    (inside : ∀ number ∈ order, number < world.started)
    : Idle (disconnect world order) ∧ (disconnect world order).loop = none := by
  induction order generalizing world with
  | nil =>
      refine ⟨{ idle with goesOn := ?_ }, noLoop⟩
      intro loop (isLoop : world.loop = some loop)
      cases noLoop.symm.trans isLoop
  | cons number rest ih =>
      obtain ⟨here, later⟩ := List.forall_mem_cons.mp inside
      have left : Idle (world.leave number) := {
        toSound := idle.toSound.leave number, rests := idle.rests, goesOn := idle.goesOn }
      rw [disconnect]
      unfold cancel
      dsimp only
      split
      · rename_i next isNext
        split at isNext
        · cases isNext
        · split at isNext
          · cases isNext
          · obtain rfl := congrArg Prod.fst isNext
            refine ih (left.set here left.asking (left.wants number) Co.noConfusion ?_) noLoop later
            intro isQueued
            cases leave_self.symm.trans isQueued
      · rename_i next error isNext
        split at isNext
        · obtain rfl := congrArg Prod.fst isNext
          exact ⟨{ left with }, noLoop⟩
        · split at isNext
          · obtain rfl := congrArg Prod.fst isNext
            exact ⟨{ left with }, noLoop⟩
          · cases isNext

/-- Where there is no loop nothing is asked of it. -/
theorem held_of_none (noLoop : world.loop = none) : Held world := by
  intro loop isLoop
  cases noLoop.symm.trans isLoop

/-- What happens outside of the loop; a loop that begins is fair. -/
theorem Idle.outside (idle : Idle world) (noLoop : world.loop = none) {event : Event}
    (moves : stepOutside world event = some after)
    : Idle after ∧ Held after := by
  have ends {world after : World} (goesOn : Idle after ∧ after.loop = world.loop)
      (noLoop : world.loop = none)
      : Idle after ∧ Held after :=
    ⟨goesOn.1, held_of_none (goesOn.2.trans noLoop)⟩
  have isNew (main : Script) : (world.insert main).tasks world.started = .new main :=
    Function.update_self _ _ _
  have restsNew (main : Script) (number : Nat)
      : ((world.create main).tasks number).co ≠ .running :=
    @forall_set { world with started := world.started + 1 } world.started (.new main)
      (fun _ task => task.co ≠ .running) (fun other _ => idle.rests other) Co.noConfusion number
  have goesOn (loop : Loop) (isLoop : world.loop = some loop)
      : loop.GoesOn world.closed (world.started + 1) :=
    (idle.goesOn loop isLoop).more (Nat.le_succ _)
  have notPrompting := (idle.fresh world.started (Nat.le_refl _)).2.1
  cases event with
  | starts main =>
      rw [stepOutside, ite_eq_iff] at moves
      obtain ⟨-, moves⟩ | ⟨-, moves⟩ := moves
      · cases moves
      · obtain rfl := Option.some.inj moves
        have inserted : Idle (world.insert main) := {
          toSound := idle.toSound.insert main, rests := restsNew main, goesOn := goesOn }
        exact ends (inserted.resumes (Nat.lt_succ_self _) notPrompting (by rw [isNew]; rfl) _)
          noLoop
  | startsElsewhere main =>
      obtain rfl := Option.some.inj moves
      have created : Idle (world.create main) := {
        toSound := idle.toSound.create main, rests := restsNew main, goesOn := goesOn }
      exact ends (created.resumes (Nat.lt_succ_self _) notPrompting (congrArg _ (isNew main)) _)
        noLoop
  | message irc order =>
      rw [stepOutside, ite_eq_iff] at moves
      obtain ⟨⟨isOpen, isOrder⟩, moves⟩ | ⟨-, moves⟩ := moves
      · obtain rfl := Option.some.inj moves
        have nodup : order.Nodup := isOrder.nodup_iff.mpr (List.nodup_range.filter _)
        refine ⟨{ idle with goesOn := ?_ }, ?_⟩
        · rintro _ ⟨⟩
          exact ⟨isOpen, nodup, fun _ => idle.toSound.inside⟩
        · rintro _ ⟨⟩
          refine ⟨rfl, fun number _ waited => ⟨waited.1, rfl⟩, fun number unvisited waited => ?_⟩
          refine absurd (isOrder.mem_iff.mpr ?_) unvisited
          have inside := (idle.waits waited.1 waited.2).1
          exact List.mem_filter.mpr ⟨List.mem_range.mpr inside, waited.1⟩
      · cases moves
  | turn => cases moves
  | answers values =>
      rw [stepOutside] at moves
      cases isTask : world.passwordTask with
      | none =>
          rw [isTask] at moves
          cases moves
      | some task =>
          rw [isTask] at moves
          obtain rfl := Option.some.inj moves
          obtain ⟨inside, noWants⟩ := idle.toSound.prompting isTask
          have closed : Idle { world with passwordTask := none } := {
            idle with
            password := by rintro _ ⟨⟩
            fresh := fun other beyond =>
              ⟨(idle.fresh other beyond).1, (Option.some_ne_none _).symm,
                (idle.fresh other beyond).2.2⟩
          }
          exact ends (@Idle.resumes { world with passwordTask := none } task closed inside
            (Option.some_ne_none _).symm noWants _) noLoop
  | wakes task values =>
      rw [stepOutside] at moves
      split at moves
      · rename_i pause suspended
        obtain rfl := Option.some.inj moves
        have noWants : (world.tasks task).wantCommand = [] := by
          apply idle.wants
          rw [suspended]
          rintro ⟨⟩
        have notPrompting : world.passwordTask ≠ some task := by
          intro isPrompting
          cases suspended.symm.trans (idle.asking isPrompting)
        have called : ((world.tasks task).calledBack pause).co = (world.tasks task).co
            ∧ ((world.tasks task).calledBack pause).wantCommand = [] := by
          cases pause <;> exact ⟨rfl, noWants⟩
        have back : Idle (world.set task ((world.tasks task).calledBack pause)) := by
          apply idle.set (idle.started suspended)
          · exact fun isPrompting => absurd isPrompting notPrompting
          · exact fun _ => called.2
          · rw [called.1]
            exact idle.rests task
          · rw [called.1]
            exact idle.alive task
        have noWants' := (congrArg Task.wantCommand (@set_self world task _)).trans called.2
        exact ends (back.resumes (idle.started suspended) notPrompting noWants' _) noLoop
      · cases moves
      · cases moves
      · cases moves
  | timesOut task =>
      rw [stepOutside] at moves
      rw [ite_eq_iff] at moves
      obtain ⟨⟨suspended, -⟩, moves⟩ | ⟨-, moves⟩ := moves
      · have notPrompting : world.passwordTask ≠ some task := by
          intro isPrompting
          cases suspended.symm.trans (idle.asking isPrompting)
        have fired : Idle (world.set task { world.tasks task with timerHandle := false }) :=
          idle.set (idle.started suspended) (fun isPrompting => absurd isPrompting notPrompting)
            (idle.wants task) (idle.rests task) (idle.alive task)
        cases isResumed : resumeIrc (world.set task { world.tasks task with timerHandle := false })
            task none with
        | error message =>
            rw [isResumed] at moves
            cases moves
        | ok next =>
            rw [isResumed] at moves
            obtain rfl := Option.some.inj moves
            exact ends (fired.gets (idle.started suspended) notPrompting none isResumed) noLoop
      · cases moves
  | disconnect order =>
      rw [stepOutside, ite_eq_iff] at moves
      obtain ⟨⟨-, isOrder⟩, moves⟩ | ⟨-, moves⟩ := moves
      · obtain rfl := Option.some.inj moves
        obtain ⟨ended, stillNone⟩ := @idle_disconnect world idle noLoop order fun number member =>
          List.mem_range.mp (List.mem_filter.mp (isOrder.mem_iff.mp member)).1
        exact ⟨ended, held_of_none stillNone⟩
      · cases moves
  | connects =>
      rw [stepOutside, ite_eq_iff] at moves
      obtain ⟨-, moves⟩ | ⟨-, moves⟩ := moves
      · obtain rfl := Option.some.inj moves
        refine ⟨{ idle with goesOn := ?_ }, held_of_none noLoop⟩
        intro loop (isLoop : world.loop = some loop)
        cases noLoop.symm.trans isLoop
      · cases moves

/-- What a task that waits does with the message: it gets it once, no other one gets it, and what
has not been resumed is left alone.
-/
theorem Idle.visit (idle : Idle world) (isOpen : world.closed = false)
    (isQueued : world.queue number = true) {irc : Irc}
    (wanted : irc.command ∈ (world.tasks number).wantCommand)
    (noTimer : (world.tasks number).timerHandle = false)
    : ∃ after next, resumeIrc world number (some irc) = .ok after
      ∧ (world.tasks number).co = .suspended next
      ∧ (after.inserted = world.inserted ↔ ¬ Inserts world (next (.irc (some irc))))
      ∧ (after.tasks number).received = (world.tasks number).received ++ [irc]
      ∧ (∀ other, other ≠ number → other < world.started →
        (after.tasks other).received = (world.tasks other).received)
      ∧ ∀ other, other ≠ number → other < world.started → world.passwordTask ≠ some other →
        Left other world after := by
  obtain ⟨inside, notPrompting, next, suspended⟩ := idle.waits isQueued wanted
  have unwanted : ((world.set number { world.tasks number with wantCommand := [] }).tasks number).co
      = .suspended next := by
    rw [set_self]
    exact suspended
  generalize isBefore : (world.set number { world.tasks number with wantCommand := [] }).set number
    (Task.takes { world.tasks number with wantCommand := [] } (.irc (some irc))) = before
  have isResumed : resumeIrc world number (some irc)
      = .ok (proceed (Dispatch.resume (maxCCalls - 1)) before number (next (.irc (some irc)))) := by
    have isBody : Dispatch.resume maxCCalls
        (world.set number { world.tasks number with wantCommand := [] }) number (.irc (some irc))
        = _ :=
      resume_suspended unwanted (maxCCalls - 1) _
    rw [resumeIrc, if_neg (by simp [noTimer]), isBody, set_self, isBefore]
  have isRunning : (before.tasks number).co = .running := by
    rw [← isBefore, set_self]
    rfl
  have notPrompting' : before.passwordTask ≠ some number := isBefore ▸ notPrompting
  have isOther {other : Nat} (differs : other ≠ number) : Left other world before :=
    isBefore ▸ (left_set differs).trans (left_set differs)
  have resumes := resumes_resume (maxCCalls - 1)
  have sameStarted : before.started = world.started := isBefore ▸ rfl
  have gets {other : Nat} (isInside : other < world.started)
      : ((proceed (Dispatch.resume (maxCCalls - 1)) before number
        (next (.irc (some irc)))).tasks other).received = (before.tasks other).received :=
    received_proceed resumes before number _ (sameStarted ▸ isInside)
  refine ⟨_, next, isResumed, suspended, ?_, ?_, fun other differs isInside => ?_,
    fun other differs isInside isSilent => ?_⟩
  · have inserts : Inserts before (next (.irc (some irc)))
        ↔ Inserts world (next (.irc (some irc))) := by
      rw [← isBefore]
      exact (@inserts_set (world.set number _) number _ notPrompting _).trans
        (inserts_set notPrompting _)
    have sameInserted : before.inserted = world.inserted := isBefore ▸ rfl
    rw [← inserts, ← sameInserted]
    exact inserted_iff isRunning notPrompting' (isBefore ▸ isOpen) (maxCCalls - 2) _
  · rw [gets inside, ← isBefore, set_self]
    rfl
  · rw [gets isInside, (isOther differs).task]
  · have before' := isOther differs
    refine before'.trans (left_proceed resumes _ differs (sameStarted ▸ isInside) (.inr ?_))
    exact before'.password isSilent

/-- A turn of a loop that was fair leaves it so, unless it is disturbed. -/
theorem turn_held_iff (idle : Idle world) {loop : Loop} (isLoop : world.loop = some loop)
    (fair : loop.Fair world)
    : Held (turn world loop) ↔ ¬ loop.Disturbed world := by
  obtain ⟨isOpen, nodup, started⟩ := idle.goesOn loop isLoop
  unfold turn Loop.Disturbed
  cases isRest : loop.rest with
  | nil => exact iff_of_true (held_of_none rfl) id
  | cons number rest =>
      rw [isRest] at nodup
      have unvisited {other : Nat} (member : other ∈ number :: rest) (waited : loop.Waited other)
          : world.queue other = true ∧ world.tasks other = loop.tasks other :=
        fair.unvisited other (isRest ▸ member) waited
      have visited {other : Nat} (member : other ∉ number :: rest) (waited : loop.Waited other)
          : (world.tasks other).received = (loop.tasks other).received ++ [loop.irc] :=
        fair.visited other (isRest ▸ member) waited
      dsimp only
      by_cases waits : world.queue number = true
        ∧ loop.irc.command ∈ (world.tasks number).wantCommand
      · rw [if_pos waits]
        obtain ⟨isQueued, wanted⟩ := waits
        cases timer : (world.tasks number).timerHandle with
        -- The error ends the loop, and nobody behind it gets the message.
        | true =>
            have raises {world : World} (timer : (world.tasks number).timerHandle = true)
                : resumeIrc world number (some loop.irc) = .error
                  "bad argument #1 to 'cancel' (steady_timer expected, got no value)" :=
              if_pos timer
            rw [@raises { world with loop := some { loop with rest } } timer]
            constructor
            · rintro held ⟨-, -, other, member, waited⟩
              have missed := (held _ rfl).visited other List.not_mem_nil waited
              have same : (world.tasks other).received = _ := missed
              rw [(unvisited member waited).2] at same
              simp at same
            · intro undisturbed
              rintro _ ⟨⟩
              refine ⟨fair.inserted, ?_, fun other _ waited => visited (fun member => ?_) waited⟩
              · rintro _ ⟨⟩
              · exact undisturbed ⟨isQueued, wanted, other, member, waited⟩
        -- The task gets the message; what its body puts into the table decides.
        | false =>
            have here : Idle { world with loop := some { loop with rest } } := {
              idle with
              goesOn := by
                rintro _ ⟨⟩
                exact ⟨isOpen, nodup.of_cons, started⟩
            }
            obtain ⟨after, next, isNext, suspended, inserted, gets, others, left⟩ :=
              @Idle.visit { world with loop := some { loop with rest } } number here isOpen isQueued
                _ wanted timer
            obtain ⟨inside, notPrompting, -⟩ := idle.waits isQueued wanted
            have sameLoop := (@Idle.gets { world with loop := some { loop with rest } } after number
              here inside notPrompting _ isNext).2
            rw [isNext]
            constructor
            · rintro held ⟨-, -, next', suspended', inserts⟩
              cases suspended.symm.trans suspended'
              exact inserted.mp ((held _ sameLoop).inserted.trans fair.inserted.symm) inserts
            · intro undisturbed loop' isLoop'
              obtain rfl := Option.some.inj (sameLoop.symm.trans isLoop')
              have noInsert : ¬ Inserts world (next (.irc (some loop.irc))) := fun inserts =>
                undisturbed ⟨isQueued, wanted, next, suspended, inserts⟩
              refine ⟨(inserted.mpr noInsert).trans fair.inserted, ?_, ?_⟩
              · intro other member waited
                obtain ⟨isQueued', same⟩ := unvisited (List.mem_cons_of_mem _ member) waited
                have wanted' : loop.irc.command ∈ (world.tasks other).wantCommand := same ▸ waited.2
                obtain ⟨inside', notPrompting', -⟩ := idle.waits isQueued' wanted'
                have differs : other ≠ number := by
                  rintro rfl
                  exact (List.nodup_cons.mp nodup).1 member
                have isLeft := left other differs inside' notPrompting'
                exact ⟨isLeft.queue.trans isQueued', isLeft.task.trans same⟩
              · intro other member waited
                by_cases isIt : other = number
                · subst isIt
                  rw [gets, (unvisited List.mem_cons_self waited).2]
                · rw [others other isIt (started other waited.1)]
                  exact visited (by simp [isIt, member]) waited
      -- The key was cleared, or the task waits for something else, and did not wait at the start.
      · rw [if_neg waits]
        refine iff_of_true ?_ fun ⟨isQueued, wanted, _⟩ => waits ⟨isQueued, wanted⟩
        rintro _ ⟨⟩
        refine ⟨fair.inserted, fun other member => unvisited (List.mem_cons_of_mem _ member), ?_⟩
        intro other member waited
        by_cases isIt : other = number
        · subst isIt
          obtain ⟨isQueued, same⟩ := unvisited List.mem_cons_self waited
          exact absurd ⟨isQueued, same ▸ waited.2⟩ waits
        · exact visited (by simp [isIt, member]) waited

-----------------------------------------------------------------------------------------
-- Runs
-----------------------------------------------------------------------------------------

/-- No task was started. -/
theorem idle_new : Idle .new where
  password := by rintro _ ⟨⟩
  wants := fun _ _ => rfl
  running := by rintro _ ⟨⟩
  alive := by rintro _ ⟨⟩
  fresh := fun _ _ => ⟨rfl, (Option.some_ne_none _).symm, rfl⟩
  rests := by rintro _ ⟨⟩
  goesOn := by rintro _ ⟨⟩

/-- A step is a turn of the loop, or it is outside of it. -/
theorem step_cases {event : Event} (moves : step world event = some after)
    : (∃ loop, world.loop = some loop ∧ after = turn world loop)
      ∨ world.loop = none ∧ stepOutside world event = some after := by
  unfold step at moves
  split at moves
  · rename_i loop isLoop
    exact .inl ⟨loop, isLoop, (Option.some.inj moves).symm⟩
  · cases moves
  · rename_i noLoop
    exact .inr ⟨noLoop, moves⟩

/-- Along a run every loop over the tasks is fair, so that nothing is put into the table meanwhile
and every task that was waiting gets the message once, exactly if no turn of a loop is disturbed.
-/
theorem dispatch_fair_iff (events : List Event)
    : Runs.Along step (fun _ _ after => Held after) .new events
      ↔ Runs.Along step (fun before _ _ => ¬ Disturbs before) .new events := by
  apply @Runs.along_iff _ _ _ _ _ (fun world => Idle world ∧ Held world) _ events
    ⟨idle_new, held_of_none rfl⟩
  · intro world event after ⟨idle, held⟩ moves held'
    rcases step_cases moves with ⟨loop, isLoop, rfl⟩ | ⟨noLoop, moves⟩
    · exact ⟨idle.turns isLoop, held'⟩
    · exact idle.outside noLoop moves
  · intro world event after ⟨idle, held⟩ moves
    rcases step_cases moves with ⟨loop, isLoop, rfl⟩ | ⟨noLoop, moves⟩
    · refine (turn_held_iff idle isLoop (held loop isLoop)).trans (not_congr ?_)
      constructor
      · exact fun disturbed => ⟨loop, isLoop, disturbed⟩
      · rintro ⟨_, isSome, disturbed⟩
        obtain rfl := Option.some.inj (isLoop.symm.trans isSome)
        exact disturbed
    · refine iff_of_true (idle.outside noLoop moves).2 ?_
      rintro ⟨loop, isLoop, -⟩
      cases noLoop.symm.trans isLoop

/-- The end of a registration: behind the message of the day the challenge is started. -/
def registration : Script :=
  .waitIrc [.reply 376, .reply 422] none fun _ =>
    .starts (.waitIrc [.reply 740, .reply 741, .reply 381, .reply 491] none fun _ => .returns)
      .returns

/-- The end of the message of the day. -/
def endOfMotd : Irc :=
  { command := .reply 376, args := [lit "me", lit "End of /MOTD command."] }

/-- The task of the registration is resumed by the loop, and puts the task of the challenge into
the table that the loop goes through.
-/
theorem dispatch_fair_counterexample
    : ((Runs.run step .new [.starts registration, .message endOfMotd [0], .turn]).map
          fun world => (world.inserted, world.loop.map (·.inserted)))
        = some ([0, 1], some [0])
      ∧ ¬ Runs.Along step (fun _ _ after => Held after) .new
        [.starts registration, .message endOfMotd [0], .turn] := by
  refine ⟨rfl, fun along => ?_⟩
  have held := Runs.along_after along rfl
  have fair := (held _ rfl).inserted
  revert fair
  decide

end Snowcone.Tasks.Dispatch
