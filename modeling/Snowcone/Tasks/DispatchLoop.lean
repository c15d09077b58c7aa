import Mathlib.Logic.Function.Basic
import Snowcone.Foundations.Runs
import Snowcone.Tasks.Execute
import Snowcone.Tasks.WaitIrc

/-! The loop of `conn_handlers.MSG` over the tasks, turn by turn. A task that is resumed runs until
it suspends; on the way it can start tasks, and its prompt aborts the one of another task.
-/

namespace Snowcone.Tasks.Dispatch

open Bytes Coroutine
open WaitIrc (Command Irc Given)

/-- What else than a message or a prompt a task suspends for. -/
inductive Pause where
  | sleep
  | dnslookup
  | execute
deriving DecidableEq

/-- What the body of a task does from here on. Tasks are started in `irc_state.tasks`. -/
inductive Script where
  | returns
  | raises (error : Bytes)
  | waitIrc (commands : List Command) (timeout : Option Int) (next : Given → Script)
  | asksPassword (next : Given → Script)
  | pauses (pause : Pause) (next : Given → Script)
  | starts (main : Script) (next : Script)

/-- The coroutine of a task. -/
inductive Co where
  | suspended (next : Given → Script)
  | running
  | dead

/-- `coroutine.resume`. -/
def Co.resume (given : Given) : Co → Except Refusal Script
  | .suspended next => .ok (next given)
  | .running => .error .notSuspended
  | .dead => .error .dead

/-- What a task is suspended for. -/
inductive Suspension where
  | irc
  | password
  | pause (pause : Pause)
deriving DecidableEq

/-- A task, with what it last suspended for and the messages that it was resumed with. -/
structure Task where
  co : Co
  wantCommand : List Command
  timerHandle : Bool
  dnslookupHandle : Bool
  suspension : Option Suspension
  received : List Irc

namespace Task

/-- A task that has not run yet. -/
def new (main : Script) : Task :=
  {
    co := .suspended (fun _ => main)
    wantCommand := []
    timerHandle := false
    dnslookupHandle := false
    suspension := none
    received := []
  }

/-- A number that no task has. -/
def unstarted : Task := { new .returns with co := .dead }

/-- A task begins to run with what it was resumed with. -/
def takes (task : Task) (given : Given) : Task :=
  {
    task with
    co := .running
    suspension := none
    received :=
      match given with
      | .irc (some irc) => task.received ++ [irc]
      | .irc none | .values _ => task.received
  }

/-- `Task:wait_irc` up to its `coroutine.yield`. -/
def waitIrc (task : Task) (commands : List Command) (timeout : Option Int)
    (next : Given → Script)
    : Task :=
  {
    task with
    co := .suspended next
    wantCommand := commands
    timerHandle := task.timerHandle || timeout.isSome
    suspension := some .irc
  }

/-- `Task:sleep`, `Task:dnslookup` and `Task:execute` up to their `coroutine.yield`. -/
def pauses (task : Task) (pause : Pause) (next : Given → Script) : Task :=
  {
    task with
    co := .suspended next
    timerHandle := task.timerHandle || pause = .sleep
    dnslookupHandle := task.dnslookupHandle || pause = .dnslookup
    suspension := some (.pause pause)
  }

/-- What the callback of a pause does before it resumes the task. -/
def calledBack (task : Task) : Pause → Task
  | .sleep => { task with timerHandle := false }
  | .dnslookup => { task with dnslookupHandle := false }
  | .execute => task

end Task

/-- The loop over the tasks for a message: the keys that are still to be visited, and everything
as it was when the loop began.
-/
structure Loop where
  irc : Irc
  rest : List Nat
  tasks : Nat → Task
  queue : Nat → Bool
  inserted : List Nat

/-- The tasks are numbered as they are started. `queue` has the keys of `irc_state.tasks`, and
`inserted` those that were ever put there; `closed` means that `irc_state` is nil.
-/
structure World where
  tasks : Nat → Task
  started : Nat
  queue : Nat → Bool
  inserted : List Nat
  passwordTask : Option Nat
  closed : Bool
  loop : Option Loop
  statuses : List Bytes
  raised : List String

namespace World

/-- One task goes on in another way. -/
def set (world : World) (number : Nat) (task : Task) : World :=
  { world with tasks := Function.update world.tasks number task }

def report (world : World) (message : Bytes) : World :=
  { world with statuses := world.statuses ++ [message] }

/-- A task leaves its queue. -/
def leave (world : World) (number : Nat) : World :=
  { world with queue := Function.update world.queue number false }

/-- A task is over, and leaves its queue. -/
def finish (world : World) (number : Nat) : World :=
  (world.set number { world.tasks number with co := .dead }).leave number

/-- `Task:_init` for a table that is not `irc_state.tasks`, up to its `resume`. -/
def create (world : World) (main : Script) : World :=
  { world with started := world.started + 1 }.set world.started (.new main)

/-- `Task:_init` for `irc_state.tasks`, up to its `resume`. -/
def insert (world : World) (main : Script) : World :=
  {
    world.create main with
    queue := Function.update world.queue world.started true
    inserted := world.inserted ++ [world.started]
  }

end World

/-- `Task:resume`, as it stands when it is called. -/
abbrev Resume := World → Nat → Given → World

/-- `set_input_mode`, as far as it is about the task that prompts: the one before is aborted. -/
def setInputMode (resume : Resume) (world : World) (prompting : Option Nat) : World :=
  match world.passwordTask with
  | some task => resume { world with passwordTask := prompting } task (.values [])
  | none => { world with passwordTask := prompting }

/-- Run the body of a task until it suspends or ends. -/
def proceed (resume : Resume) (world : World) (number : Nat) : Script → World
  | .returns => world.finish number
  | .raises error => (world.report error).finish number
  | .waitIrc commands timeout next =>
      world.set number ((world.tasks number).waitIrc commands timeout next)
  | .asksPassword next =>
      let world := setInputMode resume world (some number)
      world.set number
        { world.tasks number with co := .suspended next, suspension := some .password }
  | .pauses pause next => world.set number ((world.tasks number).pauses pause next)
  | .starts main next =>
      if world.closed then
        (world.report (lit "attempt to index a nil value (global 'irc_state')")).finish number
      else
        proceed resume (resume (world.insert main) world.started (.values [])) number next

/-- `Task:resume`. The depth is how many more calls may be nested in C. -/
def resume : Nat → Resume
  | 0, world, _, _ => world.report (lit "C stack overflow")
  | depth + 1, world, number, given =>
      match (world.tasks number).co.resume given with
      | .error .notSuspended => world.report (lit (refusalText .notSuspended))
      | .error .dead => (world.leave number).report (lit (refusalText .dead))
      | .ok body =>
          proceed (resume depth) (world.set number ((world.tasks number).takes given)) number body

/-- `Task:resume_irc`. `Task:cancel_timer` calls `timer.cancel` without the timer, which raises. -/
def resumeIrc (world : World) (number : Nat) (irc : Option Irc) : Except String World :=
  if (world.tasks number).timerHandle then
    .error "bad argument #1 to 'cancel' (steady_timer expected, got no value)"
  else
    .ok (resume maxCCalls
      (world.set number { world.tasks number with wantCommand := [] }) number (.irc irc))

/-- `Task:cancel`. A handle raises; that of a lookup is the name, which has no method `cancel`. -/
def cancel (world : World) (number : Nat) : World × Option String :=
  let world := world.leave number
  let task := world.tasks number
  if task.timerHandle then
    (world, some "bad argument #1 to 'cancel' (steady_timer expected, got no value)")
  else if task.dnslookupHandle then
    (world, some "attempt to call a nil value (method 'cancel')")
  else (world.set number { task with co := .dead }, none)

/-- `disconnect`: `irc_state` is nil when `Irc:close` has cancelled all tasks. -/
def disconnect (world : World) : List Nat → World
  | [] => { world with closed := true }
  | number :: rest =>
      match cancel world number with
      | (world, none) => disconnect world rest
      | (world, some error) => { world with raised := world.raised ++ [error] }

/-- One turn of the loop. Keys that were cleared meanwhile are not visited, and an error ends the
loop. What `pairs` does behind an insertion is undefined: here it goes on with the other keys.
-/
def turn (world : World) (loop : Loop) : World :=
  match loop.rest with
  | [] => { world with loop := none }
  | number :: rest =>
      let visited := { world with loop := some { loop with rest } }
      if world.queue number ∧ loop.irc.command ∈ (world.tasks number).wantCommand then
        match resumeIrc visited number (some loop.irc) with
        | .ok world => world
        | .error error =>
            {
              world with
              loop := some { loop with rest := [] }
              raised := world.raised ++ [error]
            }
      else visited

/-- What happens: a task is started in `irc_state.tasks` or in another table; a message comes, and
the loop visits the tasks in some order of their keys, one a turn; a prompt is confirmed or left;
what a task paused for happens; a wait times out; the client disconnects, and connects again.
-/
inductive Event where
  | starts (main : Script)
  | startsElsewhere (main : Script)
  | message (irc : Irc) (order : List Nat)
  | turn
  | answers (values : List (Option Bytes))
  | wakes (task : Nat) (values : List (Option Bytes))
  | timesOut (task : Nat)
  | disconnect (order : List Nat)
  | connects

/-- The keys of `irc_state.tasks`, in the order in which they were started. -/
def World.keys (world : World) : List Nat := (List.range world.started).filter world.queue

/-- What can happen outside of the loop. -/
def stepOutside (world : World) : Event → Option World
  | .starts main =>
      if world.closed then none
      else some (resume maxCCalls (world.insert main) world.started (.values []))
  | .startsElsewhere main =>
      some (resume maxCCalls (world.create main) world.started (.values []))
  | .message irc order =>
      if world.closed = false ∧ order.Perm world.keys then
        some
          {
            world with
            loop := some {
              irc, rest := order
              tasks := world.tasks, queue := world.queue, inserted := world.inserted
            }
          }
      else none
  | .turn => none
  | .answers values =>
      match world.passwordTask with
      | some task =>
          some (resume maxCCalls { world with passwordTask := none } task (.values values))
      | none => none
  | .wakes task values =>
      match (world.tasks task).suspension with
      | some (.pause pause) =>
          some (resume maxCCalls (world.set task ((world.tasks task).calledBack pause)) task
            (.values values))
      | some .irc | some .password | none => none
  | .timesOut task =>
      let waiting := world.tasks task
      if waiting.suspension = some .irc ∧ waiting.timerHandle then
        (resumeIrc (world.set task { waiting with timerHandle := false }) task none).toOption
      else none
  | .disconnect order =>
      if world.closed = false ∧ order.Perm world.keys then some (disconnect world order) else none
  | .connects => if world.closed then some { world with closed := false } else none

/-- Nothing else happens while the loop goes on. -/
def step (world : World) (event : Event) : Option World :=
  match world.loop, event with
  | some loop, .turn => some (turn world loop)
  | some _, _ => none
  | none, event => stepOutside world event

/-- The client before anything was started. -/
def World.new : World :=
  {
    tasks := fun _ => .unstarted
    started := 0
    queue := fun _ => false
    inserted := []
    passwordTask := none
    closed := false
    loop := none
    statuses := []
    raised := []
  }

-----------------------------------------------------------------------------------------
-- What is asked of the loop
-----------------------------------------------------------------------------------------

/-- A task waited for the message when the loop began. -/
def Loop.Waited (loop : Loop) (number : Nat) : Prop :=
  loop.queue number = true ∧ loop.irc.command ∈ (loop.tasks number).wantCommand

/-- As far as the loop has come: no key was inserted, and of the tasks that waited those that were
visited were resumed with the message once, and the others wait as they did.
-/
structure Loop.Fair (loop : Loop) (world : World) : Prop where
  inserted : world.inserted = loop.inserted
  unvisited : ∀ number ∈ loop.rest, loop.Waited number →
    world.queue number = true ∧ world.tasks number = loop.tasks number
  visited : ∀ number, number ∉ loop.rest → loop.Waited number →
    (world.tasks number).received = (loop.tasks number).received ++ [loop.irc]

/-- If the loop goes on, it is fair so far. -/
def Held (world : World) : Prop := ∀ loop, world.loop = some loop → loop.Fair world

/-- A body starts a task before it suspends. -/
def Script.Starts : Script → Prop
  | .starts _ _ => True
  | _ => False

/-- A body starts a task before it suspends, or the task does whose prompt it aborts. -/
def Inserts (world : World) : Script → Prop
  | .starts _ _ => True
  | .asksPassword _ =>
      ∃ task again, world.passwordTask = some task ∧ (world.tasks task).co = .suspended again
        ∧ (again (.values [])).Starts
  | _ => False

/-- The task that is visited next waits for the message and starts a task when it is resumed with
it, or it has a timer, and the message does not come to those that still wait for it.
-/
def Loop.Disturbed (loop : Loop) (world : World) : Prop :=
  match loop.rest with
  | [] => False
  | number :: rest =>
      world.queue number = true
      ∧ loop.irc.command ∈ (world.tasks number).wantCommand
      ∧ if (world.tasks number).timerHandle then ∃ other ∈ number :: rest, loop.Waited other
        else ∃ next, (world.tasks number).co = .suspended next
          ∧ Inserts world (next (.irc (some loop.irc)))

/-- The next turn of the loop is disturbed. -/
def Disturbs (world : World) : Prop := ∃ loop, world.loop = some loop ∧ loop.Disturbed world

end Snowcone.Tasks.Dispatch
