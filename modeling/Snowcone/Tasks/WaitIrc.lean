import Snowcone.EventLoop.Timer
import Snowcone.Foundations.Action
import Snowcone.Foundations.Bytes
import Snowcone.Foundations.Coroutine

/-! Tasks that wait for IRC commands with a timeout: `Task:wait_irc` and its two ways to end,
the dispatch of a message to the tasks, and `Irc:close`, which cancels them.
-/

namespace Snowcone.Tasks.WaitIrc

open Bytes Coroutine EventLoop

/-- The command of a message, which is a number for a reply. -/
inductive Command where
  | name (text : Bytes)
  | reply (number : Nat)
  deriving DecidableEq

/-- A message of the server. -/
structure Irc where
  command : Command
  args : List Bytes
  deriving DecidableEq

/-- What a task is resumed with: a message or nil, or the values of another callback. -/
inductive Given where
  | irc (message : Option Irc)
  | values (values : List (Option Bytes))
  deriving DecidableEq

/-- What a task suspends for; `other` is a command or a password prompt. -/
inductive Suspension where
  | waitIrc (commands : List Command) (timeout : Option Int)
  | sleep (timeout : Int)
  | dnslookup (name : Bytes)
  | other

/-- The body of a task. -/
abbrev Script := Body Suspension Given Bytes Unit

/-- The callback that is started with a timer. -/
inductive Callback where
  | waitIrc (wait : Nat)
  | sleep
  deriving DecidableEq

/-- A timer, with its registry slot. -/
structure TaskTimer where
  callback : Option Callback
  status : WaitStatus
  deriving DecidableEq

/-- A timer that was started. -/
def TaskTimer.started (callback : Callback) : TaskTimer :=
  { callback := some callback, status := .outstanding }

/-- `cancel` of a timer. -/
def TaskTimer.cancel (timer : TaskTimer) : TaskTimer :=
  {
    callback := none
    status := if timer.status = .outstanding then .cancelled else timer.status
  }

/-- An operation that will call back once. -/
inductive Operation where
  | dnslookup
  | other
  deriving DecidableEq

/-- What can happen to a wait. -/
inductive Happening where
  | received (irc : Irc)
  | timedOut
  | closed
  deriving DecidableEq

/-- A call of `wait_irc`, everything that has happened since, and what it was resumed with. -/
structure Wait where
  commands : List Command
  history : List Happening
  resumed : List Given
  deriving DecidableEq

/-- A wait that begins. -/
def Wait.new (commands : List Command) : Wait := { commands, history := [], resumed := [] }

/-- A task. Its waits are numbered; `waiting` is the one it is suspended in. A stray is a wait
whose timer resumed the task when it was not suspended in that wait.
-/
structure Task where
  co : State Suspension Given Bytes Unit
  queued : Bool
  wantCommand : List Command
  timerHandle : Option Nat
  dnslookupHandle : Option Bytes
  timers : List TaskTimer
  operation : Option Operation
  waiting : Option Nat
  waits : List Wait
  strays : List Nat
  statuses : List Bytes

/-- What may raise a Lua error while it works on a task. -/
abbrev Act := EStateM String Task

/-- The method `cancel` of timers, which checks its first argument. -/
def timerCancel : List Nat → Act Unit
  | [] => throw "bad argument #1 to 'cancel' (steady_timer expected, got no value)"
  | timer :: _ =>
      modify (fun task => { task with timers := task.timers.modify timer TaskTimer.cancel })

/-- A method call on a string whose metatable does not have the method. -/
def stringMethod (name : String) : Act Unit :=
  throw ("attempt to call a nil value (method '" ++ name ++ "')")

/-- `Task:cancel_timer`. It calls `cancel` without the timer. -/
def cancelTimer : Act Unit := do
  match (← get).timerHandle with
  | none => pure ()
  | some _ =>
      timerCancel []
      modify ({ · with timerHandle := none })

/-- `Task:cancel_dnslookup`. The handle is what `snowcone.dnslookup` returns, and that is the
host name.
-/
def cancelDnslookup : Act Unit := do
  match (← get).dnslookupHandle with
  | none => pure ()
  | some _ => stringMethod "cancel"

/-- `Task:cancel`. -/
def cancel : Act Unit := do
  modify ({ · with queued := false })
  cancelTimer
  cancelDnslookup
  modify ({ · with co := .dead, waiting := none })

/-- `Task:wait_irc` up to its `coroutine.yield`. -/
def Task.beginWaitIrc (task : Task) (commands : List Command) (timeout : Option Int) : Task :=
  let number := task.waits.length
  let task :=
    match timeout with
    | none => task
    | some _ =>
        {
          task with
          timerHandle := some task.timers.length
          timers := task.timers ++ [TaskTimer.started (.waitIrc number)]
        }
  {
    task with
    wantCommand := commands
    waiting := some number
    waits := task.waits ++ [Wait.new commands]
  }

/-- Run the body of a task until it suspends or ends. -/
def Task.proceed (task : Task) : Script → Task
  | .returns () => { task with co := .dead }
  | .raises error => { task with co := .dead, statuses := task.statuses ++ [error] }
  | .yields (.waitIrc commands timeout) next =>
      { task.beginWaitIrc commands timeout with co := .suspended next }
  | .yields (.sleep _) next =>
      {
        task with
        co := .suspended next
        timerHandle := some task.timers.length
        timers := task.timers ++ [TaskTimer.started .sleep]
      }
  | .yields (.dnslookup name) next =>
      {
        task with
        co := .suspended next
        dnslookupHandle := some name
        operation := some .dnslookup
      }
  | .yields .other next => { task with co := .suspended next, operation := some .other }

/-- A task whose coroutine is dead leaves its queue. -/
def Task.leaveQueue (task : Task) : Task :=
  match task.co with
  | .dead => { task with queued := false }
  | .suspended _ | .running => task

/-- The wait that a task is suspended in gets what the task is resumed with. -/
def Task.endWait (task : Task) (given : Given) : Task :=
  match task.waiting with
  | none => task
  | some number =>
      {
        task with
        waiting := none
        waits := task.waits.modify number
          (fun wait => { wait with resumed := wait.resumed ++ [given] })
      }

/-- `Task:resume`. -/
def Task.resume (task : Task) (given : Given) : Task :=
  match task.co.resume given with
  | .error _ =>
      { task with statuses := task.statuses ++ [lit "cannot resume dead coroutine"] }.leaveQueue
  | .ok body => ((task.endWait given).proceed body).leaveQueue

/-- `Task:resume_irc`. -/
def resumeIrc (irc : Option Irc) : Act Unit := do
  cancelTimer
  modify ({ · with wantCommand := [] })
  modify (·.resume (.irc irc))

/-- A new task, which runs at once. -/
def Task.new (script : Script) : Task :=
  Task.resume
    {
      co := .suspended (fun _ => script)
      queued := true
      wantCommand := []
      timerHandle := none
      dnslookupHandle := none
      timers := []
      operation := none
      waiting := none
      waits := []
      strays := []
      statuses := []
    }
    (.values [])

-----------------------------------------------------------------------------------------
-- The event loop
-----------------------------------------------------------------------------------------

/-- The tasks of `irc_state`, in the order in which `pairs` visits those that are queued.
`closed` means that `irc_state` is nil; `raised` are the errors that reach the event loop.
-/
structure World where
  tasks : List Task
  closed : Bool
  raised : List String

/-- A new connection. -/
def World.start : World := { tasks := [], closed := false, raised := [] }

/-- A loop over the queued tasks; an error ends it. -/
def forQueued (round : Act Unit) : List Task → List Task × Option String
  | [] => ([], none)
  | task :: rest =>
      if task.queued then
        match round task with
        | .error message task => (task :: rest, some message)
        | .ok () task =>
            let (rest, error) := forQueued round rest
            (task :: rest, error)
      else
        let (rest, error) := forQueued round rest
        (task :: rest, error)

/-- Something happens to all the waits of a task. -/
def Task.happens (task : Task) (happening : Happening) : Task :=
  {
    task with
    waits := task.waits.map (fun wait => { wait with history := wait.history ++ [happening] })
  }

/-- What the dispatch loop does for one task. -/
def dispatch (irc : Irc) : Act Unit := do
  if irc.command ∈ (← get).wantCommand then resumeIrc (some irc)

/-- The loop of `conn_handlers.MSG` over the tasks. -/
def World.message (world : World) (irc : Irc) : World :=
  let (tasks, error) := forQueued (dispatch irc) (world.tasks.map (·.happens (.received irc)))
  { world with tasks, raised := world.raised ++ error.toList }

/-- `disconnect`: `irc_state` is set to nil when `Irc:close` has returned. -/
def World.disconnect (world : World) : World :=
  match forQueued cancel (world.tasks.map (·.happens .closed)) with
  | (tasks, none) => { world with tasks, closed := true }
  | (tasks, some error) => { world with tasks, raised := world.raised ++ [error] }

/-- The timer of a wait has expired: what happens to that wait. -/
def Task.timesOut (task : Task) (number : Nat) : Task :=
  {
    task with
    waits := task.waits.modify number
      (fun wait => { wait with history := wait.history ++ [.timedOut] })
    strays := if task.waiting = some number then task.strays else task.strays ++ [number]
  }

/-- The callback of a timer. -/
def Callback.call : Callback → Act Unit
  | .waitIrc number => do
      modify (·.timesOut number)
      modify ({ · with timerHandle := none })
      resumeIrc none
  | .sleep => do
      modify ({ · with timerHandle := none })
      modify (·.resume (.values []))

/-- The handler of a timer's wait: it takes the callback out of the slot, and calls it. -/
def timerHandler (number : Nat) (timer : TaskTimer) : Act Unit := do
  modify (fun task =>
    { task with timers := task.timers.set number { callback := none, status := .done } })
  match timer.callback with
  | none => throw "attempt to call a nil value"
  | some callback => callback.call

/-- The callback of an operation. -/
def completeOperation (operation : Operation) (values : List (Option Bytes)) : Act Unit := do
  modify ({ · with operation := none })
  match operation with
  | .dnslookup => modify ({ · with dnslookupHandle := none })
  | .other => pure ()
  modify (·.resume (.values values))

/-- A callback of one task. -/
def World.callback (world : World) (number : Nat) (task : Task) (action : Act Unit) : World :=
  match action task with
  | .ok () task => { world with tasks := world.tasks.set number task }
  | .error message task =>
      {
        world with
        tasks := world.tasks.set number task
        raised := world.raised ++ [message]
      }

/-- What happens: a task is made, the order of the tasks changes, a message is dispatched, a
timer of a task expires, its handler runs, an operation calls back, the client disconnects.
-/
inductive Event where
  | spawn (script : Script)
  | reorder (order : List Nat)
  | message (irc : Irc)
  | expire (task timer : Nat)
  | handler (task timer : Nat)
  | completes (task : Nat) (values : List (Option Bytes))
  | disconnect

/-- One event. -/
def step (world : World) : Event → Option World
  | .spawn script =>
      if world.closed then none else some { world with tasks := world.tasks ++ [.new script] }
  | .reorder order =>
      if order.Perm (List.range world.tasks.length) then
        some { world with tasks := order.filterMap (world.tasks[·]?) }
      else none
  | .message irc => some (if world.closed then world else world.message irc)
  | .expire number timerNumber => do
      let task ← world.tasks[number]?
      let timer ← task.timers[timerNumber]?
      if timer.status = .outstanding then
        let timers := task.timers.set timerNumber { timer with status := .expired }
        some { world with tasks := world.tasks.set number { task with timers } }
      else none
  | .handler number timerNumber => do
      let task ← world.tasks[number]?
      let timer ← task.timers[timerNumber]?
      match timer.status with
      | .expired => some (world.callback number task (timerHandler timerNumber timer))
      | .cancelled =>
          let timers := task.timers.set timerNumber { timer with status := .done }
          some { world with tasks := world.tasks.set number { task with timers } }
      | .outstanding | .done => none
  | .completes number values => do
      let task ← world.tasks[number]?
      let operation ← task.operation
      some (world.callback number task (completeOperation operation values))
  | .disconnect => some (if world.closed then world else world.disconnect)

end Snowcone.Tasks.WaitIrc
