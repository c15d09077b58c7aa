import Snowcone.Foundations.Bytes
import Snowcone.Foundations.Coroutine

/-! A task and the external commands it executes: `Task:execute` starts a process and
suspends, and the process's completion handler resumes the task.
-/

namespace Snowcone.Tasks

open Bytes Coroutine

/-- The Lua values that a task is resumed with. -/
inductive LuaValue where
  | nil
  | integer (n : Int)
  | string (text : Bytes)
  deriving DecidableEq

/-- The asynchronous operations of a process. -/
inductive Operation where
  | write
  | readStdout
  | readStderr
  | wait
  deriving DecidableEq

/-- How an asynchronous operation completes. Errors of the pipes are ignored. -/
inductive Completion where
  | written
  | stdoutRead (text : Bytes)
  | stderrRead (text : Bytes)
  | exited (error : Option Bytes) (code : Int)
  deriving DecidableEq

/-- The operation that a completion belongs to. -/
def Completion.operation : Completion → Operation
  | .written => .write
  | .stdoutRead _ => .readStdout
  | .stderrRead _ => .readStderr
  | .exited _ _ => .wait

/-- The state that the operations of one command share. -/
structure Exec where
  stage : Int
  errorCode : Option Bytes
  exitCode : Int
  stdoutText : Bytes
  stderrText : Bytes
  deriving DecidableEq

/-- A new `Exec` counts one more operation when there is input to write. -/
def Exec.new (input : Option Bytes) : Exec :=
  {
    stage := if input.isSome then 4 else 3
    errorCode := none
    exitCode := 0
    stdoutText := []
    stderrText := []
  }

/-- The arguments of the Lua callback: either a failure and its text or the outcome. -/
def Exec.handler (exec : Exec) : List LuaValue :=
  match exec.errorCode with
  | some what => [.nil, .string what]
  | none => [.integer exec.exitCode, .string exec.stdoutText, .string exec.stderrText]

/-- Count an operation as complete. The last one invokes the handler. -/
def Exec.complete (exec : Exec) : Exec × Option (List LuaValue) :=
  let exec := { exec with stage := exec.stage - 1 }
  (exec, if exec.stage = 0 then some exec.handler else none)

/-- What the completion of an operation stores before it is counted. -/
def Exec.store (exec : Exec) : Completion → Exec
  | .written => exec
  | .stdoutRead text => { exec with stdoutText := text }
  | .stderrRead text => { exec with stderrText := text }
  | .exited error code => { exec with errorCode := error, exitCode := code }

/-- The operations that are initiated for a process. -/
def operationsFor (hasInput : Bool) : List Operation :=
  (if hasInput then [.write] else []) ++ [.readStdout, .readStderr, .wait]

/-- Start a process; `failure` is the error of a process that cannot be started. The handler
is then invoked before the initiation returns.
-/
def initiation (input : Option Bytes) (failure : Option Bytes)
    : Exec × List Operation × Option (List LuaValue) :=
  let exec := Exec.new input
  match failure with
  | some code =>
      let (exec, invoked) := { exec with errorCode := some code, stage := 1 }.complete
      (exec, [], invoked)
  | none => (exec, operationsFor input.isSome, none)

-----------------------------------------------------------------------------------------
-- The task
-----------------------------------------------------------------------------------------

/-- A call of `snowcone.execute`. -/
structure Call where
  command : Bytes
  arguments : List Bytes
  input : Option Bytes

/-- What a task suspends for. Everything but a command and a prompt (a timer, a lookup, an
IRC command) is `other`.
-/
inductive Suspension where
  | execute (call : Call)
  | prompt (label : Bytes)
  | other

/-- The body of a task. -/
abbrev Script := Body Suspension (List LuaValue) Bytes

/-- `Task:execute`, as the body sees it. -/
def execute (command : Bytes) (arguments : List Bytes) (input : Option Bytes)
    : Script (List LuaValue) :=
  .yield (.execute { command, arguments, input })

/-- A started process: the call it belongs to and its outstanding operations. -/
structure Process where
  call : Nat
  useTty : Bool
  exec : Exec
  outstanding : List Operation

/-- What happens to the commands of the task, which are numbered. -/
inductive Entry where
  | called (call : Nat) (hasInput : Bool)
  | yielded (call : Nat)
  | completed (call : Nat) (completion : Completion)
  | resumed (call : Nat) (values : List LuaValue)
  | refused (call : Nat) (message : String)
  deriving DecidableEq

/-- The call that an entry is about. -/
def Entry.call : Entry → Nat
  | .called call _ => call
  | .yielded call => call
  | .completed call _ => call
  | .resumed call _ => call
  | .refused call _ => call

/-- A task and its process. `log` is the history of its commands, `suspension` what it last
suspended for, and `ended` how its body ended.
-/
structure World (Result : Type) where
  co : State Suspension (List LuaValue) Bytes Result
  queued : Bool
  suspension : Option Suspension
  ended : Option (Except Bytes Result)
  process : Option Process
  drawingSuspended : Int
  calls : Nat
  log : List Entry
  statuses : List Bytes

variable {Result : Type}

/-- The message of a refusal. -/
def refusalText : Refusal → String
  | .notSuspended => "cannot resume non-suspended coroutine"
  | .dead => "cannot resume dead coroutine"

/-- `suspend_tty` adds one to the suspends, and `resume_tty` takes one off. -/
def World.suspendTty (world : World Result) : World Result :=
  { world with drawingSuspended := world.drawingSuspended + 1 }

def World.resumeTty (world : World Result) : World Result :=
  { world with drawingSuspended := world.drawingSuspended - 1 }

def World.note (world : World Result) (entry : Entry) : World Result :=
  { world with log := world.log ++ [entry] }

/-- A resume that fails is only reported. `origin` is the call whose callback made it. -/
def World.refuse (world : World Result) (origin : Option Nat) (message : String)
    : World Result :=
  let world := { world with statuses := world.statuses ++ [lit message] }
  match origin with
  | some call => world.note (.refused call message)
  | none => world

/-- The callback of `Task:execute`, with `Task:resume` as it stands when it is called. -/
def callback (resume : World Result → Option Nat → List LuaValue → World Result)
    (world : World Result) (call : Nat) (useTty : Bool) (values : List LuaValue)
    : World Result :=
  resume (if useTty then world.resumeTty else world) (some call) values

/-- `Task:execute` before its `coroutine.yield`; `spawn` tells which calls fail to start. -/
def beginExecute (spawn : Nat → Option Bytes)
    (resume : World Result → Option Nat → List LuaValue → World Result)
    (world : World Result) (call : Call)
    : World Result :=
  let useTty := call.input.isNone
  let world := if useTty then world.suspendTty else world
  let number := world.calls
  let world := { world with calls := number + 1 }.note (.called number call.input.isSome)
  match initiation call.input (spawn number) with
  | (_, _, some values) => callback resume world number useTty values
  | (exec, outstanding, none) =>
      { world with process := some { call := number, useTty, exec, outstanding } }

/-- Run the body of the task until it suspends or ends. -/
def proceed (enter : World Result → Call → World Result) (world : World Result)
    : Script Result → World Result
  | .returns result => { world with co := .dead, suspension := none, ended := some (.ok result) }
  | .raises error =>
      {
        world with
        co := .dead
        suspension := none
        ended := some (.error error)
        statuses := world.statuses ++ [error]
      }
  | .yields (.execute call) next =>
      {
        (enter world call).note (.yielded world.calls) with
        co := .suspended next
        suspension := some (.execute call)
      }
  | .yields suspension next =>
      { world with co := .suspended next, suspension := some suspension }

/-- A task whose coroutine is dead leaves its queue. -/
def World.leaveQueue (world : World Result) : World Result :=
  match world.co with
  | .dead => { world with queued := false }
  | _ => world

/-- `Task:resume`. The depth is how many more calls may be nested in C. -/
def resume (spawn : Nat → Option Bytes)
    : Nat → World Result → Option Nat → List LuaValue → World Result
  | 0, world, origin, _ => (world.refuse origin "C stack overflow").leaveQueue
  | depth + 1, world, origin, values =>
      match world.co.resume values with
      | .error refusal => (world.refuse origin (refusalText refusal)).leaveQueue
      | .ok body =>
          let world := { world with co := .running }
          let world :=
            match origin with
            | some call => world.note (.resumed call values)
            | none => world
          (proceed (beginExecute spawn (resume spawn depth)) world body).leaveQueue

/-- `LUAI_MAXCCALLS`. -/
def maxCCalls : Nat := 200

/-- A new task, which runs at once. -/
def start (spawn : Nat → Option Bytes) (body : Script Result) : World Result :=
  resume spawn maxCCalls
    {
      co := .suspended (fun _ => body)
      queued := true
      suspension := none
      ended := none
      process := none
      drawingSuspended := 0
      calls := 0
      log := []
      statuses := []
    }
    none []

/-- What the event loop does for a task: an operation of its process completes, or something
else that it suspended for happens.
-/
inductive Event where
  | completes (completion : Completion)
  | wakes (values : List LuaValue)

/-- One turn of the event loop; only outstanding operations complete, and a task that
suspended for a command is woken by nothing else.
-/
def step (spawn : Nat → Option Bytes) (world : World Result) : Event → Option (World Result)
  | .completes completion =>
      match world.process with
      | none => none
      | some process =>
          if completion.operation ∈ process.outstanding then
            let world := world.note (.completed process.call completion)
            let (exec, invoked) := (process.exec.store completion).complete
            match invoked with
            | none =>
                some {
                  world with
                  process := some {
                    process with
                    exec
                    outstanding := process.outstanding.erase completion.operation
                  }
                }
            | some values =>
                some (callback (resume spawn maxCCalls) { world with process := none }
                  process.call process.useTty values)
          else none
  | .wakes values =>
      match world.suspension with
      | none | some (.execute _) => none
      | some _ => some (resume spawn maxCCalls world none values)

end Snowcone.Tasks
