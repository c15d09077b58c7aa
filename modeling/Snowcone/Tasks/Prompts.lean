import Mathlib.Logic.Function.Basic
import Snowcone.Foundations.Runs
import Snowcone.Tasks.Passwords

/-! Tasks that prompt for passwords: `set_input_mode` makes a task the one that is prompting, and
aborts the one that was.
-/

namespace Snowcone.Tasks.Prompts

open Bytes Coroutine

/-- `input_mode`, where there is one. -/
inductive InputMode where
  | command
  | filter
  | talk
  | password
deriving DecidableEq

/-- A task, with what it last suspended for. -/
structure Task where
  co : State Suspension (List LuaValue) Bytes Unit
  suspension : Option Suspension

/-- A task that is over, or was never started. -/
def Task.over : Task := { co := .dead, suspension := none }

/-- What happens to the prompts of the tasks, which are numbered. -/
inductive Entry where
  | asked (task : Nat)
  | waits (task : Nat)
  | answered (task : Nat) (answer : LuaValue)
  | refused (task : Nat)
  | noTask
deriving DecidableEq

/-- The tasks, the globals of the input mode, and the history of the prompts. -/
structure World where
  tasks : Nat → Task
  started : Nat
  inputMode : Option InputMode
  passwordLabel : Option Bytes
  passwordTask : Option Nat
  log : List Entry
  statuses : List Bytes

namespace World

/-- One task goes on in another way. -/
def set (world : World) (number : Nat) (task : Task) : World :=
  { world with tasks := Function.update world.tasks number task }

def note (world : World) (entry : Entry) : World := { world with log := world.log ++ [entry] }

/-- A resume that fails is only reported. -/
def refuse (world : World) (number : Nat) (message : String) : World :=
  { world with statuses := world.statuses ++ [lit message] }.note (.refused number)

end World

/-- `Task:resume`, as it stands when it is called. -/
abbrev Resume := World → Nat → List LuaValue → World

/-- `set_input_mode(mode, label, task)`; the last two arguments are for a password. -/
def setInputMode (resume : Resume) (world : World) (mode : Option InputMode)
    (prompt : Option (Bytes × Nat))
    : World :=
  let task := world.passwordTask
  let world := { world with passwordTask := none, inputMode := mode }
  let world :=
    if mode = some .password then
      { world with passwordLabel := prompt.map Prod.fst, passwordTask := prompt.map Prod.snd }
    else world
  match task with
  | some task => resume world task []
  | none => world

/-- Run the body of a task until it suspends or ends. -/
def proceed (resume : Resume) (world : World) (number : Nat) : Script Unit → World
  | .returns () => world.set number .over
  | .raises error =>
      { world with statuses := world.statuses ++ [error] }.set number .over
  | .yields (.prompt label) next =>
      let world := setInputMode resume (world.note (.asked number)) (some .password)
        (some (label, number))
      (world.set number { co := .suspended next, suspension := some (.prompt label) }).note
        (.waits number)
  | .yields suspension next =>
      world.set number { co := .suspended next, suspension := some suspension }

/-- A task is suspended in `ask_password`. -/
def Task.prompts (task : Task) : Bool :=
  match task.suspension with
  | some (.prompt _) => true
  | _ => false

/-- `Task:resume`. The depth is how many more calls may be nested in C. -/
def resume : Nat → Resume
  | 0, world, number, _ => world.refuse number "C stack overflow"
  | depth + 1, world, number, values =>
      match (world.tasks number).co.resume values with
      | .error refusal => world.refuse number (refusalText refusal)
      | .ok body =>
          let world :=
            if (world.tasks number).prompts then
              world.note (.answered number (valueAt values 0))
            else world
          proceed (resume depth) (world.set number { co := .running, suspension := none }) number
            body

/-- What happens outside of the tasks: one is started, the user confirms what is typed or changes
the mode, or what a task suspended for happens.
-/
inductive Event where
  | starts (main : Script Unit)
  | confirms (text : Bytes)
  | switches (mode : Option InputMode)
  | wakes (task : Nat) (values : List LuaValue)

/-- `execute.password`, for what the editor holds. -/
def executePassword (world : World) (password : Bytes) : World :=
  let task := world.passwordTask
  let world := setInputMode (resume maxCCalls) { world with passwordTask := none } none none
  match task with
  | some task => resume maxCCalls world task [.string password]
  | none => world.note .noTask

/-- One turn of the event loop. Passwords are confirmed in their own mode only, and what prompts
is not woken by anything else.
-/
def step (world : World) : Event → Option World
  | .starts main =>
      let number := world.started
      some (resume maxCCalls
        ({ world with started := number + 1 }.set number
          { co := .suspended (fun _ => main), suspension := none })
        number [])
  | .confirms text =>
      if world.inputMode = some .password then some (executePassword world text) else none
  | .switches mode =>
      if mode = some .password then none
      else some (setInputMode (resume maxCCalls) world mode none)
  | .wakes task values =>
      match (world.tasks task).suspension with
      | some (.execute _) | some .other => some (resume maxCCalls world task values)
      | some (.prompt _) | none => none

/-- The client before anything was started. -/
def World.new : World :=
  {
    tasks := fun _ => .over
    started := 0
    inputMode := none
    passwordLabel := none
    passwordTask := none
    log := []
    statuses := []
  }

end Snowcone.Tasks.Prompts
