import Snowcone.Tasks.Execute

/-! Passwords and keys from the configuration: given as text, or by a command, a prompt or a
file.
-/

namespace Snowcone.Tasks

open Bytes Coroutine

/-- A password entry of the configuration; `other` is anything that is none of them, by the
text that `tostring` has for it.
-/
inductive PasswordEntry where
  | absent
  | text (password : Bytes)
  | command (command : Bytes) (arguments : List Bytes) (multiline useTty : Bool)
  | prompt (label : Bytes)
  | file (name : Bytes)
  | other (shown : Bytes)

/-- The text of a value in a concatenation, where a value has one. -/
def LuaValue.text : LuaValue → Option Bytes
  | .nil => none
  | .integer n => some (lit (toString n))
  | .string text => some text

/-- The value that a call returns at some position; absent values are `nil`. -/
def valueAt (values : List LuaValue) (position : Nat) : LuaValue :=
  values.getD position .nil

/-- The password in what a command was resumed with. -/
def passwordOf (multiline : Bool) (values : List LuaValue) : Script LuaValue :=
  let stdout := valueAt values 1
  match valueAt values 0 with
  | .integer 0 =>
      if multiline then .returns stdout
      else
        match stdout with
        | .string text => .returns (.string (before (chr '\n') text))
        | _ => .raises (lit "attempt to index a value (local 'stdout')")
  | .nil =>
      match stdout.text with
      | some text => .raises (lit "execute failed: " ++ text)
      | none => .raises (lit "attempt to concatenate a nil value (local 'stdout')")
  | exitCode =>
      match exitCode.text, (valueAt values 2).text with
      | some code, some stderr =>
          .raises (lit "command failed (" ++ code ++ lit "): " ++ stderr)
      | _, _ => .raises (lit "attempt to concatenate a nil value (local 'stderr')")

/-- `ask_password`: an aborted prompt resumes the task without a value. -/
def askPassword (label : Bytes) : Script LuaValue := do
  let values ← .yield (.prompt label)
  match valueAt values 0 with
  | .nil => .raises (lit "Password aborted")
  | password => .returns password

/-- `resolve_password`; `readFile` reads a file that is named in the configuration. -/
def resolvePassword (readFile : Bytes → Except Bytes Bytes) : PasswordEntry → Script LuaValue
  | .absent => .returns .nil
  | .text password => .returns (.string password)
  | .command command arguments multiline useTty => do
      let values ← execute command arguments (if useTty then none else some [])
      passwordOf multiline values
  | .prompt label => askPassword label
  | .file name =>
      match readFile name with
      | .ok content => .returns (.string content)
      | .error message => .raises message
  | .other shown => .raises (lit "Bad password entry: " ++ shown)

end Snowcone.Tasks
