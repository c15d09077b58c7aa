import Snowcone.Components.OrderedMap
import Snowcone.IrcParsing.Parser

/-! `send`: one command is checked, put on the wire, and recorded in the histories. -/

namespace Snowcone.Sending

open Bytes Components IrcParsing

/-- The Lua values that are sent. -/
inductive Value (Num : Type) where
  | string (text : Bytes)
  | number (n : Num)

/-- `tostring`, for some rendering of the numbers. -/
def tostring {Num : Type} (numeral : Num → Bytes) : Value Num → Bytes
  | .string text => text
  | .number n => numeral n

/-- An argument: a value, or a table with a value that may have to stay off the screen. -/
inductive Argument (Num : Type) where
  | plain (v : Value Num)
  | table (content : Value Num) (secret : Bool)

/-- The text that goes on the wire for an argument. -/
def Argument.part {Num : Type} (numeral : Num → Bytes) : Argument Num → Bytes
  | .plain v => tostring numeral v
  | .table content _ => tostring numeral content

/-- The text that is recorded for an argument. -/
def Argument.shown {Num : Type} (numeral : Num → Bytes) : Argument Num → Bytes
  | .plain v => tostring numeral v
  | .table content secret => if secret then 3 :: lit "04*" else tostring numeral content

/-- What the histories record of a message that was sent. -/
structure SentMsg where
  tags : List (IrcTag Bytes)
  command : Bytes
  source : Bytes
  timestamp : Nat
  time : Bytes
  args : List Bytes
  statusmsg : Option Bytes

/-- The value of a server's `ISUPPORT` token: `true` when it came without one. -/
inductive TokenValue where
  | flag
  | text (value : Bytes)

/-- The part of `irc_state` that sending uses; `sent` is what went to the connection. -/
structure IrcState where
  statusmsg : TokenValue
  sent : List Bytes

/-- The histories of the open buffers, under their names in IRC case. -/
abbrev Buffers := Bytes → Option (OrderedMap Bool SentMsg)

/-- The part of the client's state that sending uses. -/
structure Client where
  uptime : Nat
  date : Bytes
  ircState : Option IrcState
  messages : OrderedMap Bool SentMsg
  buffers : Buffers

/-- How a call of a Lua function ends. -/
inductive Ended where
  | returns
  | raises (text : String)
  | hangs
  deriving DecidableEq

/-- Uppercase as IRC has it: the range from `a` to a tilde moves down by 32. -/
def irccase (text : Bytes) : Bytes :=
  text.map (fun b => if 0x61 ≤ b ∧ b ≤ 0x7e then b - 0x20 else b)

/-- The status prefix of a target and the rest of it. The loop looks for the next character
with a plain `find`, which the empty string always passes, so a target that consists of
status characters alone is never left.
-/
def splitStatusmsg (statusmsg : Bytes) : Bytes → Option (Bytes × Bytes)
  | [] => none
  | c :: target =>
      if c ∈ statusmsg then
        (splitStatusmsg statusmsg target).map (fun split => (c :: split.1, split.2))
      else some ([], c :: target)

/-- `IrcState:rawsend`. -/
def IrcState.rawsend (irc : IrcState) (str : Bytes) : IrcState :=
  { irc with sent := irc.sent ++ [str] }

/-- The pattern of a part that may stand anywhere: `^[^ :][^ ]*$`. -/
def isPlain : Bytes → Bool
  | [] => false
  | c :: rest => c != chr ' ' && c != chr ':' && rest.all (· != chr ' ')

/-- One round of the loop over the arguments, for argument `i` of `n`. Only the last one can
be empty, start with a colon or hold a space. The call of `error` with a boolean raises an
error of its own.
-/
def partFor (n i : Nat) (part : Bytes) : Except String Bytes :=
  if part.any (fun b => b == 0 || b == chr '\r' || b == chr '\n') then
    .error "prohibited character in command argument"
  else if !isPlain part then
    if i ≠ n then .error "bad argument #2 to 'error' (number expected, got string)"
    else .ok (chr ':' :: part)
  else .ok part

/-- The loop over the arguments, from argument `i` of `n` on. -/
def partsFrom (n : Nat) : Nat → List Bytes → Except String (List Bytes)
  | _, [] => .ok []
  | i, part :: rest => do
      let part ← partFor n i part
      let parts ← partsFrom n (i + 1) rest
      pure (part :: parts)

/-- `table.concat(parts, ' ')`. -/
def concat (parts : List Bytes) : Bytes := [chr ' '].intercalate parts

/-- The targets in the first argument: `gmatch '[^,]+'`. -/
def targets (first : Bytes) : List Bytes := (first.splitOn (chr ',')).filter (· ≠ [])

/-- The loop over the targets: the message goes to every buffer that is open. A `statusmsg`
that is not a string has no `find`.
-/
def record (statusmsg : TokenValue) (msg : SentMsg) : List Bytes → Buffers → Buffers × Ended
  | [], buffers => (buffers, .returns)
  | x :: more, buffers =>
      match statusmsg with
      | .flag => (buffers, .raises "attempt to index a boolean value (field 'statusmsg')")
      | .text chars =>
          match splitStatusmsg chars x with
          | none => (buffers, .hangs)
          | some (status, target) =>
              match buffers (irccase target) with
              | none => record statusmsg msg more buffers
              | some buffer =>
                  let dup := if status = [] then msg else { msg with statusmsg := some status }
                  record statusmsg msg more
                    (Function.update buffers (irccase target)
                      (some (buffer.insert (some true) dup)))

/-- `send(cmd, ...)`. -/
def send {Num : Type} (numeral : Num → Bytes) (client : Client) (cmd : Bytes)
    (args : List (Argument Num))
    : Client × Ended :=
  match client.ircState with
  | none => (client, .raises "irc not connected")
  | some irc =>
      match partsFrom args.length 1 (args.map (Argument.part numeral)) with
      | .error text => (client, .raises text)
      | .ok parts =>
          let raw := concat (cmd :: parts) ++ [chr '\r', chr '\n']
          if raw.length > 512 then
            (client, .raises ("message too long: " ++ toString raw.length))
          else
            let msg : SentMsg := {
              tags := []
              command := cmd
              source := lit ">>>"
              timestamp := client.uptime
              time := client.date
              args := args.map (Argument.shown numeral)
              statusmsg := none
            }
            let client := {
              client with
              ircState := some (irc.rawsend raw)
              messages := client.messages.insert (some true) msg
            }
            if cmd = lit "PRIVMSG" ∨ cmd = lit "NOTICE" then
              match msg.args with
              | [] => (client, .raises "attempt to index a nil value (field '?')")
              | first :: _ =>
                  let (buffers, ended) := record irc.statusmsg msg (targets first) client.buffers
                  ({ client with buffers }, ended)
            else (client, .returns)

end Snowcone.Sending
