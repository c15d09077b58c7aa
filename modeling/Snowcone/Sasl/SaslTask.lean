import Snowcone.Sasl.Authenticate
import Snowcone.Sasl.Scram

/-! The SASL task: a loop over the server's messages that resumes a mechanism with the
payloads it receives.
-/

namespace Snowcone.Sasl

open Bytes Base64 Coroutine

/-- The messages that the task waits for; `authenticate` has its argument, if any. -/
inductive Message where
  | authenticate (chunk : Option Bytes)
  | success
  | fail
  | aborted

/-- What the task sends: payloads, by `send_authenticate`, and the asterisk that aborts. -/
inductive Sent where
  | payload (message : Bytes)
  | abort
  deriving DecidableEq

/-- The locals of the loop, what was sent, and what was reported. -/
structure Loop where
  outcome : Bool
  chunks : List Bytes
  impl : State Bytes Bytes String (Option Bytes)
  sent : List Sent
  statuses : List String

/-- How the task ends. -/
inductive Ending where
  | returned (outcome : Bool)
  | raised (message : String)
  deriving DecidableEq

/-- `status('sasl', ...)`. -/
def Loop.status (loop : Loop) (text : String) : Loop :=
  { loop with statuses := loop.statuses ++ [text] }

/-- A mechanism that cannot go on is aborted. -/
def Loop.fail (loop : Loop) (message : String) : Loop :=
  {
    loop.status ("Mechanism error: " ++ message) with
    sent := loop.sent ++ [.abort]
    outcome := false
  }

/-- Resume the mechanism with a payload. A mechanism that returns no message has nothing
sent.
-/
def Loop.deliver (loop : Loop) (payload : Bytes) : Loop :=
  match loop.impl.resume payload with
  | .ok (.yields message next) =>
      { loop with impl := .suspended next, sent := loop.sent ++ [.payload message] }
  | .ok (.returns (some message)) =>
      { loop with impl := .dead, sent := loop.sent ++ [.payload message] }
  | .ok (.returns none) => { loop with impl := .dead }
  | .ok (.raises message) => { loop with impl := .dead }.fail message
  | .error .dead => loop.fail "cannot resume dead coroutine"
  | .error .notSuspended => loop.fail "cannot resume non-suspended coroutine"

/-- `coroutine.status(impl) == 'dead'`. -/
def Loop.isDead (loop : Loop) : Bool :=
  match loop.impl with
  | .dead => true
  | _ => false

/-- One round of the loop. -/
def saslRound (loop : Loop) : Message → Loop × Option Ending
  | .authenticate chunk =>
      match receive loop.chunks chunk with
      | none =>
          (loop, some (.raised (if chunk.isSome then "Bad base64 in AUTHENTICATE"
            else "bad argument #1 to 'from_base64' (string expected, got nil)")))
      | some (chunks, payload) =>
          let loop := { loop with chunks }
          (match payload with | none => loop | some payload => loop.deliver payload, none)
  | .success =>
      -- ensure the mechanism has completed
      if loop.isDead then (loop.status "SASL success", some (.returned loop.outcome))
      else (loop.status "SASL erroneous success", some (.returned false))
  | .fail => (loop.status "SASL failed", some (.returned false))
  | .aborted => (loop.status "SASL aborted", some (.returned false))

/-- The loop over the messages; without an ending it waits for more. -/
def runSasl (loop : Loop) : List Message → Loop × Option Ending
  | [] => (loop, none)
  | message :: messages =>
      match saslRound loop message with
      | (loop, none) => runSasl loop messages
      | (loop, some ending) => (loop, some ending)

/-- The loop when it is entered with a mechanism. -/
def saslLoop (impl : State Bytes Bytes String (Option Bytes)) : Loop :=
  { outcome := true, chunks := [], impl, sent := [], statuses := [] }

end Snowcone.Sasl
