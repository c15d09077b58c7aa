import Snowcone.Connecting.Connect

/-! The client's connection state: the modes, `irc_state`, the connect task, and the
callbacks of every connection that was started.
-/

namespace Snowcone.Connecting

open Bytes Coroutine Tasks

variable {X509 PKey : Type}

/-- The values of `mode_target`. -/
inductive ModeTarget where
  | exit
  | idle
  | connected
  deriving DecidableEq

/-- The values of `mode_current`. -/
inductive ModeCurrent where
  | idle
  | connecting
  | connected
  deriving DecidableEq

/-- The phases of an `irc_state`. -/
inductive Phase where
  | connecting
  | registration
  | connected
  | closed
  deriving DecidableEq

/-- What connecting uses of an `irc_state`. `conn` is the number of its connection;
`registrations` counts the registration tasks and `pings` the pings that it was sent.
-/
structure IrcState where
  conn : Nat
  phase : Phase
  liveness : Nat
  registrations : Nat
  pings : Nat
  deriving DecidableEq

/-- A connection: whether the client closed it, and which callbacks it has made. -/
structure Connection where
  closed : Bool
  opened : Bool
  ended : Bool
  deriving DecidableEq

/-- A connect task that is suspended. -/
abbrev Waiting (X509 PKey : Type) := List LuaValue → Script (Attempt X509 PKey)

/-- The client's globals. Connections are numbered in the order they were started in, and
`clientTasks` are the connect tasks that are alive.
-/
structure Client (X509 PKey : Type) where
  uptime : Nat
  modeTarget : ModeTarget
  modeCurrent : ModeCurrent
  modeTimestamp : Nat
  ircState : Option IrcState
  clientTasks : List (Waiting X509 PKey)
  connections : List Connection
  shutDown : Bool
  statuses : List (String × Bytes)

/-- The globals before the client starts. -/
def Client.initial : Client X509 PKey :=
  {
    uptime := 0
    modeTarget := .connected
    modeCurrent := .idle
    modeTimestamp := 0
    ircState := none
    clientTasks := []
    connections := []
    shutDown := false
    statuses := []
  }

/-- `status(category, ...)`. -/
def Client.status (client : Client X509 PKey) (category : String) (text : Bytes)
    : Client X509 PKey :=
  { client with statuses := client.statuses ++ [(category, text)] }

/-- `teardown`. -/
def Client.teardown (client : Client X509 PKey) : Client X509 PKey :=
  { client with shutDown := true }

-----------------------------------------------------------------------------------------
-- Connecting and disconnecting
-----------------------------------------------------------------------------------------

/-- `failure`, in the connect task. -/
def Client.failure (client : Client X509 PKey) (report : Bytes) : Client X509 PKey :=
  let client := client.status "connect" report
  {
    client with
    modeCurrent := .idle
    modeTimestamp := client.uptime
    modeTarget := if client.modeTarget = .connected then .idle else client.modeTarget
  }

/-- Run the body of a connect task until it suspends or ends. A body that starts a
connection has it returned by `snowcone.connect`, which never returns nil.
-/
def Client.proceed (client : Client X509 PKey) : Script (Attempt X509 PKey) → Client X509 PKey
  | .yields _ next => { client with clientTasks := client.clientTasks ++ [next] }
  | .raises message => client.status "connect" message
  | .returns (.failed report) => client.failure report
  | .returns (.started _) =>
      {
        client.status "irc" (lit "connecting") with
        ircState := some {
          conn := client.connections.length
          phase := .connecting
          liveness := client.uptime
          registrations := 0
          pings := 0
        }
        connections := client.connections ++ [{ closed := false, opened := false, ended := false }]
        modeCurrent := .connected
        modeTimestamp := client.uptime
      }

/-- `connect`. Outside the idle mode it raises an error, which changes nothing. -/
def Client.connect (host : Host X509 PKey) (configuration : Configuration)
    (client : Client X509 PKey)
    : Client X509 PKey :=
  match client.modeCurrent with
  | .idle =>
      match configuration.server.host with
      | some serverHost =>
          let client := {
            client with
            modeCurrent := .connecting
            modeTimestamp := client.uptime
          }
          client.proceed (connectTask host configuration serverHost)
      | none => client.status "connect" (lit "Connect host not specified")
  | .connecting => client
  | .connected => client

/-- `irc_state:close` closes the connection. -/
def closeConnection (connections : List Connection) (conn : Nat) : List Connection :=
  connections.modify conn (fun connection => { connection with closed := true })

/-- `disconnect`. -/
def Client.disconnect (client : Client X509 PKey) : Client X509 PKey :=
  match client.ircState with
  | none => client
  | some irc =>
      {
        client with
        connections := closeConnection client.connections irc.conn
        ircState := none
        modeCurrent := .idle
        modeTimestamp := client.uptime
      }

/-- `quit`. -/
def Client.quit (client : Client X509 PKey) : Client X509 PKey :=
  let client := { client with modeTarget := .exit }
  match client.modeCurrent with
  | .idle => client.teardown
  | .connected => client.disconnect
  | .connecting => client

/-- The command `/connect`. -/
def Client.connectCommand (host : Host X509 PKey) (configuration : Configuration)
    (client : Client X509 PKey)
    : Client X509 PKey :=
  let client := { client with modeTarget := .connected }
  if client.modeCurrent = .idle then client.connect host configuration else client

/-- The command `/disconnect`. -/
def Client.disconnectCommand (client : Client X509 PKey) : Client X509 PKey :=
  let client := { client with modeTarget := .idle }
  if client.modeCurrent = .connected then client.disconnect else client

/-- The timer's callback. -/
def Client.tick (host : Host X509 PKey) (configuration : Configuration)
    (client : Client X509 PKey)
    : Client X509 PKey :=
  let client := { client with uptime := client.uptime + 1 }
  match client.ircState with
  | some irc =>
      if irc.phase = .connected ∧ client.uptime = irc.liveness + 30 then
        { client with ircState := some { irc with pings := irc.pings + 1 } }
      else if client.uptime = irc.liveness + 60 then client.disconnect
      else client
  | none =>
      if client.modeCurrent = .idle ∧ client.modeTarget = .connected
          ∧ client.uptime = client.modeTimestamp + 5 then
        client.connect host configuration
      else client

/-- `string.match(fingerprint, want_fingerprint)`, which a malformed pattern makes raise. -/
abbrev Matcher := Bytes → Bytes → Except Bytes Bool

/-- Start the registration task. Without an `irc_state` this raises an error. -/
def Client.register (client : Client X509 PKey) : Client X509 PKey :=
  match client.ircState with
  | none => client
  | some irc =>
      {
        client with
        ircState := some {
          irc with
          phase := .registration
          registrations := irc.registrations + 1
        }
      }

/-- `conn_handlers.CON`. An error in it is reported by the caller and changes nothing. -/
def Client.handleCon (isMatch : Matcher) (configuration : Configuration)
    (client : Client X509 PKey) (fingerprint : Bytes)
    : Client X509 PKey :=
  let client := client.status "irc" (lit "connected: " ++ fingerprint)
  if client.modeTarget ≠ .connected then client.disconnect
  else
    match configuration.server.fingerprint with
    | none => client.register
    | some wantFingerprint =>
        match isMatch fingerprint wantFingerprint with
        | .error _ => client
        | .ok true => client.register
        | .ok false => (client.status "irc" (lit "bad fingerprint")).disconnect

/-- `conn_handlers.MSG`: the message's handlers and the tasks that wait for it leave the
connection in some phase.
-/
def Client.handleMsg (client : Client X509 PKey) (phase : Phase) : Client X509 PKey :=
  match client.ircState with
  | none => client
  | some irc => { client with ircState := some { irc with liveness := client.uptime, phase } }

/-- `conn_handlers.END`. -/
def Client.handleEnd (client : Client X509 PKey) (reason : Option Bytes) : Client X509 PKey :=
  let client := client.disconnect.status "irc"
    (lit "disconnected: " ++ reason.getD (lit "end of stream"))
  if client.modeTarget = .exit then client.teardown else client

/-- What the client reacts to. An attempt to connect comes with the host it finds, and a
callback with the number of its connection.
-/
inductive Event (X509 PKey : Type) where
  | connectCommand (host : Host X509 PKey)
  | disconnectCommand
  | quitCommand
  | tick (host : Host X509 PKey)
  | wakes (task : Nat) (values : List LuaValue)
  | con (conn : Nat) (fingerprint : Bytes)
  | msg (conn : Nat) (phase : Phase)
  | fin (conn : Nat) (reason : Option Bytes)

/-- The connection that a callback comes from. -/
def Event.origin : Event X509 PKey → Option Nat
  | .con conn _ => some conn
  | .msg conn _ => some conn
  | .fin conn _ => some conn
  | _ => none

/-- Record what callback a connection has made. -/
def Client.mark (client : Client X509 PKey) (conn : Nat) (change : Connection → Connection)
    : Client X509 PKey :=
  { client with connections := client.connections.modify conn change }

/-- One event. The callbacks of each connection come in the order `(CON MSG*)? END`. -/
def step (isMatch : Matcher) (configuration : Configuration) (client : Client X509 PKey)
    : Event X509 PKey → Option (Client X509 PKey)
  | .connectCommand host => some (client.connectCommand host configuration)
  | .disconnectCommand => some client.disconnectCommand
  | .quitCommand => some client.quit
  | .tick host => some (client.tick host configuration)
  | .wakes task values => do
      let next ← client.clientTasks[task]?
      some (Client.proceed { client with clientTasks := client.clientTasks.eraseIdx task }
        (next values))
  | .con conn fingerprint => do
      let connection ← client.connections[conn]?
      if connection.opened ∨ connection.ended then none
      else
        some ((client.mark conn ({ · with opened := true })).handleCon isMatch configuration
          fingerprint)
  | .msg conn phase => do
      let connection ← client.connections[conn]?
      if ¬ connection.opened ∨ connection.ended then none else some (client.handleMsg phase)
  | .fin conn reason => do
      let connection ← client.connections[conn]?
      if connection.ended then none
      else some ((client.mark conn ({ · with ended := true })).handleEnd reason)

/-- The client after its startup, which connects. -/
def startup (configuration : Configuration) (host : Host X509 PKey) : Client X509 PKey :=
  Client.initial.connect host configuration

end Snowcone.Connecting
