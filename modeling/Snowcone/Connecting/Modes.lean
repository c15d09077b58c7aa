import Snowcone.Connecting.Client
import Snowcone.Foundations.Runs

/-! The modes over whole runs: a connect task that ends without an error leaves the client
idle or connected, and `irc_state` belongs to the latest connection.
-/

namespace Snowcone.Connecting

open Bytes Coroutine Tasks Runs

variable {X509 PKey : Type}

/-- A number is an integer in some range. -/
def InRange (low high : Int) (n : LuaNumber) : Prop :=
  ∃ port, n.toInteger = some port ∧ low ≤ port ∧ port ≤ high

/-- The ports in the configuration are ports, where they are given. -/
structure PortsFit (configuration : Configuration) : Prop where
  server : ∀ n, configuration.server.port = some n → InRange 1 0xffff n
  proxy : ∀ socks n, configuration.socks = some socks → socks.port = some n → InRange 0 0xffff n

/-- `snowcone.connect` raises only for ports that are out of range. -/
theorem startIrc_raises {arguments : Arguments X509 PKey} {message : Bytes}
    (raised : startIrc arguments = .error message) (port : InRange 1 0xffff arguments.port)
    : ∃ n, arguments.socksPort = some n ∧ ¬ InRange 0 0xffff n := by
  obtain ⟨port, isPort, portFits⟩ := port
  have checked : checkInteger 3 arguments.port = .ok port := by simp [checkInteger, isPort]
  have portAccepted : argCheck (1 ≤ port ∧ port ≤ 0xffff) 3 "port out of range" = .ok () :=
    if_pos portFits
  simp only [startIrc, checked, bind, Except.bind, portAccepted] at raised
  cases given : arguments.socksPort with
  | none => simp [given, argCheck, pure, Except.pure] at raised
  | some n =>
      refine ⟨n, rfl, fun ⟨socksPort, isSocksPort, socksFits⟩ => ?_⟩
      have socksChecked : checkInteger 9 n = .ok socksPort := by simp [checkInteger, isSocksPort]
      simp [given, socksChecked, argCheck, socksFits, pure, Except.pure] at raised

/-- The default ports are ports. -/
theorem defaultPort_inRange (useTls : Bool) : InRange 1 0xffff (defaultPort useTls) := by
  cases useTls with
  | false => exact ⟨6667, rfl, by decide, by decide⟩
  | true => exact ⟨6697, rfl, by decide, by decide⟩

/-- The port that is connected to is a port. -/
theorem getD_inRange {configuration : Configuration} (fits : PortsFit configuration)
    (useTls : Bool)
    : InRange 1 0xffff (configuration.server.port.getD (defaultPort useTls)) := by
  cases given : configuration.server.port with
  | none => exact defaultPort_inRange useTls
  | some n => exact fits.server n given

/-- The body of the connect task raises only if the ports do not fit: everything before
`snowcone.connect` is protected. Witness: the rules of sequencing and protected calls.
-/
theorem connectTask_ends (host : Host X509 PKey) (configuration : Configuration)
    (serverHost : Bytes)
    : (connectTask host configuration serverHost).Ends (fun _ => True)
      (fun _ => ¬ PortsFit configuration) := by
  unfold connectTask
  refine .bind (Body.Ends.pcall _ _) (fun tlsClientPassword _ => ?_)
  cases tlsClientPassword with
  | error message => exact .returns trivial
  | ok tlsClientPassword =>
  refine .bind (Body.Ends.pcall _ _) (fun socksPassword _ => ?_)
  cases socksPassword with
  | error message => exact .returns trivial
  | ok socksPassword =>
  refine .bind (Body.Ends.pcall _ _) (fun certText _ => ?_)
  cases certText with
  | error message => exact .returns trivial
  | ok certText =>
  refine .bind (Body.Ends.pcall _ _) (fun keyText _ => ?_)
  cases keyText with
  | error message => exact .returns trivial
  | ok keyText =>
  dsimp only
  split
  · exact .returns trivial
  split
  · exact .returns trivial
  split
  case h_1 message raised =>
    refine .raises (fun fits => ?_)
    obtain ⟨n, given, outOfRange⟩ := startIrc_raises raised (getD_inRange fits _)
    obtain ⟨socks, isSocks, isPort⟩ := Option.bind_eq_some_iff.mp given
    exact outOfRange (fits.proxy socks n isSocks isPort)
  case h_2 => exact .returns trivial

-----------------------------------------------------------------------------------------
-- The invariant
-----------------------------------------------------------------------------------------

/-- Whether the client has closed a connection. -/
def isClosed (connections : List Connection) (conn : Nat) : Bool :=
  connections[conn]?.any (·.closed)

/-- The modes of a client. It is stalled if it is connecting without a connect task, and an
`irc_state` belongs to the latest connection, which is open.
-/
inductive Modes (configuration : Configuration) (client : Client X509 PKey) : Prop where
  | idle (current : client.modeCurrent = .idle) (noState : client.ircState = none)
    (noTask : client.clientTasks = [])
  | connecting (current : client.modeCurrent = .connecting) (noState : client.ircState = none)
    (next : Waiting X509 PKey) (task : client.clientTasks = [next])
    (ends : ∀ values,
      (next values).Ends (fun _ => True) (fun _ => ¬ PortsFit configuration))
  | stalled (current : client.modeCurrent = .connecting) (noState : client.ircState = none)
    (noTask : client.clientTasks = []) (misfit : ¬ PortsFit configuration)
  | connected (irc : IrcState) (current : client.modeCurrent = .connected)
    (state : client.ircState = some irc) (noTask : client.clientTasks = [])
    (latest : client.connections.length = irc.conn + 1)
    (isOpen : isClosed client.connections irc.conn = false)

/-- What the modes depend on: two clients that agree on it have the same modes. -/
structure SameModes (client client' : Client X509 PKey) : Prop where
  current : client'.modeCurrent = client.modeCurrent
  state : client'.ircState.map (·.conn) = client.ircState.map (·.conn)
  tasks : client'.clientTasks = client.clientTasks
  count : client'.connections.length = client.connections.length
  closed : ∀ conn, isClosed client'.connections conn = isClosed client.connections conn

/-- The modes carry over to a client that agrees on what they depend on. -/
theorem Modes.transfer {configuration : Configuration} {client client' : Client X509 PKey}
    (modes : Modes configuration client) (same : SameModes client client')
    : Modes configuration client' := by
  cases modes with
  | idle current noState noTask =>
      refine .idle (same.current.trans current) ?_ (same.tasks.trans noTask)
      simpa [noState] using same.state
  | connecting current noState next task ends =>
      refine .connecting (same.current.trans current) ?_ next (same.tasks.trans task) ends
      simpa [noState] using same.state
  | stalled current noState noTask misfit =>
      refine .stalled (same.current.trans current) ?_ (same.tasks.trans noTask) misfit
      simpa [noState] using same.state
  | connected irc current state noTask latest isOpen =>
      have sameState := same.state
      rw [state] at sameState
      obtain ⟨irc', state', sameConn⟩ := Option.map_eq_some_iff.mp sameState
      refine .connected irc' (same.current.trans current) state' (same.tasks.trans noTask) ?_ ?_
      · rw [sameConn]
        exact same.count.trans latest
      · rw [sameConn]
        exact (same.closed _).trans isOpen

/-- Changing a connection without closing it changes no connection's being closed. -/
theorem isClosed_modify {connections : List Connection} {change : Connection → Connection}
    (keeps : ∀ connection, (change connection).closed = connection.closed) (changed conn : Nat)
    : isClosed (connections.modify changed change) conn = isClosed connections conn := by
  unfold isClosed
  rw [List.getElem?_modify]
  cases connections[conn]? with
  | none => rfl
  | some connection => by_cases same : changed = conn <;> simp [same, keeps]

/-- Marking a callback does not change the modes. -/
theorem mark_same (client : Client X509 PKey) (conn : Nat) {change : Connection → Connection}
    (keeps : ∀ connection, (change connection).closed = connection.closed)
    : SameModes client (client.mark conn change) :=
  ⟨rfl, rfl, rfl, List.length_modify .., isClosed_modify keeps conn⟩

-----------------------------------------------------------------------------------------
-- Every operation keeps it
-----------------------------------------------------------------------------------------

/-- `disconnect` leaves a connected client idle, and any other as it is. -/
theorem disconnect_modes {configuration : Configuration} {client : Client X509 PKey}
    (modes : Modes configuration client)
    : Modes configuration client.disconnect := by
  cases state : client.ircState with
  | none => simpa [Client.disconnect, state] using modes
  | some irc =>
      simp only [Client.disconnect, state]
      cases modes with
      | connected _ _ _ noTask => exact .idle rfl rfl noTask
      | idle _ noState => simp [state] at noState
      | connecting _ noState => simp [state] at noState
      | stalled _ noState => simp [state] at noState

/-- A connect task that runs until it suspends or ends, by cases on what its body does. -/
theorem proceed_modes {configuration : Configuration} {client : Client X509 PKey}
    {body : Script (Attempt X509 PKey)} (current : client.modeCurrent = .connecting)
    (noState : client.ircState = none) (noTask : client.clientTasks = [])
    (ends : body.Ends (fun _ => True) (fun _ => ¬ PortsFit configuration))
    : Modes configuration (client.proceed body) := by
  cases ends with
  | @returns attempt =>
      cases attempt with
      | failed report => exact .idle rfl noState noTask
      | started settings =>
          refine .connected _ rfl rfl noTask (by simp [Client.proceed, Client.status]) ?_
          simp [isClosed, Client.proceed, Client.status]
  | raises misfit => exact .stalled current noState noTask misfit
  | @yields suspension next later =>
      exact .connecting current noState next (by simp [Client.proceed, noTask]) later

/-- An attempt to connect. -/
theorem connect_modes {configuration : Configuration} {client : Client X509 PKey}
    (host : Host X509 PKey) (modes : Modes configuration client)
    : Modes configuration (client.connect host configuration) := by
  cases current : client.modeCurrent with
  | connecting => simpa only [Client.connect, current] using modes
  | connected => simpa only [Client.connect, current] using modes
  | idle =>
      cases modes with
      | connecting isCurrent => simp [current] at isCurrent
      | stalled isCurrent => simp [current] at isCurrent
      | connected _ isCurrent => simp [current] at isCurrent
      | idle _ noState noTask =>
          simp only [Client.connect, current]
          split
          · exact proceed_modes rfl noState noTask (connectTask_ends ..)
          · exact .idle current noState noTask

/-- The timer's callback. -/
theorem tick_modes {configuration : Configuration} {client : Client X509 PKey}
    (host : Host X509 PKey) (modes : Modes configuration client)
    : Modes configuration (client.tick host configuration) := by
  have later : Modes configuration { client with uptime := client.uptime + 1 } :=
    modes.transfer ⟨rfl, rfl, rfl, rfl, fun _ => rfl⟩
  unfold Client.tick
  dsimp only
  split
  case h_1 irc state =>
    split
    · exact later.transfer ⟨rfl, by simp [state], rfl, rfl, fun _ => rfl⟩
    · split
      · exact disconnect_modes later
      · exact later
  case h_2 =>
    split
    · exact connect_modes host later
    · exact later

/-- Starting the registration task changes nothing that the modes depend on. -/
theorem register_same (client : Client X509 PKey) : SameModes client client.register := by
  cases state : client.ircState with
  | none =>
      rw [Client.register, state]
      exact ⟨rfl, rfl, rfl, rfl, fun _ => rfl⟩
  | some irc =>
      rw [Client.register, state]
      exact ⟨rfl, by simp [state], rfl, rfl, fun _ => rfl⟩

/-- The callback of an opened connection. -/
theorem handleCon_modes {configuration : Configuration} {client : Client X509 PKey}
    (isMatch : Matcher) (fingerprint : Bytes) (modes : Modes configuration client)
    : Modes configuration (client.handleCon isMatch configuration fingerprint) := by
  have reported (text : Bytes) {client : Client X509 PKey} (modes : Modes configuration client)
      : Modes configuration (client.status "irc" text) :=
    modes.transfer ⟨rfl, rfl, rfl, rfl, fun _ => rfl⟩
  have opened := reported (lit "connected: " ++ fingerprint) modes
  unfold Client.handleCon
  dsimp only
  split
  · exact disconnect_modes opened
  · split
    · exact opened.transfer (register_same _)
    · split
      · exact opened
      · exact opened.transfer (register_same _)
      · exact disconnect_modes (reported _ opened)

/-- The callback of a message. -/
theorem handleMsg_modes {configuration : Configuration} {client : Client X509 PKey}
    (phase : Phase) (modes : Modes configuration client)
    : Modes configuration (client.handleMsg phase) := by
  unfold Client.handleMsg
  split
  · exact modes
  case h_2 irc state => exact modes.transfer ⟨rfl, by simp [state], rfl, rfl, fun _ => rfl⟩

/-- The callback of the end of a connection. -/
theorem handleEnd_modes {configuration : Configuration} {client : Client X509 PKey}
    (reason : Option Bytes) (modes : Modes configuration client)
    : Modes configuration (client.handleEnd reason) := by
  have ended := disconnect_modes modes
  unfold Client.handleEnd
  dsimp only
  split
  · exact ended.transfer ⟨rfl, rfl, rfl, rfl, fun _ => rfl⟩
  · exact ended.transfer ⟨rfl, rfl, rfl, rfl, fun _ => rfl⟩

/-- The user's commands. -/
theorem quit_modes {configuration : Configuration} {client : Client X509 PKey}
    (modes : Modes configuration client)
    : Modes configuration client.quit := by
  have aimed : Modes configuration { client with modeTarget := .exit } :=
    modes.transfer ⟨rfl, rfl, rfl, rfl, fun _ => rfl⟩
  unfold Client.quit
  dsimp only
  split
  · exact aimed.transfer ⟨rfl, rfl, rfl, rfl, fun _ => rfl⟩
  · exact disconnect_modes aimed
  · exact aimed

/-- One event keeps the modes, by cases on the event. -/
theorem step_modes {isMatch : Matcher} {configuration : Configuration}
    {client client' : Client X509 PKey} (event : Event X509 PKey)
    (modes : Modes configuration client)
    (moves : step isMatch configuration client event = some client')
    : Modes configuration client' := by
  have aimed (modeTarget : ModeTarget) : Modes configuration { client with modeTarget } :=
    modes.transfer ⟨rfl, rfl, rfl, rfl, fun _ => rfl⟩
  cases event with
  | connectCommand host =>
      obtain rfl := Option.some.inj moves
      unfold Client.connectCommand
      dsimp only
      split
      · exact connect_modes host (aimed _)
      · exact aimed _
  | disconnectCommand =>
      obtain rfl := Option.some.inj moves
      unfold Client.disconnectCommand
      dsimp only
      split
      · exact disconnect_modes (aimed _)
      · exact aimed _
  | quitCommand =>
      obtain rfl := Option.some.inj moves
      exact quit_modes modes
  | tick host =>
      obtain rfl := Option.some.inj moves
      exact tick_modes host modes
  | wakes task values =>
      obtain ⟨next, alive, rest⟩ := Option.bind_eq_some_iff.mp moves
      obtain rfl := Option.some.inj rest
      cases modes with
      | idle _ _ noTask => simp [noTask] at alive
      | stalled _ _ noTask => simp [noTask] at alive
      | connected _ _ _ noTask => simp [noTask] at alive
      | connecting current noState waiting isTask ends =>
          rw [isTask, List.getElem?_singleton] at alive
          split at alive
          case isFalse => cases alive
          case isTrue first =>
            obtain rfl := Option.some.inj alive
            subst first
            exact proceed_modes current noState (by simp [isTask]) (ends values)
  | con conn fingerprint =>
      obtain ⟨connection, -, rest⟩ := Option.bind_eq_some_iff.mp moves
      split at rest
      · cases rest
      · obtain rfl := Option.some.inj rest
        exact handleCon_modes isMatch fingerprint
          (modes.transfer (mark_same client conn (fun _ => rfl)))
  | msg conn phase =>
      obtain ⟨connection, -, rest⟩ := Option.bind_eq_some_iff.mp moves
      split at rest
      · cases rest
      · obtain rfl := Option.some.inj rest
        exact handleMsg_modes phase modes
  | fin conn reason =>
      obtain ⟨connection, -, rest⟩ := Option.bind_eq_some_iff.mp moves
      split at rest
      · cases rest
      · obtain rfl := Option.some.inj rest
        exact handleEnd_modes reason (modes.transfer (mark_same client conn (fun _ => rfl)))

/-- The modes of every reachable client. -/
theorem reachable_modes {isMatch : Matcher} {configuration : Configuration}
    {host : Host X509 PKey} {events : List (Event X509 PKey)} {client : Client X509 PKey}
    (run : Reaches (step isMatch configuration) (startup configuration host) events client)
    : Modes configuration client :=
  run.invariant (connect_modes host (.idle rfl rfl rfl))
    (fun _ event _ modes moves => step_modes event modes moves)

end Snowcone.Connecting
