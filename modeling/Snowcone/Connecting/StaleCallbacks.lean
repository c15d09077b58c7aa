import Snowcone.Connecting.Modes

/-! Callbacks of connections that the client has closed: the handlers take them for
callbacks of the connection that is current when they arrive.
-/

namespace Snowcone.Connecting

open Bytes Coroutine Tasks Runs

variable {X509 PKey : Type}

/-- A callback leaves the current connection alone: it stays open and current, no
registration task is started on it, and the mode stays.
-/
structure LeavesAlone (irc : IrcState) (before after : Client X509 PKey) : Prop where
  current : ∃ irc', after.ircState = some irc' ∧ irc'.conn = irc.conn
    ∧ irc'.registrations = irc.registrations
  mode : after.modeCurrent = before.modeCurrent
  isOpen : isClosed after.connections irc.conn = false

/-- A callback that comes from a closed connection leaves a later connection alone, both
while that one is current and while it is being set up.
-/
structure Harmless (before : Client X509 PKey) (event : Event X509 PKey)
    (after : Client X509 PKey)
    : Prop where
  current : ∀ conn irc, event.origin = some conn → isClosed before.connections conn = true →
    before.ircState = some irc → conn < irc.conn ∧ LeavesAlone irc before after
  settingUp : ∀ conn, event.origin = some conn → isClosed before.connections conn = true →
    before.ircState = none →
      after.ircState = none ∧ after.modeCurrent = before.modeCurrent
      ∧ after.clientTasks = before.clientTasks

/-- An `END` or `CON` of a closed connection while another one is current. A `CON` can only
fail to have an effect when the fingerprint in the configuration is a malformed pattern.
-/
inductive Intrudes (isMatch : Matcher) (configuration : Configuration)
    (before : Client X509 PKey)
    : Event X509 PKey → Prop
  | fin {conn irc} (reason : Option Bytes) (closed : isClosed before.connections conn = true)
    (current : before.ircState = some irc)
    : Intrudes isMatch configuration before (.fin conn reason)
  | con {conn irc} (fingerprint : Bytes) (closed : isClosed before.connections conn = true)
    (current : before.ircState = some irc)
    (decides : before.modeTarget = .connected → ∀ wantFingerprint,
      configuration.server.fingerprint = some wantFingerprint →
        ∃ answer, isMatch fingerprint wantFingerprint = .ok answer)
    : Intrudes isMatch configuration before (.con conn fingerprint)

-----------------------------------------------------------------------------------------
-- What the handlers do
-----------------------------------------------------------------------------------------

/-- Closing and reopening aside, a closed connection is earlier than the current one. -/
theorem closed_lt_current {configuration : Configuration} {client : Client X509 PKey}
    {conn : Nat} {irc : IrcState} (modes : Modes configuration client)
    (closed : isClosed client.connections conn = true) (state : client.ircState = some irc)
    : conn < irc.conn ∧ isClosed client.connections irc.conn = false := by
  cases modes with
  | idle _ noState => simp [state] at noState
  | connecting _ noState => simp [state] at noState
  | stalled _ noState => simp [state] at noState
  | connected irc' _ state' _ latest isOpen =>
      obtain rfl := Option.some.inj (state.symm.trans state')
      have known : conn < client.connections.length := by
        by_contra beyond
        rw [isClosed, List.getElem?_eq_none (by omega)] at closed
        cases closed
      have other : conn ≠ irc.conn := by
        rintro rfl
        simp [isOpen] at closed
      exact ⟨by omega, isOpen⟩

/-- Without an `irc_state` the handler of `CON` only reports. -/
theorem handleCon_of_none (isMatch : Matcher) (configuration : Configuration)
    {client : Client X509 PKey} (fingerprint : Bytes) (noState : client.ircState = none)
    : ∃ statuses,
      client.handleCon isMatch configuration fingerprint = { client with statuses } := by
  unfold Client.handleCon
  dsimp only
  split
  · exact ⟨_, by simp [Client.disconnect, Client.status, noState]; rfl⟩
  · split
    · exact ⟨_, by simp [Client.register, Client.status, noState]; rfl⟩
    · split
      · exact ⟨_, rfl⟩
      · exact ⟨_, by simp [Client.register, Client.status, noState]; rfl⟩
      · exact ⟨_, by simp [Client.disconnect, Client.status, noState]; rfl⟩

/-- Without an `irc_state` the handler of `END` reports, and may end the program. -/
theorem handleEnd_of_none {client : Client X509 PKey} (reason : Option Bytes)
    (noState : client.ircState = none)
    : ∃ statuses shutDown, client.handleEnd reason = { client with statuses, shutDown } := by
  have same : client.disconnect = client := by simp [Client.disconnect, noState]
  unfold Client.handleEnd
  rw [same]
  dsimp only
  split
  · exact ⟨_, true, rfl⟩
  · exact ⟨_, client.shutDown, rfl⟩

/-- `disconnect` leaves no `irc_state`. -/
theorem disconnect_ircState (client : Client X509 PKey) : client.disconnect.ircState = none := by
  unfold Client.disconnect
  split
  · assumption
  · rfl

/-- The handler of `END` leaves no `irc_state`. -/
theorem handleEnd_ircState (client : Client X509 PKey) (reason : Option Bytes)
    : (client.handleEnd reason).ircState = none := by
  unfold Client.handleEnd
  dsimp only
  split <;> exact disconnect_ircState client

/-- The handler of `CON` either closes the current connection or registers on it, provided
that it can compare the fingerprints.
-/
theorem handleCon_decides {isMatch : Matcher} {configuration : Configuration}
    {client : Client X509 PKey} {fingerprint : Bytes} {irc : IrcState}
    (state : client.ircState = some irc)
    (decides : client.modeTarget = .connected → ∀ wantFingerprint,
      configuration.server.fingerprint = some wantFingerprint →
        ∃ answer, isMatch fingerprint wantFingerprint = .ok answer)
    : let after := client.handleCon isMatch configuration fingerprint
      after.ircState = none
      ∨ ∃ irc', after.ircState = some irc' ∧ irc'.registrations = irc.registrations + 1 := by
  have registers (client : Client X509 PKey) (state : client.ircState = some irc)
      : ∃ irc', client.register.ircState = some irc'
        ∧ irc'.registrations = irc.registrations + 1 := by
    rw [Client.register, state]
    exact ⟨_, rfl, rfl⟩
  unfold Client.handleCon
  dsimp only
  split
  case isTrue => exact .inl (disconnect_ircState _)
  case isFalse target =>
    split
    case h_1 => exact .inr (registers _ state)
    case h_2 wantFingerprint wanted =>
      obtain ⟨answer, decided⟩ := decides (not_not.mp target) wantFingerprint wanted
      rw [decided]
      cases answer with
      | true => exact .inr (registers _ state)
      | false => exact .inl (disconnect_ircState _)

/-- The handler of `CON` does nothing where it cannot compare the fingerprints. -/
theorem handleCon_raises {isMatch : Matcher} {configuration : Configuration}
    {client : Client X509 PKey} {fingerprint wantFingerprint error : Bytes}
    (target : client.modeTarget = .connected)
    (wanted : configuration.server.fingerprint = some wantFingerprint)
    (raises : isMatch fingerprint wantFingerprint = .error error)
    : client.handleCon isMatch configuration fingerprint
      = client.status "irc" (lit "connected: " ++ fingerprint) := by
  have stays : (client.status "irc" (lit "connected: " ++ fingerprint)).modeTarget = .connected :=
    target
  simp only [Client.handleCon, stays, ne_eq, not_true_eq_false, if_false, wanted, raises]

-----------------------------------------------------------------------------------------
-- Every run
-----------------------------------------------------------------------------------------

/-- An intrusion is no harmless step: the current connection is gone, or has one more
registration task.
-/
theorem Intrudes.not_harmless {isMatch : Matcher} {configuration : Configuration}
    {before after : Client X509 PKey} {event : Event X509 PKey}
    (intrudes : Intrudes isMatch configuration before event)
    (moves : step isMatch configuration before event = some after)
    : ¬ Harmless before event after := by
  intro harmless
  cases intrudes with
  | @fin conn irc reason closed state =>
      obtain ⟨-, ⟨irc', state', -⟩, -⟩ := harmless.current conn irc rfl closed state
      obtain ⟨connection, -, rest⟩ := Option.bind_eq_some_iff.mp moves
      split at rest
      · cases rest
      · obtain rfl := Option.some.inj rest
        rw [handleEnd_ircState] at state'
        cases state'
  | @con conn irc fingerprint closed state decides =>
      obtain ⟨-, ⟨irc', state', -, same⟩, -⟩ := harmless.current conn irc rfl closed state
      obtain ⟨connection, -, rest⟩ := Option.bind_eq_some_iff.mp moves
      split at rest
      · cases rest
      · obtain rfl := Option.some.inj rest
        have marked : (before.mark conn ({ · with opened := true })).ircState = some irc := state
        rcases handleCon_decides marked decides with gone | ⟨irc'', state'', more⟩
        · rw [gone] at state'
          cases state'
        · rw [state'] at state''
          obtain rfl := Option.some.inj state''
          omega

/-- A step that changes neither the mode, the `irc_state` nor the connect tasks and closes
no connection is harmless.
-/
theorem harmless_of_same {configuration : Configuration} {before after : Client X509 PKey}
    {event : Event X509 PKey} (modes : Modes configuration before)
    (state : after.ircState.map (fun irc => (irc.conn, irc.registrations))
      = before.ircState.map (fun irc => (irc.conn, irc.registrations)))
    (mode : after.modeCurrent = before.modeCurrent)
    (tasks : after.clientTasks = before.clientTasks)
    (closed : ∀ conn, isClosed after.connections conn = isClosed before.connections conn)
    : Harmless before event after := by
  constructor
  · intro conn irc _ isStale current
    obtain ⟨earlier, isOpen⟩ := closed_lt_current modes isStale current
    rw [current] at state
    obtain ⟨irc', current', same⟩ := Option.map_eq_some_iff.mp state
    obtain ⟨sameConn, sameRegistrations⟩ := Prod.mk.inj same
    exact ⟨earlier, ⟨irc', current', sameConn, sameRegistrations⟩, mode,
      (closed irc.conn).trans isOpen⟩
  · intro conn _ _ noState
    rw [noState] at state
    exact ⟨Option.map_eq_none_iff.mp state, mode, tasks⟩

/-- Every other step is harmless, by cases on the event. -/
theorem harmless_of_not_intrudes {isMatch : Matcher} {configuration : Configuration}
    {before after : Client X509 PKey} {event : Event X509 PKey}
    (modes : Modes configuration before)
    (moves : step isMatch configuration before event = some after)
    (peaceful : ¬ Intrudes isMatch configuration before event)
    : Harmless before event after := by
  by_cases stale : ∃ conn, event.origin = some conn ∧ isClosed before.connections conn = true
  case neg =>
    constructor
    · exact fun conn irc origin closed => absurd ⟨conn, origin, closed⟩ stale
    · exact fun conn origin closed => absurd ⟨conn, origin, closed⟩ stale
  obtain ⟨conn, origin, closed⟩ := stale
  cases event with
  | connectCommand | disconnectCommand | quitCommand | tick | wakes => cases origin
  | msg conn phase =>
      obtain ⟨connection, -, rest⟩ := Option.bind_eq_some_iff.mp moves
      split at rest
      · cases rest
      · obtain rfl := Option.some.inj rest
        unfold Client.handleMsg
        split
        · exact harmless_of_same modes rfl rfl rfl (fun _ => rfl)
        case h_2 irc state =>
          exact harmless_of_same modes (by simp [state]) rfl rfl (fun _ => rfl)
  | fin conn reason =>
      obtain rfl := Option.some.inj origin
      obtain ⟨connection, -, rest⟩ := Option.bind_eq_some_iff.mp moves
      split at rest
      · cases rest
      · obtain rfl := Option.some.inj rest
        cases state : before.ircState with
        | some irc => exact absurd (.fin reason closed state) peaceful
        | none =>
            have marked : (before.mark conn ({ · with ended := true })).ircState = none := state
            obtain ⟨statuses, shutDown, handled⟩ := handleEnd_of_none reason marked
            rw [handled]
            exact harmless_of_same modes rfl rfl rfl (isClosed_modify (by intro; rfl) conn)
  | con conn fingerprint =>
      obtain rfl := Option.some.inj origin
      obtain ⟨connection, -, rest⟩ := Option.bind_eq_some_iff.mp moves
      split at rest
      · cases rest
      · obtain rfl := Option.some.inj rest
        have same (statuses : List (String × Bytes)) : Harmless before (.con conn fingerprint)
            { before.mark conn ({ · with opened := true }) with statuses } :=
          harmless_of_same modes rfl rfl rfl (isClosed_modify (by intro; rfl) conn)
        cases state : before.ircState with
        | none =>
            have marked : (before.mark conn ({ · with opened := true })).ircState = none := state
            obtain ⟨statuses, handled⟩ :=
              handleCon_of_none isMatch configuration fingerprint marked
            rw [handled]
            exact same statuses
        | some irc =>
            by_cases raises : ∃ wantFingerprint error, before.modeTarget = .connected
                ∧ configuration.server.fingerprint = some wantFingerprint
                ∧ isMatch fingerprint wantFingerprint = .error error
            · obtain ⟨wantFingerprint, error, target, wanted, raised⟩ := raises
              have marked : (before.mark conn ({ · with opened := true })).modeTarget
                  = .connected :=
                target
              rw [handleCon_raises marked wanted raised]
              exact same _
            · refine absurd (.con fingerprint closed state ?_) peaceful
              intro target wantFingerprint wanted
              cases answer : isMatch fingerprint wantFingerprint with
              | error error => exact absurd ⟨_, _, target, wanted, answer⟩ raises
              | ok isSame => exact ⟨isSame, rfl⟩

/-- A step of a reachable client is harmless unless it is an intrusion. -/
theorem harmless_iff {isMatch : Matcher} {configuration : Configuration}
    {before after : Client X509 PKey} {event : Event X509 PKey}
    (modes : Modes configuration before)
    (moves : step isMatch configuration before event = some after)
    : Harmless before event after ↔ ¬ Intrudes isMatch configuration before event :=
  ⟨fun harmless intrudes => intrudes.not_harmless moves harmless,
    harmless_of_not_intrudes modes moves⟩

/-- In every run of the client, callbacks of connections that it has closed are harmless
for later connections exactly if none of them is an `END` or `CON` that arrives while a
later connection is current. Witness: the modes of every reachable client, step by step.
-/
theorem stale_callbacks_harmless_iff (isMatch : Matcher) (configuration : Configuration)
    (host : Host X509 PKey) (events : List (Event X509 PKey))
    : Along (step isMatch configuration) Harmless (startup configuration host) events
      ↔ Along (step isMatch configuration)
        (fun before event _ => ¬ Intrudes isMatch configuration before event)
        (startup configuration host) events :=
  along_iff events (connect_modes host (.idle rfl rfl rfl))
    (fun _ event _ modes moves _ => step_modes event modes moves)
    (fun _ _ _ modes moves => harmless_iff modes moves)

/-- A server whose name is all that is configured. -/
def plainConfiguration : Configuration :=
  {
    server := { host := some (lit "irc.example"), port := none, fingerprint := none }
    socks := none
    tls := none
  }

/-- A host that no configured password or key asks for anything. -/
def plainHost : Host Unit Unit :=
  {
    readFile := fun _ _ => .error []
    readX509 := fun _ => .error []
    pkeyFromStore := fun _ _ => .error []
    readPem := fun _ _ => .error []
  }

/-- The user disconnects and connects again; then the first connection ends, which closes
the second one and leaves the client idle.
-/
theorem stale_callbacks_harmless_counterexample
    : let events : List (Event Unit Unit) :=
        [.disconnectCommand, .connectCommand plainHost, .fin 0 none]
      ∃ before after : Client Unit Unit,
        Reaches (step (fun _ _ => .ok true) plainConfiguration)
          (startup plainConfiguration plainHost) (events.take 2) before
        ∧ step (fun _ _ => .ok true) plainConfiguration before (.fin 0 none) = some after
        ∧ before.ircState.map (·.conn) = some 1 ∧ isClosed before.connections 1 = false
        ∧ isClosed before.connections 0 = true
        ∧ after.ircState = none ∧ isClosed after.connections 1 = true
        ∧ after.modeCurrent = .idle
        ∧ ¬ Along (step (fun _ _ => .ok true) plainConfiguration) Harmless
          (startup plainConfiguration plainHost) events := by
  intro events
  let reached := run (step (fun _ _ => .ok true) plainConfiguration)
    (startup plainConfiguration plainHost) (events.take 2)
  have runs : reached = some (reached.get rfl) := (Option.some_get _).symm
  refine ⟨reached.get rfl, _, reaches_of_run runs, rfl, rfl, rfl, rfl, rfl, rfl, rfl, ?_⟩
  intro along
  obtain ⟨-, along⟩ := along _ rfl
  obtain ⟨-, along⟩ := along _ rfl
  obtain ⟨harmless, -⟩ := along _ rfl
  obtain ⟨-, ⟨irc', state', -⟩, -⟩ := harmless.current 0 _ rfl rfl rfl
  cases state'

end Snowcone.Connecting
