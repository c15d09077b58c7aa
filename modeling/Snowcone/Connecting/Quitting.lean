import Snowcone.Connecting.Recovery

/-! A request to quit: it is recorded in the mode, and carried out when the last connection
ends, unless the attempt to connect fails.
-/

namespace Snowcone.Connecting

open Bytes Coroutine Tasks Runs

variable {X509 PKey : Type}

/-- Every connection that was started has delivered its `END`. -/
def AllEnded (client : Client X509 PKey) : Prop :=
  ∀ connection ∈ client.connections, connection.ended = true

/-- When no connect task is alive and all connections have ended, the client is shut down. -/
def QuitHonoured (client : Client X509 PKey) : Prop :=
  client.clientTasks = [] → AllEnded client → client.shutDown = true

/-- The user asks for something else before the client is shut down. -/
def Supersedes (before : Client X509 PKey) : Event X509 PKey → Prop
  | .connectCommand _ => before.shutDown = false
  | .disconnectCommand => before.shutDown = false
  | _ => False

/-- A connect task ends without a connection. -/
inductive Fails : Script (Attempt X509 PKey) → Prop
  | raises (message : Bytes) : Fails (.raises message)
  | failed (report : Bytes) : Fails (.returns (.failed report))

/-- The attempt to connect has failed when no other connection is left to end: it fails
after the request, or it had failed with an error before it.
-/
inductive LosesQuit (before : Client X509 PKey) : Event X509 PKey → Prop
  | wakes {task : Nat} {values : List LuaValue} {next : Waiting X509 PKey}
    (waiting : before.clientTasks[task]? = some next) (fails : Fails (next values))
    (ended : AllEnded before) (running : before.shutDown = false)
    : LosesQuit before (.wakes task values)
  | quit (connecting : before.modeCurrent = .connecting) (noTask : before.clientTasks = [])
    (ended : AllEnded before) (running : before.shutDown = false)
    : LosesQuit before .quitCommand

-----------------------------------------------------------------------------------------
-- Shutting down is final
-----------------------------------------------------------------------------------------

/-- Disconnecting does not change whether the client is shut down. -/
theorem disconnect_shutDown (client : Client X509 PKey)
    : client.disconnect.shutDown = client.shutDown := by
  unfold Client.disconnect
  split <;> rfl

/-- A connect task does not change whether the client is shut down. -/
theorem proceed_shutDown (client : Client X509 PKey) (body : Script (Attempt X509 PKey))
    : (client.proceed body).shutDown = client.shutDown := by
  unfold Client.proceed
  split <;> rfl

/-- Connecting does not change whether the client is shut down. -/
theorem connect_shutDown (host : Host X509 PKey) (configuration : Configuration)
    (client : Client X509 PKey)
    : (client.connect host configuration).shutDown = client.shutDown := by
  unfold Client.connect
  split
  · split
    · exact proceed_shutDown _ _
    · rfl
  · rfl
  · rfl

/-- The timer does not change whether the client is shut down. -/
theorem tick_shutDown (host : Host X509 PKey) (configuration : Configuration)
    (client : Client X509 PKey)
    : (client.tick host configuration).shutDown = client.shutDown := by
  unfold Client.tick
  dsimp only
  split
  · split
    · rfl
    · split
      · exact disconnect_shutDown _
      · rfl
  · split
    · exact connect_shutDown ..
    · rfl

/-- Registering does not change whether the client is shut down. -/
theorem register_shutDown (client : Client X509 PKey)
    : client.register.shutDown = client.shutDown := by
  unfold Client.register
  split <;> rfl

/-- The callback of an opened connection does not change whether the client is shut down. -/
theorem handleCon_shutDown (isMatch : Matcher) (configuration : Configuration)
    (client : Client X509 PKey) (fingerprint : Bytes)
    : (client.handleCon isMatch configuration fingerprint).shutDown = client.shutDown := by
  unfold Client.handleCon
  dsimp only
  split
  · exact disconnect_shutDown _
  · split
    · exact register_shutDown _
    · split
      · rfl
      · exact register_shutDown _
      · exact disconnect_shutDown _

/-- A client that is shut down stays so, by cases on the event. -/
theorem step_shutDown {isMatch : Matcher} {configuration : Configuration}
    {client client' : Client X509 PKey} {event : Event X509 PKey}
    (moves : step isMatch configuration client event = some client')
    (shutDown : client.shutDown = true)
    : client'.shutDown = true := by
  cases event with
  | connectCommand host =>
      obtain rfl := Option.some.inj moves
      unfold Client.connectCommand
      dsimp only
      split
      · exact (connect_shutDown ..).trans shutDown
      · exact shutDown
  | disconnectCommand =>
      obtain rfl := Option.some.inj moves
      unfold Client.disconnectCommand
      dsimp only
      split
      · exact (disconnect_shutDown _).trans shutDown
      · exact shutDown
  | quitCommand =>
      obtain rfl := Option.some.inj moves
      unfold Client.quit
      dsimp only
      split
      · rfl
      · exact (disconnect_shutDown _).trans shutDown
      · exact shutDown
  | tick host =>
      obtain rfl := Option.some.inj moves
      exact (tick_shutDown ..).trans shutDown
  | wakes task values =>
      obtain ⟨next, -, isNext⟩ := Option.bind_eq_some_iff.mp moves
      obtain rfl := Option.some.inj isNext
      exact (proceed_shutDown _ _).trans shutDown
  | con conn fingerprint =>
      obtain ⟨connection, -, isNext⟩ := Option.bind_eq_some_iff.mp moves
      obtain ⟨-, isNext⟩ := Option.ite_none_left_eq_some.mp isNext
      obtain rfl := Option.some.inj isNext
      exact (handleCon_shutDown ..).trans shutDown
  | msg conn phase =>
      obtain ⟨connection, -, isNext⟩ := Option.bind_eq_some_iff.mp moves
      obtain ⟨-, isNext⟩ := Option.ite_none_left_eq_some.mp isNext
      obtain rfl := Option.some.inj isNext
      unfold Client.handleMsg
      split <;> exact shutDown
  | fin conn reason =>
      obtain ⟨connection, -, isNext⟩ := Option.bind_eq_some_iff.mp moves
      obtain ⟨-, isNext⟩ := Option.ite_none_left_eq_some.mp isNext
      obtain rfl := Option.some.inj isNext
      unfold Client.handleEnd
      dsimp only
      split
      · rfl
      · exact (disconnect_shutDown _).trans shutDown

-----------------------------------------------------------------------------------------
-- The current connection has not ended
-----------------------------------------------------------------------------------------

/-- The connection of the `irc_state` has not delivered its `END`. -/
def Live (client : Client X509 PKey) : Prop :=
  ∀ irc, client.ircState = some irc →
    ∃ connection, client.connections[irc.conn]? = some connection ∧ connection.ended = false

/-- Without an `irc_state` there is nothing to ask. -/
theorem Live.of_none {client : Client X509 PKey} (noState : client.ircState = none)
    : Live client := by
  intro irc state
  rw [noState] at state
  cases state

/-- An `irc_state` for the same connection, which has not ended either. -/
theorem Live.transfer {client client' : Client X509 PKey} (live : Live client)
    (state : client'.ircState.map (·.conn) = client.ircState.map (·.conn))
    (connections : client'.connections = client.connections)
    : Live client' := by
  intro irc' state'
  rw [state', Option.map_some] at state
  obtain ⟨irc, isState, sameConn⟩ := Option.map_eq_some_iff.mp state.symm
  rw [connections, ← sameConn]
  exact live irc isState

/-- While the current connection goes on, not all connections have ended. -/
theorem Live.not_allEnded {client : Client X509 PKey} {irc : IrcState} (live : Live client)
    (state : client.ircState = some irc)
    : ¬ AllEnded client := by
  intro allEnded
  obtain ⟨connection, found, notEnded⟩ := live irc state
  have ended := allEnded connection (List.mem_of_getElem? found)
  rw [notEnded] at ended
  cases ended

/-- `disconnect` leaves no `irc_state`. -/
theorem disconnect_live (client : Client X509 PKey) : Live client.disconnect := by
  refine .of_none ?_
  unfold Client.disconnect
  split
  · assumption
  · rfl

/-- A connection that has just been started has not ended. -/
theorem proceed_live {client : Client X509 PKey} (body : Script (Attempt X509 PKey))
    (noState : client.ircState = none)
    : Live (client.proceed body) := by
  unfold Client.proceed
  split
  · exact .of_none noState
  · exact .of_none noState
  · exact .of_none noState
  · intro irc state
    obtain rfl := Option.some.inj state
    exact ⟨_, List.getElem?_concat_length, rfl⟩

/-- An idle client has no `irc_state`. -/
theorem Modes.noState {configuration : Configuration} {client : Client X509 PKey}
    (modes : Modes configuration client) (current : client.modeCurrent ≠ .connected)
    : client.ircState = none := by
  cases modes with
  | idle _ noState => exact noState
  | connecting _ noState => exact noState
  | stalled _ noState => exact noState
  | connected _ isCurrent => exact absurd isCurrent current

/-- An attempt to connect. -/
theorem connect_live {configuration : Configuration} {client : Client X509 PKey}
    (host : Host X509 PKey) (modes : Modes configuration client) (live : Live client)
    : Live (client.connect host configuration) := by
  cases current : client.modeCurrent with
  | connecting => simpa only [Client.connect, current] using live
  | connected => simpa only [Client.connect, current] using live
  | idle =>
      have noState := modes.noState (by rw [current]; decide)
      simp only [Client.connect, current]
      split
      · exact proceed_live _ noState
      · exact .of_none noState

/-- The timer's callback. -/
theorem tick_live {configuration : Configuration} {client : Client X509 PKey}
    (host : Host X509 PKey) (modes : Modes configuration client) (live : Live client)
    : Live (client.tick host configuration) := by
  have later : Modes configuration { client with uptime := client.uptime + 1 } :=
    modes.transfer ⟨rfl, rfl, rfl, rfl, fun _ => rfl⟩
  unfold Client.tick
  dsimp only
  split
  case h_1 irc state =>
    split
    · exact live.transfer (by simp [state]) rfl
    · split
      · exact disconnect_live _
      · exact live
  case h_2 =>
    split
    · exact connect_live host later live
    · exact live

/-- Starting the registration task. -/
theorem register_live {client : Client X509 PKey} (live : Live client)
    : Live client.register := by
  cases state : client.ircState with
  | none => simpa only [Client.register, state] using live
  | some irc =>
      simp only [Client.register, state]
      exact live.transfer (by simp [state]) rfl

/-- The callback of an opened connection. -/
theorem handleCon_live {client : Client X509 PKey} (isMatch : Matcher)
    (configuration : Configuration) (fingerprint : Bytes) (live : Live client)
    : Live (client.handleCon isMatch configuration fingerprint) := by
  have reported : Live (client.status "irc" (lit "connected: " ++ fingerprint)) :=
    live.transfer rfl rfl
  unfold Client.handleCon
  dsimp only
  split
  · exact disconnect_live _
  · split
    · exact register_live reported
    · split
      · exact reported
      · exact register_live reported
      · exact disconnect_live _

/-- Marking that a connection has opened ends no connection. -/
theorem mark_opened_live {client : Client X509 PKey} (conn : Nat) (live : Live client)
    : Live (client.mark conn ({ · with opened := true })) := by
  intro irc state
  obtain ⟨connection, found, notEnded⟩ := live irc state
  simp only [Client.mark, List.getElem?_modify, found]
  by_cases same : conn = irc.conn
  · exact ⟨{ connection with opened := true }, by simp [same], notEnded⟩
  · exact ⟨connection, by simp [same], notEnded⟩

/-- The current connection has not ended after any event, by cases on the event. -/
theorem step_live {isMatch : Matcher} {configuration : Configuration}
    {client client' : Client X509 PKey} {event : Event X509 PKey}
    (modes : Modes configuration client) (live : Live client)
    (moves : step isMatch configuration client event = some client')
    : Live client' := by
  cases event with
  | connectCommand host =>
      obtain rfl := Option.some.inj moves
      have aimed : Modes configuration { client with modeTarget := .connected } :=
        modes.transfer ⟨rfl, rfl, rfl, rfl, fun _ => rfl⟩
      unfold Client.connectCommand
      dsimp only
      split
      · exact connect_live host aimed live
      · exact live
  | disconnectCommand =>
      obtain rfl := Option.some.inj moves
      unfold Client.disconnectCommand
      dsimp only
      split
      · exact disconnect_live _
      · exact live
  | quitCommand =>
      obtain rfl := Option.some.inj moves
      unfold Client.quit
      dsimp only
      split
      · exact live
      · exact disconnect_live _
      · exact live
  | tick host =>
      obtain rfl := Option.some.inj moves
      exact tick_live host modes live
  | wakes task values =>
      obtain ⟨next, waiting, isNext⟩ := Option.bind_eq_some_iff.mp moves
      obtain rfl := Option.some.inj isNext
      refine proceed_live _ (modes.noState (fun current => ?_))
      cases modes with
      | connected _ _ _ noTask => simp [noTask] at waiting
      | idle _ _ noTask => simp [noTask] at waiting
      | stalled _ _ noTask => simp [noTask] at waiting
      | connecting isCurrent => simp [current] at isCurrent
  | con conn fingerprint =>
      obtain ⟨connection, -, isNext⟩ := Option.bind_eq_some_iff.mp moves
      obtain ⟨-, isNext⟩ := Option.ite_none_left_eq_some.mp isNext
      obtain rfl := Option.some.inj isNext
      exact handleCon_live isMatch configuration fingerprint (mark_opened_live conn live)
  | msg conn phase =>
      obtain ⟨connection, -, isNext⟩ := Option.bind_eq_some_iff.mp moves
      obtain ⟨-, isNext⟩ := Option.ite_none_left_eq_some.mp isNext
      obtain rfl := Option.some.inj isNext
      unfold Client.handleMsg
      split
      · exact live
      case h_2 irc state => exact live.transfer (by simp [state]) rfl
  | fin conn reason =>
      obtain ⟨connection, -, isNext⟩ := Option.bind_eq_some_iff.mp moves
      obtain ⟨-, isNext⟩ := Option.ite_none_left_eq_some.mp isNext
      obtain rfl := Option.some.inj isNext
      unfold Client.handleEnd
      dsimp only
      split
      · exact (disconnect_live _).transfer rfl rfl
      · exact (disconnect_live _).transfer rfl rfl

-----------------------------------------------------------------------------------------
-- What a request depends on
-----------------------------------------------------------------------------------------

/-- Two clients agree on what a request to quit depends on. -/
structure SameRequest (before after : Client X509 PKey) : Prop where
  target : after.modeTarget = before.modeTarget
  tasks : after.clientTasks = before.clientTasks
  ended : AllEnded after → AllEnded before
  shutDown : after.shutDown = before.shutDown

/-- Agreement composes. -/
theorem SameRequest.trans {first second third : Client X509 PKey}
    (left : SameRequest first second) (right : SameRequest second third)
    : SameRequest first third :=
  ⟨
    right.target.trans left.target,
    right.tasks.trans left.tasks,
    fun ended => left.ended (right.ended ended),
    right.shutDown.trans left.shutDown
  ⟩

/-- A request that is honoured stays so. -/
theorem SameRequest.honoured {before after : Client X509 PKey}
    (same : SameRequest before after) (honoured : QuitHonoured before)
    : QuitHonoured after := by
  intro noTask ended
  rw [same.shutDown]
  exact honoured (same.tasks.symm.trans noTask) (same.ended ended)

/-- Changing a connection without ending it leaves the others as they are. -/
theorem allEnded_modify {connections : List Connection} {change : Connection → Connection}
    {conn : Nat} (keeps : ∀ connection, (change connection).ended = connection.ended)
    (ended : ∀ connection ∈ connections.modify conn change, connection.ended = true)
    : ∀ connection ∈ connections, connection.ended = true := by
  intro connection isIn
  obtain ⟨index, found⟩ := List.mem_iff_getElem?.mp isIn
  by_cases same : conn = index
  · have changed : (connections.modify conn change)[index]? = some (change connection) := by
      simp [found, same]
    exact (keeps connection).symm.trans (ended _ (List.mem_of_getElem? changed))
  · have unchanged : (connections.modify conn change)[index]? = some connection := by
      simp [found, same]
    exact ended _ (List.mem_of_getElem? unchanged)

/-- Disconnecting ends no connection. -/
theorem disconnect_sameRequest (client : Client X509 PKey)
    : SameRequest client client.disconnect := by
  unfold Client.disconnect
  split
  · exact ⟨rfl, rfl, id, rfl⟩
  · refine ⟨rfl, rfl, fun ended => allEnded_modify ?_ ended, rfl⟩
    exact fun _ => rfl

/-- Starting the registration task. -/
theorem register_sameRequest (client : Client X509 PKey)
    : SameRequest client client.register := by
  unfold Client.register
  split <;> exact ⟨rfl, rfl, id, rfl⟩

/-- The callback of an opened connection. -/
theorem handleCon_sameRequest (isMatch : Matcher) (configuration : Configuration)
    (client : Client X509 PKey) (fingerprint : Bytes)
    : SameRequest client (client.handleCon isMatch configuration fingerprint) := by
  have reported (category : String) (text : Bytes) (client : Client X509 PKey)
      : SameRequest client (client.status category text) :=
    ⟨rfl, rfl, id, rfl⟩
  unfold Client.handleCon
  dsimp only
  split
  · exact (reported _ _ _).trans (disconnect_sameRequest _)
  · split
    · exact (reported _ _ _).trans (register_sameRequest _)
    · split
      · exact reported _ _ _
      · exact (reported _ _ _).trans (register_sameRequest _)
      · exact ((reported _ _ _).trans (reported _ _ _)).trans (disconnect_sameRequest _)

/-- After a request to quit the timer does not connect. -/
theorem tick_sameRequest (configuration : Configuration) {client : Client X509 PKey}
    (host : Host X509 PKey) (exit : client.modeTarget = .exit)
    : SameRequest client (client.tick host configuration) := by
  have later : SameRequest client { client with uptime := client.uptime + 1 } :=
    ⟨rfl, rfl, id, rfl⟩
  unfold Client.tick
  dsimp only
  split
  · split
    · exact ⟨rfl, rfl, id, rfl⟩
    · split
      · exact later.trans (disconnect_sameRequest _)
      · exact later
  · split
    case isTrue connects => simp [exit] at connects
    case isFalse => exact later

-----------------------------------------------------------------------------------------
-- Requests are honoured
-----------------------------------------------------------------------------------------

/-- A failed attempt leaves the connections as they are. -/
theorem Fails.proceed (client : Client X509 PKey) {body : Script (Attempt X509 PKey)}
    (fails : Fails body)
    : (client.proceed body).clientTasks = client.clientTasks
      ∧ (client.proceed body).connections = client.connections := by
  cases fails <;> exact ⟨rfl, rfl⟩

/-- A connect task that goes on after a request to quit: the request is honoured unless the
attempt fails with nothing left to end. By cases on what the body does.
-/
theorem proceed_honoured_iff {client : Client X509 PKey} {body : Script (Attempt X509 PKey)}
    (noTask : client.clientTasks = []) (running : client.shutDown = false)
    : QuitHonoured (client.proceed body) ↔ ¬ (Fails body ∧ AllEnded client) := by
  by_cases fails : Fails body
  · obtain ⟨tasks, connections⟩ := fails.proceed client
    constructor
    · rintro honoured ⟨-, ended⟩
      have shutDown := honoured (tasks.trans noTask)
        (fun connection isIn => ended connection (connections ▸ isIn))
      rw [proceed_shutDown, running] at shutDown
      cases shutDown
    · intro survives _ ended
      exact absurd ⟨fails, fun connection isIn => ended connection (connections ▸ isIn)⟩ survives
  · refine iff_of_true (fun noTask ended => ?_) (fun both => fails both.1)
    cases body with
    | yields suspension next => simp [Client.proceed] at noTask
    | raises message => exact absurd (.raises message) fails
    | returns attempt =>
        cases attempt with
        | failed report => exact absurd (.failed report) fails
        | started settings =>
            have newest := ended { closed := false, opened := false, ended := false }
              (List.mem_append_right _ List.mem_cons_self)
            cases newest

/-- A request to quit is not forgotten by a connect task. -/
theorem proceed_target {client : Client X509 PKey} (body : Script (Attempt X509 PKey))
    (exit : client.modeTarget = .exit)
    : (client.proceed body).modeTarget = .exit := by
  unfold Client.proceed
  split
  · exact exit
  · exact exit
  · simp [Client.failure, Client.status, exit]
  · exact exit

/-- The request itself: an idle client is shut down, a connected one disconnects, and one
that is connecting has to go on.
-/
theorem quit_honoured_step {configuration : Configuration} {client : Client X509 PKey}
    (modes : Modes configuration client) (live : Live client) (running : client.shutDown = false)
    : (QuitHonoured client.quit ↔ ¬ LosesQuit client .quitCommand)
      ∧ client.quit.modeTarget = .exit := by
  have notLost (current : client.modeCurrent ≠ .connecting) : ¬ LosesQuit client .quitCommand := by
    rintro (_ | ⟨connecting⟩)
    exact current connecting
  unfold Client.quit
  dsimp only
  split
  case h_1 current =>
    exact ⟨iff_of_true (fun _ _ => rfl) (notLost (by rw [current]; decide)), rfl⟩
  case h_2 current =>
    have same := disconnect_sameRequest { client with modeTarget := .exit }
    refine ⟨iff_of_true (fun _ ended => ?_) (notLost (by rw [current]; decide)), same.target⟩
    cases modes with
    | connected irc _ state => exact absurd (same.ended ended) (live.not_allEnded state)
    | idle isCurrent => simp [current] at isCurrent
    | connecting isCurrent => simp [current] at isCurrent
    | stalled isCurrent => simp [current] at isCurrent
  case h_3 current =>
    refine ⟨⟨?_, fun kept noTask ended => ?_⟩, rfl⟩
    · rintro honoured (_ | ⟨-, noTask, ended⟩)
      have shutDown : client.shutDown = true := honoured noTask ended
      rw [running] at shutDown
      cases shutDown
    · exact absurd (.quit current noTask ended running) kept

/-- One event after a request to quit, by cases on the event. -/
theorem step_honoured_iff {isMatch : Matcher} {configuration : Configuration}
    {client client' : Client X509 PKey} {event : Event X509 PKey}
    (modes : Modes configuration client) (live : Live client) (exit : client.modeTarget = .exit)
    (honoured : QuitHonoured client) (running : client.shutDown = false)
    (moves : step isMatch configuration client event = some client')
    (kept : ¬ Supersedes client event)
    : (QuitHonoured client' ↔ ¬ LosesQuit client event) ∧ client'.modeTarget = .exit := by
  cases event with
  | connectCommand host => exact absurd running kept
  | disconnectCommand => exact absurd running kept
  | quitCommand =>
      obtain rfl := Option.some.inj moves
      exact quit_honoured_step modes live running
  | tick host =>
      obtain rfl := Option.some.inj moves
      have same := tick_sameRequest configuration host exit
      exact ⟨iff_of_true (same.honoured honoured) nofun, same.target.trans exit⟩
  | wakes task values =>
      obtain ⟨next, waiting, isNext⟩ := Option.bind_eq_some_iff.mp moves
      obtain rfl := Option.some.inj isNext
      have noTask : client.clientTasks.eraseIdx task = [] := by
        cases modes with
        | idle _ _ noTask => simp [noTask]
        | stalled _ _ noTask => simp [noTask]
        | connected _ _ _ noTask => simp [noTask]
        | connecting _ _ only isOnly =>
            rw [isOnly, List.getElem?_singleton] at waiting
            split at waiting
            · next isFirst => rw [isOnly, isFirst]; rfl
            · cases waiting
      have loses : LosesQuit client (.wakes task values)
          ↔ Fails (next values) ∧ AllEnded client := by
        constructor
        · rintro ⟨isWaiting, fails, ended⟩
          obtain rfl := Option.some.inj (waiting.symm.trans isWaiting)
          exact ⟨fails, ended⟩
        · exact fun ⟨fails, ended⟩ => .wakes waiting fails ended running
      rw [loses]
      exact ⟨proceed_honoured_iff noTask running, proceed_target _ exit⟩
  | con conn fingerprint =>
      obtain ⟨connection, -, isNext⟩ := Option.bind_eq_some_iff.mp moves
      obtain ⟨-, isNext⟩ := Option.ite_none_left_eq_some.mp isNext
      obtain rfl := Option.some.inj isNext
      have opened : SameRequest client (client.mark conn ({ · with opened := true })) :=
        ⟨rfl, rfl, fun ended => allEnded_modify (by exact fun _ => rfl) ended, rfl⟩
      have same := opened.trans (handleCon_sameRequest isMatch configuration _ fingerprint)
      exact ⟨iff_of_true (same.honoured honoured) nofun, same.target.trans exit⟩
  | msg conn phase =>
      obtain ⟨connection, -, isNext⟩ := Option.bind_eq_some_iff.mp moves
      obtain ⟨-, isNext⟩ := Option.ite_none_left_eq_some.mp isNext
      obtain rfl := Option.some.inj isNext
      have same : SameRequest client (client.handleMsg phase) := by
        unfold Client.handleMsg
        split <;> exact ⟨rfl, rfl, id, rfl⟩
      exact ⟨iff_of_true (same.honoured honoured) nofun, same.target.trans exit⟩
  | fin conn reason =>
      obtain ⟨connection, -, isNext⟩ := Option.bind_eq_some_iff.mp moves
      obtain ⟨-, isNext⟩ := Option.ite_none_left_eq_some.mp isNext
      obtain rfl := Option.some.inj isNext
      have target := (disconnect_sameRequest
        (client.mark conn ({ · with ended := true }))).target.trans exit
      have tornDown : (client.mark conn ({ · with ended := true })).handleEnd reason
          = (((client.mark conn ({ · with ended := true })).disconnect.status "irc"
            (lit "disconnected: " ++ reason.getD (lit "end of stream"))).teardown) :=
        if_pos target
      rw [tornDown]
      exact ⟨iff_of_true (fun _ _ => rfl) nofun, target⟩

/-- What every run keeps after a request to quit. -/
structure QuitInvariant (configuration : Configuration) (client : Client X509 PKey) : Prop where
  modes : Modes configuration client
  live : Live client
  request : client.shutDown = true
    ∨ client.shutDown = false ∧ client.modeTarget = .exit ∧ QuitHonoured client

/-- A client that is shut down has honoured the request and cannot lose it. -/
theorem honoured_iff_of_shutDown {isMatch : Matcher} {configuration : Configuration}
    {client client' : Client X509 PKey} {event : Event X509 PKey}
    (shutDown : client.shutDown = true)
    (moves : step isMatch configuration client event = some client')
    : QuitHonoured client' ↔ ¬ LosesQuit client event := by
  refine iff_of_true (fun _ _ => step_shutDown moves shutDown) ?_
  rintro (⟨-, -, -, running⟩ | ⟨-, -, -, running⟩) <;>
  · rw [shutDown] at running
    cases running

/-- A step after a request to quit honours it or loses it. -/
theorem QuitInvariant.honoured_iff {isMatch : Matcher} {configuration : Configuration}
    {client client' : Client X509 PKey} {event : Event X509 PKey}
    (sound : QuitInvariant configuration client)
    (moves : step isMatch configuration client event = some client')
    (kept : ¬ Supersedes client event)
    : QuitHonoured client' ↔ ¬ LosesQuit client event := by
  rcases sound.request with shutDown | ⟨running, exit, honoured⟩
  · exact honoured_iff_of_shutDown shutDown moves
  · exact (step_honoured_iff sound.modes sound.live exit honoured running moves kept).1

/-- A step that honours the request keeps the invariant. -/
theorem QuitInvariant.step {isMatch : Matcher} {configuration : Configuration}
    {client client' : Client X509 PKey} {event : Event X509 PKey}
    (sound : QuitInvariant configuration client)
    (moves : step isMatch configuration client event = some client')
    (kept : ¬ Supersedes client event) (honoured : QuitHonoured client')
    : QuitInvariant configuration client' := by
  refine ⟨step_modes event sound.modes moves, step_live sound.modes sound.live moves, ?_⟩
  rcases sound.request with shutDown | ⟨running, exit, wasHonoured⟩
  · exact .inl (step_shutDown moves shutDown)
  · have target :=
      (step_honoured_iff sound.modes sound.live exit wasHonoured running moves kept).2
    cases shutDown : client'.shutDown with
    | true => exact .inl rfl
    | false => exact .inr ⟨rfl, target, honoured⟩

/-- The current connection of every reachable client has not ended. -/
theorem reachable_live {isMatch : Matcher} {configuration : Configuration}
    {host : Host X509 PKey} {events : List (Event X509 PKey)} {client : Client X509 PKey}
    (run : Reaches (step isMatch configuration) (startup configuration host) events client)
    : Modes configuration client ∧ Live client := by
  have initial : Modes configuration (Client.initial : Client X509 PKey) := .idle rfl rfl rfl
  have atStart : Modes configuration (startup configuration host)
      ∧ Live (startup configuration host) :=
    ⟨connect_modes host initial, connect_live host initial (.of_none rfl)⟩
  have kept (state : Client X509 PKey) (event : Event X509 PKey) (state' : Client X509 PKey)
      (both : Modes configuration state ∧ Live state)
      (moves : step isMatch configuration state event = some state')
      : Modes configuration state' ∧ Live state' :=
    ⟨step_modes event both.1 moves, step_live both.1 both.2 moves⟩
  exact run.invariant atStart kept

/-- After `quit` in any reachable state, and unless the user then asks for something else,
the client is shut down in every state in which no connect task is alive and all connections
have ended, exactly if the attempt to connect does not fail with nothing left to end.
Witness: the invariant, step by step.
-/
theorem quit_honoured_iff {isMatch : Matcher} {configuration : Configuration}
    {host : Host X509 PKey} {earlier : List (Event X509 PKey)} {client : Client X509 PKey}
    (run : Reaches (step isMatch configuration) (startup configuration host) earlier client)
    (events : List (Event X509 PKey))
    : Along (step isMatch configuration)
        (fun before event after => ¬ Supersedes before event ∧ QuitHonoured after)
        client (.quitCommand :: events)
      ↔ Along (step isMatch configuration)
        (fun before event _ => ¬ Supersedes before event ∧ ¬ LosesQuit before event)
        client (.quitCommand :: events) := by
  obtain ⟨modes, live⟩ := reachable_live run
  have moves : step isMatch configuration client .quitCommand = some client.quit := rfl
  have requested : (QuitHonoured client.quit ↔ ¬ LosesQuit client .quitCommand)
      ∧ (client.shutDown = true ∨ client.quit.modeTarget = .exit) := by
    cases shutDown : client.shutDown with
    | true => exact ⟨honoured_iff_of_shutDown shutDown moves, .inl rfl⟩
    | false =>
        obtain ⟨honoured, target⟩ := quit_honoured_step modes live shutDown
        exact ⟨honoured, .inr target⟩
  rw [along_cons moves, along_cons moves, requested.1]
  refine and_congr_right (fun ⟨_, notLost⟩ => ?_)
  have honoured := requested.1.mpr notLost
  have atStart : QuitInvariant configuration client.quit := by
    refine ⟨step_modes _ modes moves, step_live modes live moves, ?_⟩
    rcases requested.2 with shutDown | target
    · exact .inl (step_shutDown moves shutDown)
    · cases shutDown : client.quit.shutDown with
      | true => exact .inl rfl
      | false => exact .inr ⟨rfl, target, honoured⟩
  exact along_iff events atStart
    (fun _ _ _ sound moves holds => sound.step moves holds.1 holds.2)
    (fun _ _ _ sound moves =>
      and_congr_right (fun kept => sound.honoured_iff moves kept))

/-- A server behind a proxy, and a command that prints the password of the proxy. -/
def commandConfiguration : Configuration :=
  {
    server := { host := some (lit "irc.example"), port := none, fingerprint := none }
    socks := some {
      host := some (lit "proxy.example")
      port := some (.integer 1080)
      username := some (lit "user")
      password := .command (lit "pass") [lit "show", lit "proxy"] false false
    }
    tls := none
  }

/-- What the command is resumed with when it exits with 1. -/
def exitsWithOne : List LuaValue := [.integer 1, .string [], .string (lit "no such entry")]

/-- `quit_honoured_iff` while the command for a password is running. -/
theorem quit_honoured_iff_witness
    : ∃ client : Client Unit Unit,
      Reaches (step (fun _ _ => .ok true) commandConfiguration)
        (startup commandConfiguration emptyHost) [] client
      ∧ client.modeCurrent = .connecting
      ∧ (Along (step (fun _ _ => .ok true) commandConfiguration)
          (fun before event after => ¬ Supersedes before event ∧ QuitHonoured after)
          client [.quitCommand, .wakes 0 exitsWithOne]
        ↔ Along (step (fun _ _ => .ok true) commandConfiguration)
          (fun before event _ => ¬ Supersedes before event ∧ ¬ LosesQuit before event)
          client [.quitCommand, .wakes 0 exitsWithOne]) :=
  ⟨_, .start, rfl, quit_honoured_iff .start [.wakes 0 exitsWithOne]⟩

/-- The user quits while the command for a password is running, and then the command fails: the
client is idle, and nothing will shut it down.
-/
theorem quit_honoured_counterexample
    : ∃ client : Client Unit Unit,
      run (step (fun _ _ => .ok true) commandConfiguration)
          (startup commandConfiguration emptyHost) [.quitCommand, .wakes 0 exitsWithOne]
        = some client
      ∧ client.statuses
        = [("connect",
          lit "SOCKS5 password program error: command failed (1): no such entry")]
      ∧ client.modeTarget = .exit
      ∧ client.modeCurrent = .idle
      ∧ client.clientTasks = []
      ∧ AllEnded client
      ∧ client.shutDown = false
      ∧ ¬ QuitHonoured client := by
  refine ⟨_, rfl, by decide, rfl, rfl, rfl, nofun, rfl, fun honoured => ?_⟩
  have shutDown := honoured rfl nofun
  cases shutDown

end Snowcone.Connecting
