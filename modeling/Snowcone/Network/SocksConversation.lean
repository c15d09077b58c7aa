import Snowcone.Network.Socks

/-! Every conversation with a SOCKS5 proxy: what the client has sent and taken in each state,
and what that says about its credentials and its result.
-/

namespace Snowcone.Network

open Bytes Runs

variable {settings : SocksSettings}

/-- The reply to the offer of a method that accepts it. -/
def SocksSettings.methodReply (settings : SocksSettings) : Bytes := [5, settings.methodWanted]

/-- All replies before the reply to the request to connect, if the proxy accepts. -/
def SocksSettings.negotiation (settings : SocksSettings) : Bytes :=
  match settings.auth with
  | .noCredential => settings.methodReply
  | .usernamePassword _ _ => settings.methodReply ++ [1, 0]

/-- The messages of the client, if the proxy accepts. -/
def SocksSettings.conversation (settings : SocksSettings) : List Bytes :=
  match settings.auth with
  | .noCredential => [settings.hello, settings.connectMessage]
  | .usernamePassword username password =>
      [settings.hello, usernamePasswordMessage username password, settings.connectMessage]

/-- The replies with which a proxy accepts, and the endpoint in them: an address and a port,
in big endian.
-/
inductive Accepts (settings : SocksSettings) : Bytes → Endpoint → Prop
  | v4 (address : Bytes) (high low : Byte) (whole : address.length = 4)
    : Accepts settings (settings.negotiation ++ [5, 0, 0, 1] ++ (address ++ [high, low]))
      (.v4 address (256 * high.toNat + low.toNat))
  | v6 (address : Bytes) (high low : Byte) (whole : address.length = 16)
    : Accepts settings (settings.negotiation ++ [5, 0, 0, 4] ++ (address ++ [high, low]))
      (.v6 address (256 * high.toNat + low.toNat))

/-- Replies after which a proxy may still accept, each of them complete. -/
inductive Agreeable (settings : SocksSettings) : Bytes → Prop
  | nothing : Agreeable settings []
  | method : Agreeable settings settings.methodReply
  | negotiated : Agreeable settings settings.negotiation
  | v4 : Agreeable settings (settings.negotiation ++ [5, 0, 0, 1])
  | v6 : Agreeable settings (settings.negotiation ++ [5, 0, 0, 4])

/-- The bytes of a reply that is not complete. -/
def SocksPhase.unfinished : SocksPhase → Bytes
  | .reading _ got => got
  | .writing _ | .completed => []

/-- What is asked of the client in every state. It completes once; it sends its messages in
their order, what follows the offer of a method only after the reply that accepts it, and the
request only after all of the negotiation; it reports success only for replies that say so, of
which it has then taken all and nothing else; it reports an error otherwise; and as long as it
goes on, the complete replies are those of a proxy that may still accept.
-/
structure Conforms (settings : SocksSettings) (history : SocksHistory) : Prop where
  once : history.results.length = if history.phase = .completed then 1 else 0
  inOrder : history.sent <+: settings.conversation
  credentials : ∀ username password, settings.auth = .usernamePassword username password →
    usernamePasswordMessage username password ∈ history.sent →
      history.sent.head? = some [5, 1, 2] ∧ [5, 2] <+: history.consumed
  request : history.sent = settings.conversation → settings.negotiation <+: history.consumed
  success : ∀ endpoint, .ok endpoint ∈ history.results →
    Accepts settings history.consumed endpoint
  errors : ∀ code, .error code ∈ history.results → code.isError = true
  goesOn : history.results = [] → ∃ replies,
    Agreeable settings replies ∧ history.consumed = replies ++ history.phase.unfinished

-----------------------------------------------------------------------------------------
-- The states
-----------------------------------------------------------------------------------------

/-- The messages sent before the bytes of a state are read. -/
def SocksSettings.sentBefore (settings : SocksSettings) : RecvState → List Bytes
  | .helloRecvd => settings.conversation.take 1
  | .authRecvd => settings.conversation.take 2
  | .replyRecvd | .finishIpv4 | .finishIpv6 => settings.conversation

/-- The bytes taken before those of a state. -/
def SocksSettings.takenBefore (settings : SocksSettings) : RecvState → Bytes
  | .helloRecvd => []
  | .authRecvd => settings.methodReply
  | .replyRecvd => settings.negotiation
  | .finishIpv4 => settings.negotiation ++ [5, 0, 0, 1]
  | .finishIpv6 => settings.negotiation ++ [5, 0, 0, 4]

/-- A state that the settings lead to: credentials are only answered if there are any. -/
def SocksSettings.leadsTo (settings : SocksSettings) : RecvState → Prop
  | .authRecvd => ∃ username password, settings.auth = .usernamePassword username password
  | .helloRecvd | .replyRecvd | .finishIpv4 | .finishIpv6 => True

/-- How many more events there can be when the bytes of a state begin to be read. -/
def RecvState.left : RecvState → Nat
  | .helloRecvd => 28
  | .authRecvd => 25
  | .replyRecvd => 22
  | .finishIpv4 => 6
  | .finishIpv6 => 18

/-- What a state's step may do, with the bytes that were read for it. -/
inductive Continues (settings : SocksSettings) (current : RecvState) (buffer : Bytes)
    : SocksAction → Prop
  | transact {message : Bytes} {next : RecvState} (leads : settings.leadsTo next)
    (sent : settings.sentBefore next = settings.sentBefore current ++ [message])
    (taken : settings.takenBefore next = settings.takenBefore current ++ buffer)
    (shorter : next.left + 1 + current.read ≤ current.left)
    : Continues settings current buffer (.transact message next)
  | receive {next : RecvState} (leads : settings.leadsTo next)
    (sent : settings.sentBefore next = settings.sentBefore current)
    (taken : settings.takenBefore next = settings.takenBefore current ++ buffer)
    (shorter : next.left + current.read ≤ current.left)
    : Continues settings current buffer (.receive next)
  | succeeds {endpoint : Endpoint} (sent : settings.sentBefore current = settings.conversation)
    (accepts : Accepts settings (settings.takenBefore current ++ buffer) endpoint)
    : Continues settings current buffer (.complete (.ok endpoint))
  | fails {code : ErrorCode} (isError : code.isError = true)
    : Continues settings current buffer (.complete (.error code))

/-- A failure other than success is an error. -/
theorem failure_continues {current : RecvState} {buffer : Bytes} {err : SocksErrc}
    (notSuccess : err.value ≠ 0)
    : Continues settings current buffer (failure err) :=
  .fails (by simpa [makeSocksError, ErrorCode.isError] using notSuccess)

/-- Two bytes that were read. -/
theorem two_bytes {buffer : Bytes} (whole : buffer.length = 2)
    : buffer = [byteAt buffer 0, byteAt buffer 1] := by
  match buffer, whole with
  | [_, _], _ => rfl

/-- `step(HelloRecvd)` goes on only after the reply that accepts the method. -/
theorem helloRecvd_continues {buffer : Bytes} (whole : buffer.length = 2)
    : Continues settings .helloRecvd buffer (settings.helloRecvd buffer) := by
  rw [SocksSettings.helloRecvd]
  split
  · exact failure_continues (by decide)
  next version =>
  split
  · exact failure_continues (by decide)
  next method =>
  have isReply : buffer = settings.methodReply := by
    rw [two_bytes whole, Classical.not_not.mp version, Classical.not_not.mp method]
    rfl
  split
  case h_1 auth =>
    refine .transact trivial ?_ ?_ (by decide)
    · simp [SocksSettings.sentBefore, SocksSettings.conversation, auth]
    · simp [SocksSettings.takenBefore, SocksSettings.negotiation, auth, isReply]
  case h_2 username password auth =>
    refine .transact ⟨username, password, auth⟩ ?_ ?_ (by decide)
    · simp [SocksSettings.sentBefore, SocksSettings.conversation, auth]
    · simp [SocksSettings.takenBefore, isReply]

/-- `step(AuthRecvd)` goes on only after the reply that accepts the credentials. -/
theorem authRecvd_continues {buffer : Bytes} (whole : buffer.length = 2)
    (leads : settings.leadsTo .authRecvd)
    : Continues settings .authRecvd buffer (settings.authRecvd buffer) := by
  obtain ⟨username, password, auth⟩ := leads
  rw [SocksSettings.authRecvd]
  split
  · exact failure_continues (by decide)
  next version =>
  split
  · exact failure_continues (by decide)
  next status =>
  have isReply : buffer = [1, 0] := by
    rw [two_bytes whole, Classical.not_not.mp version, Classical.not_not.mp status]
    rfl
  refine .transact trivial ?_ ?_ (by decide)
  · simp [SocksSettings.sentBefore, SocksSettings.conversation, auth]
  · simp [SocksSettings.takenBefore, SocksSettings.negotiation, auth, isReply]

/-- `step(ReplyRecvd)` goes on only after the start of a reply that reports success. -/
theorem replyRecvd_continues {buffer : Bytes} (whole : buffer.length = 4)
    : Continues settings .replyRecvd buffer (replyRecvd buffer) := by
  match buffer, whole with
  | [a, b, c, d], _ =>
    simp only [replyRecvd, byteAt, List.getD_cons_zero, List.getD_cons_succ]
    split
    · exact failure_continues (by decide)
    next version =>
    split
    next reply =>
      refine failure_continues (fun isZero => reply ?_)
      rw [SocksErrc.succeeded]
      exact congrArg _ (UInt8.toNat_inj.mp isZero)
    next reply =>
    split
    · exact failure_continues (by decide)
    next reserved =>
    obtain rfl := Classical.not_not.mp version
    obtain rfl := SocksErrc.server.inj (Classical.not_not.mp reply)
    obtain rfl := Classical.not_not.mp reserved
    split
    next isV4 =>
      subst isV4
      exact .receive trivial rfl rfl (by decide)
    · split
      next isV6 =>
        subst isV6
        exact .receive trivial rfl rfl (by decide)
      · exact failure_continues (by decide)

/-- A list that ends in two bytes. -/
theorem take_append_two {buffer : Bytes} {n : Nat} (whole : buffer.length = n + 2)
    : buffer = buffer.take n ++ [byteAt buffer n, byteAt buffer (n + 1)] := by
  have rest : (buffer.drop n).length = 2 := by
    rw [List.length_drop]
    omega
  have isRest := two_bytes rest
  have first : byteAt (buffer.drop n) 0 = byteAt buffer n := by simp [byteAt, List.getD]
  have second : byteAt (buffer.drop n) 1 = byteAt buffer (n + 1) := by simp [byteAt, List.getD]
  rw [first, second] at isRest
  rw [← isRest, List.take_append_drop]

/-- Every step goes on only after the replies of a proxy that accepts, by cases on the
state.
-/
theorem step_continues {current : RecvState} {buffer : Bytes}
    (whole : buffer.length = current.read) (leads : settings.leadsTo current)
    : Continues settings current buffer (settings.step buffer current) := by
  cases current with
  | helloRecvd => exact helloRecvd_continues whole
  | authRecvd => exact authRecvd_continues whole leads
  | replyRecvd => exact replyRecvd_continues whole
  | finishIpv4 =>
      refine .succeeds rfl ?_
      have accepts := @Accepts.v4 settings (buffer.take 4) (byteAt buffer 4) (byteAt buffer 5)
        (by rw [List.length_take, whole]; rfl)
      rwa [← take_append_two whole] at accepts
  | finishIpv6 =>
      refine .succeeds rfl ?_
      have accepts := @Accepts.v6 settings (buffer.take 16) (byteAt buffer 16)
        (byteAt buffer 17) (by rw [List.length_take, whole]; rfl)
      rwa [← take_append_two whole] at accepts

-----------------------------------------------------------------------------------------
-- Runs
-----------------------------------------------------------------------------------------

/-- What was sent and taken when a state's bytes were awaited. -/
structure Reached (settings : SocksSettings) (next : RecvState) (sent : List Bytes)
    (consumed : Bytes)
    : Prop where
  leads : settings.leadsTo next
  sent : sent = settings.sentBefore next
  taken : settings.takenBefore next <+: consumed

/-- The stages of an operation. -/
inductive SocksStage (settings : SocksSettings) (history : SocksHistory) : Prop where
  | writing (next : RecvState) (phase : history.phase = .writing next)
    (reached : Reached settings next history.sent history.consumed)
    (taken : history.consumed = settings.takenBefore next) (noResult : history.results = [])
  | reading (next : RecvState) (got : Bytes) (phase : history.phase = .reading next got)
    (unfinished : got.length < next.read)
    (reached : Reached settings next history.sent history.consumed)
    (taken : history.consumed = settings.takenBefore next ++ got)
    (noResult : history.results = [])
  | succeeded (endpoint : Endpoint) (phase : history.phase = .completed) (next : RecvState)
    (reached : Reached settings next history.sent history.consumed)
    (accepts : Accepts settings history.consumed endpoint)
    (result : history.results = [.ok endpoint])
  | failed (code : ErrorCode) (phase : history.phase = .completed)
    (reached : history.sent = []
      ∨ ∃ next, Reached settings next history.sent history.consumed)
    (isError : code.isError = true) (result : history.results = [.error code])

/-- How many more events there can be. -/
def SocksPhase.left : SocksPhase → Nat
  | .writing next => next.left + 1
  | .reading next got => next.left - got.length
  | .completed => 0

/-- The bytes of a state are among those that are still to come. -/
theorem RecvState.read_le_left (current : RecvState) : current.read ≤ current.left := by
  cases current <;> decide

/-- A state has been read: its step leads to the next stage, and nearer to the end. -/
theorem Continues.perform {current : RecvState} {buffer : Bytes} {action : SocksAction}
    (continues : Continues settings current buffer action) (history : SocksHistory)
    (reached : Reached settings current history.sent history.consumed)
    (taken : history.consumed = settings.takenBefore current ++ buffer)
    (noResult : history.results = [])
    : SocksStage settings (history.perform action)
      ∧ (history.perform action).phase.left + current.read ≤ current.left := by
  have ended : 0 + current.read ≤ current.left := by
    rw [Nat.zero_add]
    exact current.read_le_left
  cases continues with
  | @transact message next leads sent isTaken shorter =>
      have nowTaken : history.consumed = settings.takenBefore next := taken.trans isTaken.symm
      refine ⟨.writing next rfl ⟨leads, ?_, nowTaken ▸ List.prefix_rfl⟩ nowTaken noResult, shorter⟩
      rw [sent, ← reached.sent]
      rfl
  | @receive next leads sent isTaken shorter =>
      have nowTaken : history.consumed = settings.takenBefore next := taken.trans isTaken.symm
      refine ⟨.reading next [] rfl ?_ ⟨leads, ?_, nowTaken ▸ List.prefix_rfl⟩ ?_ noResult, shorter⟩
      · cases next <;> decide
      · exact reached.sent.trans sent.symm
      · rw [List.append_nil]
        exact nowTaken
  | @succeeds endpoint sent accepts =>
      refine ⟨.succeeded endpoint rfl current reached (taken ▸ accepts) ?_, ended⟩
      simp [SocksHistory.perform, noResult]
  | @fails code isError =>
      refine ⟨.failed code rfl (.inr ⟨current, reached⟩) isError ?_, ended⟩
      simp [SocksHistory.perform, noResult]

/-- The operation either fails at once or offers its method. -/
theorem start_cases (settings : SocksSettings)
    : (∃ err, err.value ≠ 0 ∧ settings.start = failure err)
      ∨ settings.start = .transact settings.hello .helloRecvd := by
  unfold SocksSettings.start
  split
  · exact .inl ⟨.domainTooLong, by decide, rfl⟩
  · split
    · exact .inr rfl
    · split
      · exact .inl ⟨.usernameTooLong, by decide, rfl⟩
      · split
        · exact .inl ⟨.passwordTooLong, by decide, rfl⟩
        · exact .inr rfl

/-- The stage in which the operation is started. -/
theorem start_stage (settings : SocksSettings)
    : SocksStage settings (.start settings)
      ∧ (SocksHistory.start settings).phase.left ≤ 29 := by
  rw [SocksHistory.start]
  rcases start_cases settings with ⟨err, notSuccess, isStart⟩ | isStart
  · rw [isStart]
    refine ⟨.failed _ rfl (.inl rfl) ?_ rfl, Nat.zero_le 29⟩
    simpa [makeSocksError, ErrorCode.isError] using notSuccess
  · rw [isStart]
    refine ⟨.writing .helloRecvd rfl ⟨trivial, ?_, List.nil_prefix⟩ rfl rfl, Nat.le_refl 29⟩
    cases auth : settings.auth <;>
      simp [SocksHistory.perform, SocksSettings.sentBefore, SocksSettings.conversation, auth]

/-- One event leads to the next stage, and nearer to the end, by cases on the event. -/
theorem SocksStage.step {history history' : SocksHistory} {event : SocksEvent}
    (stage : SocksStage settings history) (moves : history.step settings event = some history')
    : SocksStage settings history' ∧ history'.phase.left < history.phase.left := by
  cases stage with
  | succeeded _ phase =>
      cases event <;> simp [SocksHistory.step, phase] at moves
  | failed _ phase =>
      cases event <;> simp [SocksHistory.step, phase] at moves
  | writing next phase reached taken noResult =>
      cases event with
      | received bytes => simp [SocksHistory.step, phase] at moves
      | readFailed error => simp [SocksHistory.step, phase] at moves
      | wrote error =>
          simp only [SocksHistory.step, phase] at moves
          rw [phase]
          split at moves
          case isTrue isError =>
            obtain rfl := Option.some.inj moves
            refine ⟨.failed error rfl (.inr ⟨next, reached⟩) isError ?_, Nat.succ_pos _⟩
            simp [SocksHistory.perform, noResult]
          case isFalse =>
            obtain rfl := Option.some.inj moves
            refine ⟨.reading next [] rfl ?_ reached ?_ noResult, Nat.lt_succ_self _⟩
            · cases next <;> decide
            · rw [List.append_nil]
              exact taken
  | reading next got phase unfinished reached taken noResult =>
      have inRange := next.read_le_left
      have now : history.phase.left = next.left - got.length := by
        rw [phase]
        rfl
      cases event with
      | wrote error => simp [SocksHistory.step, phase] at moves
      | readFailed error =>
          simp only [SocksHistory.step, phase] at moves
          obtain ⟨isError, isNext⟩ := Option.ite_none_right_eq_some.mp moves
          obtain rfl := Option.some.inj isNext
          refine ⟨.failed error rfl (.inr ⟨next, reached⟩) isError ?_, ?_⟩
          · simp [SocksHistory.perform, noResult]
          · rw [now]
            exact Nat.sub_pos_of_lt (Nat.lt_of_lt_of_le unfinished inRange)
      | received bytes =>
          simp only [SocksHistory.step, phase] at moves
          obtain ⟨⟨someBytes, fits⟩, isNext⟩ := Option.ite_none_right_eq_some.mp moves
          have more : 0 < bytes.length := List.length_pos_iff.mpr someBytes
          have nowTaken : history.consumed ++ bytes
              = settings.takenBefore next ++ (got ++ bytes) := by
            rw [taken, List.append_assoc]
          have nowReached : Reached settings next history.sent (history.consumed ++ bytes) :=
            ⟨reached.leads, reached.sent, reached.taken.trans (List.prefix_append _ _)⟩
          rw [List.length_append] at fits
          rw [now]
          split at isNext
          case isTrue whole =>
            obtain rfl := Option.some.inj isNext
            obtain ⟨stage, nearer⟩ := (step_continues whole reached.leads).perform
              {
                history with
                phase := .reading next got
                consumed := history.consumed ++ bytes
              }
              nowReached nowTaken noResult
            exact ⟨stage, by omega⟩
          case isFalse partly =>
            obtain rfl := Option.some.inj isNext
            rw [List.length_append] at partly
            refine ⟨.reading next (got ++ bytes) rfl ?_ nowReached nowTaken noResult, ?_⟩
            · rw [List.length_append]
              omega
            · rw [SocksPhase.left, List.length_append]
              omega

/-- The stages of every run, and how long a run can be. -/
theorem reaches_stage {events : List SocksEvent} {history : SocksHistory}
    (run : Reaches (SocksHistory.step settings) (.start settings) events history)
    : SocksStage settings history ∧ events.length + history.phase.left ≤ 29 := by
  induction run with
  | start =>
      obtain ⟨stage, short⟩ := start_stage settings
      exact ⟨stage, by simpa using short⟩
  | next _ moves ih =>
      obtain ⟨stage, nearer⟩ := ih.1.step moves
      refine ⟨stage, ?_⟩
      rw [List.length_append, List.length_singleton]
      omega

-----------------------------------------------------------------------------------------
-- The client conforms
-----------------------------------------------------------------------------------------

/-- The messages that were sent are the first of those to be sent. -/
theorem Reached.inOrder {next : RecvState} {sent : List Bytes} {consumed : Bytes}
    (reached : Reached settings next sent consumed)
    : sent <+: settings.conversation := by
  rw [reached.sent]
  cases next with
  | helloRecvd => exact List.take_prefix _ _
  | authRecvd => exact List.take_prefix _ _
  | replyRecvd | finishIpv4 | finishIpv6 => exact List.prefix_rfl

/-- The request is sent after the negotiation. -/
theorem Reached.request {next : RecvState} {sent : List Bytes} {consumed : Bytes}
    (reached : Reached settings next sent consumed) (all : sent = settings.conversation)
    : settings.negotiation <+: consumed := by
  have negotiated (isTaken : settings.negotiation <+: settings.takenBefore next)
      : settings.negotiation <+: consumed :=
    isTaken.trans reached.taken
  have isSent := all.symm.trans reached.sent
  cases next with
  | helloRecvd => cases auth : settings.auth <;> simp [SocksSettings.conversation,
      SocksSettings.sentBefore, auth] at isSent
  | authRecvd =>
      obtain ⟨username, password, auth⟩ := reached.leads
      simp [SocksSettings.conversation, SocksSettings.sentBefore, auth] at isSent
  | replyRecvd => exact negotiated List.prefix_rfl
  | finishIpv4 => exact negotiated (List.prefix_append _ _)
  | finishIpv6 => exact negotiated (List.prefix_append _ _)

/-- The credentials are sent after the reply that accepts the method that was offered. -/
theorem Reached.credentials {next : RecvState} {sent : List Bytes} {consumed : Bytes}
    {username password : Bytes} (reached : Reached settings next sent consumed)
    (auth : settings.auth = .usernamePassword username password)
    (isSent : usernamePasswordMessage username password ∈ sent)
    : sent.head? = some [5, 1, 2] ∧ [5, 2] <+: consumed := by
  have offer : settings.hello = [5, 1, 2] := by
    simp [SocksSettings.hello, SocksSettings.methodWanted, auth, socksVersionTag]
  have replied (isTaken : [5, 2] <+: settings.takenBefore next) : [5, 2] <+: consumed :=
    isTaken.trans reached.taken
  rw [reached.sent] at isSent ⊢
  cases next with
  | helloRecvd =>
      simp [SocksSettings.sentBefore, SocksSettings.conversation, auth, offer,
        usernamePasswordMessage, authVersionTag] at isSent
  | authRecvd | replyRecvd | finishIpv4 | finishIpv6 =>
      refine ⟨by simp [SocksSettings.sentBefore, SocksSettings.conversation, auth, offer],
        replied ?_⟩
      simp [SocksSettings.takenBefore, SocksSettings.negotiation, SocksSettings.methodReply,
        SocksSettings.methodWanted, auth]

/-- What was taken before the bytes of a state leaves it open whether the proxy accepts. -/
theorem takenBefore_agreeable (next : RecvState)
    : Agreeable settings (settings.takenBefore next) := by
  cases next with
  | helloRecvd => exact .nothing
  | authRecvd => exact .method
  | replyRecvd => exact .negotiated
  | finishIpv4 => exact .v4
  | finishIpv6 => exact .v6

/-- The client conforms in every stage. -/
theorem SocksStage.conforms {history : SocksHistory} (stage : SocksStage settings history)
    : Conforms settings history := by
  cases stage with
  | writing next phase reached taken noResult =>
      refine ⟨by simp [noResult, phase], reached.inOrder, fun _ _ => reached.credentials,
        reached.request, by simp [noResult], by simp [noResult],
        fun _ => ⟨_, takenBefore_agreeable next, ?_⟩⟩
      rw [phase, taken, SocksPhase.unfinished, List.append_nil]
  | reading next got phase unfinished reached taken noResult =>
      refine ⟨by simp [noResult, phase], reached.inOrder, fun _ _ => reached.credentials,
        reached.request, by simp [noResult], by simp [noResult],
        fun _ => ⟨_, takenBefore_agreeable next, ?_⟩⟩
      rw [phase, taken, SocksPhase.unfinished]
  | succeeded endpoint phase next reached accepts result =>
      refine ⟨by simp [result, phase], reached.inOrder, fun _ _ => reached.credentials,
        reached.request, ?_, by simp [result], by simp [result]⟩
      intro endpoint' reported
      rw [result, List.mem_singleton] at reported
      obtain rfl := Except.ok.inj reported
      exact accepts
  | failed code phase reached isError result =>
      have errors : ∀ code, .error code ∈ history.results → code.isError = true := by
        intro code' reported
        rw [result, List.mem_singleton] at reported
        obtain rfl := Except.error.inj reported
        exact isError
      rcases reached with noneSent | ⟨next, reached⟩
      · refine ⟨by simp [result, phase], by simp [noneSent], by simp [noneSent], ?_,
          by simp [result], errors, by simp [result]⟩
        intro isAll
        rw [noneSent] at isAll
        cases auth : settings.auth <;> simp [SocksSettings.conversation, auth] at isAll
      · exact ⟨by simp [result, phase], reached.inOrder, fun _ _ => reached.credentials,
          reached.request, by simp [result], errors, by simp [result]⟩

/-- In every run of the operation, whatever the proxy sends in whatever pieces, the client
conforms, and there are at most 29 events before it completes. Witness: the stages along the
run.
-/
theorem socks_conforms {events : List SocksEvent} {history : SocksHistory}
    (run : Reaches (SocksHistory.step settings) (.start settings) events history)
    : Conforms settings history ∧ events.length ≤ 29 := by
  obtain ⟨stage, short⟩ := reaches_stage run
  exact ⟨stage.conforms, by omega⟩

/-- `socks_conforms` for a proxy that accepts credentials and reports an address. -/
theorem socks_conforms_witness
    : let settings : SocksSettings :=
        {
          host := .name (lit "irc.example")
          port := 6697
          auth := .usernamePassword (lit "user") (lit "pass")
        }
      ∃ history events,
      Reaches (SocksHistory.step settings) (.start settings) events history
      ∧ history.results = [.ok (.v4 [192, 0, 2, 1] 6697)]
      ∧ Conforms settings history ∧ events.length ≤ 29 := by
  intro settings
  have run : Reaches (SocksHistory.step settings) (.start settings)
      [
        .wrote { category := .system, value := 0 }, .received [5], .received [2],
        .wrote { category := .system, value := 0 }, .received [1, 0],
        .wrote { category := .system, value := 0 }, .received [5, 0, 0], .received [1],
        .received [192, 0, 2, 1, 26, 41]
      ] _ :=
    reaches_of_run rfl
  exact ⟨_, _, run, rfl, socks_conforms run⟩

end Snowcone.Network
