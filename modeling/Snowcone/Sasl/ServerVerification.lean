import Snowcone.Sasl.SaslTask
import Snowcone.Sasl.ScramMessages

/-! When the SASL task reports success for a SCRAM mechanism: the server has proved that it
knows the password, or it has ended the mechanism with an error message.
-/

namespace Snowcone.Sasl

open Bytes Base64 Coroutine

/-- The payloads that the server's messages complete, up to the first message that is not
an `AUTHENTICATE` or cannot be decoded.
-/
def payloadsFrom (chunks : List Bytes) : List Message → List Bytes
  | .authenticate chunk :: messages =>
      match receive chunks chunk with
      | none => []
      | some (chunks, payload) => payload.toList ++ payloadsFrom chunks messages
  | _ => []

/-- The first message that is not an `AUTHENTICATE` reports success, and all messages
before it can be decoded.
-/
def succeeds (chunks : List Bytes) : List Message → Bool
  | .authenticate chunk :: messages =>
      match receive chunks chunk with
      | none => false
      | some (chunks, _) => succeeds chunks messages
  | .success :: _ => true
  | _ => false

variable (digest : Digest) (name : DigestName) (credentials : Credentials)

/-- The server has proved itself: its last payload is a server-final message with the
signature for the nonce, the salt and the iteration count that it sent before.
-/
inductive Verified : List Bytes → Prop
  | intro {initial serverFirst sig64 : Bytes} {first : ServerFirst}
    (negotiated : readServerFirst name credentials.nonce serverFirst = .ok first)
    (signed : fromBase64 sig64 = some (digest.serverSignature credentials serverFirst first))
    : Verified [initial, serverFirst, lit "v=" ++ sig64]

/-- The server's last payload is an error message, in place of its first or its final
message.
-/
inductive EndsInError : List Bytes → Prop
  | first {initial serverFirst : Bytes} (error : lit "e=" <+: serverFirst)
    : EndsInError [initial, serverFirst]
  | final {initial serverFirst serverFinal : Bytes} {first : ServerFirst}
    (negotiated : readServerFirst name credentials.nonce serverFirst = .ok first)
    (error : lit "e=" <+: serverFinal)
    : EndsInError [initial, serverFirst, serverFinal]

/-- The loop of a mechanism that was just started. -/
def startedLoop : Loop :=
  saslLoop (.suspended (fun _ => scramBody digest name credentials))

/-- What the user relies on: success means that the server is verified, and the proof is
only sent for a nonce and an iteration count that the client accepts.
-/
structure Trustworthy (messages : List Message) : Prop where
  verified :
    (runSasl (startedLoop digest name credentials) messages).2 = some (.returned true)
      → Verified digest name credentials (payloadsFrom [] messages)
  guarded : ∀ message,
    .payload message ∈ (runSasl (startedLoop digest name credentials) messages).1.sent
      → lit "c=" <+: message
      → ∃ serverFirst first,
        serverFirst ∈ payloadsFrom [] messages
        ∧ readServerFirst name credentials.nonce serverFirst = .ok first
        ∧ message = digest.clientFinal credentials serverFirst first
        ∧ Accepted name credentials.nonce serverFirst first

-----------------------------------------------------------------------------------------
-- The loop over the messages
-----------------------------------------------------------------------------------------

/-- The mechanism does not look at the chunks. -/
theorem Loop.deliver_chunks (loop : Loop) (chunks : List Bytes) (payload : Bytes)
    : ({ loop with chunks } : Loop).deliver payload
      = { loop.deliver payload with chunks } := by
  cases attempt : loop.impl.resume payload with
  | error refusal => cases refusal <;> simp [Loop.deliver, attempt, Loop.fail, Loop.status]
  | ok body =>
      cases body with
      | yields message next => simp [Loop.deliver, attempt]
      | raises message => simp [Loop.deliver, attempt, Loop.fail, Loop.status]
      | returns message => cases message <;> simp [Loop.deliver, attempt]

/-- Neither do several payloads, by induction on them. -/
theorem Loop.foldl_deliver_chunks (loop : Loop) (chunks : List Bytes) (payloads : List Bytes)
    : payloads.foldl Loop.deliver { loop with chunks }
      = { payloads.foldl Loop.deliver loop with chunks } := by
  induction payloads generalizing loop with
  | nil => rfl
  | cons payload payloads ih => rw [List.foldl_cons, deliver_chunks, ih, List.foldl_cons]

/-- The loop after some payloads, as far as the mechanism and the server are concerned. -/
structure Answered (loop loop' : Loop) : Prop where
  outcome : loop'.outcome = loop.outcome
  impl : loop'.impl = loop.impl
  sent : loop'.sent = loop.sent

/-- The loop delivers the payloads that the messages complete, and it returns true when the
next message reports success, the mechanism is dead, and nothing went wrong. Witness:
induction on the messages.
-/
theorem runSasl_payloads (loop : Loop) (messages : List Message)
    : let answered := (payloadsFrom loop.chunks messages).foldl Loop.deliver loop
      Answered answered (runSasl loop messages).1
      ∧ ((runSasl loop messages).2 = some (.returned true)
        ↔ succeeds loop.chunks messages = true ∧ answered.isDead = true
          ∧ answered.outcome = true) := by
  induction messages generalizing loop with
  | nil => simp [runSasl, payloadsFrom, succeeds, Answered.mk]
  | cons message messages ih =>
      cases message with
      | fail => simp [runSasl, saslRound, payloadsFrom, succeeds, Answered.mk, Loop.status]
      | aborted => simp [runSasl, saslRound, payloadsFrom, succeeds, Answered.mk, Loop.status]
      | success =>
          cases dead : loop.isDead <;>
            simp [runSasl, saslRound, payloadsFrom, succeeds, Answered.mk, Loop.status, dead]
      | authenticate chunk =>
          cases received : receive loop.chunks chunk with
          | none =>
              simp [runSasl, saslRound, payloadsFrom, succeeds, Answered.mk, received]
          | some result =>
              obtain ⟨chunks, payload⟩ := result
              cases payload with
              | none =>
                  obtain ⟨⟨outcome, impl, sent⟩, ending⟩ := ih { loop with chunks }
                  rw [Loop.foldl_deliver_chunks] at outcome impl sent ending
                  simp only [runSasl, saslRound, payloadsFrom, succeeds, received,
                    Option.toList_none, List.nil_append]
                  exact ⟨⟨outcome, impl, sent⟩, ending⟩
              | some payload =>
                  obtain ⟨⟨outcome, impl, sent⟩, ending⟩ := ih { loop.deliver payload with chunks }
                  rw [Loop.foldl_deliver_chunks] at outcome impl sent ending
                  simp only [runSasl, saslRound, payloadsFrom, succeeds, received,
                    Option.toList_some, List.singleton_append, List.foldl_cons,
                    Loop.deliver_chunks]
                  exact ⟨⟨outcome, impl, sent⟩, ending⟩

-----------------------------------------------------------------------------------------
-- The mechanism and the payloads
-----------------------------------------------------------------------------------------

/-- A mechanism that has ended takes no payload: each one is a failure, by induction on the
payloads.
-/
theorem Loop.foldl_deliver_dead {loop : Loop} (dead : loop.impl = .dead) (payloads : List Bytes)
    : let answered := payloads.foldl Loop.deliver loop
      answered.isDead = true
      ∧ (answered.outcome = true ↔ loop.outcome = true ∧ payloads = [])
      ∧ ∀ message, .payload message ∈ answered.sent → .payload message ∈ loop.sent := by
  induction payloads generalizing loop with
  | nil => simp [isDead, dead]
  | cons payload payloads ih =>
      have failed : loop.deliver payload = loop.fail "cannot resume dead coroutine" := by
        simp [Loop.deliver, State.resume, dead]
      obtain ⟨isDead, outcome, sent⟩ := @ih (loop.fail "cannot resume dead coroutine") dead
      rw [List.foldl_cons, failed]
      refine ⟨isDead, ?_, fun message isIn => ?_⟩
      · rw [outcome]
        simp [Loop.fail]
      · simpa [Loop.fail, Loop.status] using sent message isIn

/-- A mechanism that returns, with or without a last message. -/
theorem Loop.deliver_returns {loop : Loop} {next : Bytes → Mechanism} {payload : Bytes}
    {message : Option Bytes} (waits : loop.impl = .suspended next)
    (returns : next payload = .returns message)
    : loop.deliver payload
      = { loop with impl := .dead, sent := loop.sent ++ message.toList.map .payload } := by
  cases message <;> simp [Loop.deliver, State.resume, waits, returns]

/-- A mechanism that raises an error. -/
theorem Loop.deliver_raises {loop : Loop} {next : Bytes → Mechanism} {payload : Bytes}
    {message : String} (waits : loop.impl = .suspended next)
    (raises : next payload = .raises message)
    : loop.deliver payload = ({ loop with impl := .dead } : Loop).fail message := by
  simp [Loop.deliver, State.resume, waits, raises]

/-- A mechanism that yields a message. -/
theorem Loop.deliver_yields {loop : Loop} {next later : Bytes → Mechanism}
    {payload message : Bytes} (waits : loop.impl = .suspended next)
    (yields : next payload = .yields message later)
    : loop.deliver payload
      = { loop with impl := .suspended later, sent := loop.sent ++ [.payload message] } := by
  simp [Loop.deliver, State.resume, waits, yields]

/-- The mechanism has completed, and nothing went wrong. -/
def Loop.Completed (loop : Loop) : Prop := loop.isDead = true ∧ loop.outcome = true

/-- A mechanism that is suspended has not completed. -/
theorem Loop.not_completed {loop : Loop} {next : Bytes → Mechanism}
    (waits : loop.impl = .suspended next)
    : ¬ loop.Completed := by
  simp [Loop.Completed, Loop.isDead, waits]

/-- A mechanism that has raised an error never completes. -/
theorem Loop.raised_not_completed (loop : Loop) (message : String) (payloads : List Bytes)
    : ¬ (payloads.foldl Loop.deliver
        (({ loop with impl := .dead } : Loop).fail message)).Completed := by
  rintro ⟨-, well⟩
  have dead : (({ loop with impl := .dead } : Loop).fail message).impl = .dead := rfl
  have failed := ((Loop.foldl_deliver_dead dead payloads).2.1.mp well).1
  cases failed

variable {digest : Digest} {name : DigestName} {credentials : Credentials}

/-- While the mechanism waits for the server-final message, one more payload completes it,
the server's signature or an error message. Witness: cases on what the mechanism does with
the payload; after that it is dead.
-/
theorem completed_of_awaitServerFinal {loop : Loop} {serverFirst : Bytes} {first : ServerFirst}
    (waits : loop.impl = .suspended (awaitServerFinal digest credentials serverFirst first))
    {payloads : List Bytes} (completed : (payloads.foldl Loop.deliver loop).Completed)
    : ∃ serverFinal, payloads = [serverFinal]
      ∧ (lit "e=" <+: serverFinal
        ∨ ∃ sig64, serverFinal = lit "v=" ++ sig64
          ∧ fromBase64 sig64 = some (digest.serverSignature credentials serverFirst first)) := by
  cases payloads with
  | nil => exact absurd completed (Loop.not_completed waits)
  | cons serverFinal payloads =>
      refine ⟨serverFinal, ?_⟩
      rw [List.foldl_cons] at completed
      by_cases error : lit "e=" <+: serverFinal
      · rw [Loop.deliver_returns waits (if_pos error)] at completed
        rw [((Loop.foldl_deliver_dead rfl payloads).2.1.mp completed.2).2]
        exact ⟨rfl, .inl error⟩
      · cases read : readServerFinal (digest.serverSignature credentials serverFirst first)
            serverFinal with
        | error message =>
            have raises : awaitServerFinal digest credentials serverFirst first serverFinal
                = .raises message := by
              simp only [awaitServerFinal, if_neg error, read]
            rw [Loop.deliver_raises waits raises] at completed
            exact absurd completed (loop.raised_not_completed message payloads)
        | ok accepted =>
            have returns : awaitServerFinal digest credentials serverFirst first serverFinal
                = .returns (some []) := by
              simp only [awaitServerFinal, if_neg error, read]
            rw [Loop.deliver_returns waits returns] at completed
            rw [((Loop.foldl_deliver_dead rfl payloads).2.1.mp completed.2).2]
            exact ⟨rfl, .inr (readServerFinal_ok read)⟩

/-- While the mechanism waits for the server-first message, it completes with an error
message, or with a message that it accepts and one of the payloads that complete it then.
-/
theorem completed_of_awaitServerFirst {loop : Loop}
    (waits : loop.impl = .suspended (awaitServerFirst digest name credentials))
    {payloads : List Bytes} (completed : (payloads.foldl Loop.deliver loop).Completed)
    (initial : Bytes)
    : Verified digest name credentials (initial :: payloads)
      ∨ EndsInError name credentials (initial :: payloads) := by
  cases payloads with
  | nil => exact absurd completed (Loop.not_completed waits)
  | cons serverFirst payloads =>
      rw [List.foldl_cons] at completed
      by_cases error : lit "e=" <+: serverFirst
      · rw [Loop.deliver_returns waits (if_pos error)] at completed
        rw [((Loop.foldl_deliver_dead rfl payloads).2.1.mp completed.2).2]
        exact .inr (.first error)
      · cases read : readServerFirst name credentials.nonce serverFirst with
        | error message =>
            have raises : awaitServerFirst digest name credentials serverFirst
                = .raises message := by
              simp only [awaitServerFirst, if_neg error, read]
            rw [Loop.deliver_raises waits raises] at completed
            exact absurd completed (loop.raised_not_completed message payloads)
        | ok first =>
            rw [Loop.deliver_yields waits (awaitServerFirst_accepted read)] at completed
            obtain ⟨serverFinal, rfl, isError | ⟨sig64, rfl, signed⟩⟩ :=
              completed_of_awaitServerFinal rfl completed
            · exact .inr (.final read isError)
            · exact .inl (.intro read signed)

/-- The first payload only makes the mechanism send its first message. -/
theorem startedLoop_deliver (initial : Bytes)
    : (startedLoop digest name credentials).deliver initial
      = {
        startedLoop digest name credentials with
        impl := .suspended (awaitServerFirst digest name credentials)
        sent := [.payload credentials.clientFirst]
      } :=
  Loop.deliver_yields rfl scramBody_eq

/-- A mechanism that was just started completes only for a verified server or for one that
ends in an error.
-/
theorem completed_of_started {payloads : List Bytes}
    (completed : (payloads.foldl Loop.deliver (startedLoop digest name credentials)).Completed)
    : Verified digest name credentials payloads ∨ EndsInError name credentials payloads := by
  cases payloads with
  | nil => exact absurd completed (Loop.not_completed rfl)
  | cons initial payloads =>
      rw [List.foldl_cons, startedLoop_deliver] at completed
      exact completed_of_awaitServerFirst rfl completed initial

/-- A server that ends in an error completes the mechanism. -/
theorem EndsInError.completed {payloads : List Bytes}
    (ends : EndsInError name credentials payloads)
    : (payloads.foldl Loop.deliver (startedLoop digest name credentials)).Completed := by
  cases ends with
  | first error =>
      simp only [List.foldl_cons, List.foldl_nil, startedLoop_deliver]
      rw [Loop.deliver_returns rfl (if_pos error)]
      exact ⟨rfl, rfl⟩
  | final negotiated error =>
      simp only [List.foldl_cons, List.foldl_nil, startedLoop_deliver]
      rw [Loop.deliver_yields rfl (awaitServerFirst_accepted negotiated)]
      rw [Loop.deliver_returns rfl (if_pos error)]
      exact ⟨rfl, rfl⟩

/-- A server that ends in an error has not proved itself. -/
theorem EndsInError.not_verified {payloads : List Bytes}
    (ends : EndsInError name credentials payloads)
    : ¬ Verified digest name credentials payloads := by
  intro verified
  cases verified with
  | intro negotiated signed =>
      cases ends with
      | final _ error => exact not_error (List.prefix_append (lit "v=") _) (by decide) error

-----------------------------------------------------------------------------------------
-- What the mechanism sends
-----------------------------------------------------------------------------------------

/-- A mechanism that returns sends what it returns, and nothing after that. -/
theorem sent_of_returns {loop : Loop} {next : Bytes → Mechanism} {payload message : Bytes}
    {result : Option Bytes} {payloads : List Bytes} (waits : loop.impl = .suspended next)
    (returns : next payload = .returns result)
    (sent : .payload message ∈ (payloads.foldl Loop.deliver (loop.deliver payload)).sent)
    : .payload message ∈ loop.sent ∨ result = some message := by
  rw [Loop.deliver_returns waits returns] at sent
  have earlier := (Loop.foldl_deliver_dead rfl payloads).2.2 message sent
  simpa using earlier

/-- A mechanism that raises an error sends nothing more. -/
theorem sent_of_raises {loop : Loop} {next : Bytes → Mechanism} {payload message : Bytes}
    {text : String} {payloads : List Bytes} (waits : loop.impl = .suspended next)
    (raises : next payload = .raises text)
    (sent : .payload message ∈ (payloads.foldl Loop.deliver (loop.deliver payload)).sent)
    : .payload message ∈ loop.sent := by
  rw [Loop.deliver_raises waits raises] at sent
  have earlier := (Loop.foldl_deliver_dead rfl payloads).2.2 message sent
  simpa [Loop.fail, Loop.status] using earlier

/-- While the mechanism waits for the server-final message it sends nothing more than an
empty message.
-/
theorem sent_of_awaitServerFinal {loop : Loop} {serverFirst message : Bytes}
    {first : ServerFirst}
    (waits : loop.impl = .suspended (awaitServerFinal digest credentials serverFirst first))
    {payloads : List Bytes}
    (sent : .payload message ∈ (payloads.foldl Loop.deliver loop).sent)
    : .payload message ∈ loop.sent ∨ message = [] := by
  cases payloads with
  | nil => exact .inl sent
  | cons serverFinal payloads =>
      rw [List.foldl_cons] at sent
      by_cases error : lit "e=" <+: serverFinal
      · exact .inl (by simpa using sent_of_returns waits (if_pos error) sent)
      · cases read : readServerFinal (digest.serverSignature credentials serverFirst first)
            serverFinal with
        | error text =>
            have raises : awaitServerFinal digest credentials serverFirst first serverFinal
                = .raises text := by
              simp only [awaitServerFinal, if_neg error, read]
            exact .inl (sent_of_raises waits raises sent)
        | ok accepted =>
            have returns : awaitServerFinal digest credentials serverFirst first serverFinal
                = .returns (some []) := by
              simp only [awaitServerFinal, if_neg error, read]
            exact (sent_of_returns waits returns sent).imp_right
              (fun isEmpty => (Option.some.inj isEmpty).symm)

/-- The last message with the proof is only sent for a server-first message that was
accepted.
-/
theorem sent_of_awaitServerFirst {loop : Loop} {message : Bytes}
    (waits : loop.impl = .suspended (awaitServerFirst digest name credentials))
    {payloads : List Bytes}
    (sent : .payload message ∈ (payloads.foldl Loop.deliver loop).sent)
    : .payload message ∈ loop.sent ∨ message = []
      ∨ ∃ serverFirst first, serverFirst ∈ payloads
        ∧ readServerFirst name credentials.nonce serverFirst = .ok first
        ∧ message = digest.clientFinal credentials serverFirst first
        ∧ Accepted name credentials.nonce serverFirst first := by
  cases payloads with
  | nil => exact .inl sent
  | cons serverFirst payloads =>
      rw [List.foldl_cons] at sent
      by_cases error : lit "e=" <+: serverFirst
      · exact .inl (by simpa using sent_of_returns waits (if_pos error) sent)
      · cases read : readServerFirst name credentials.nonce serverFirst with
        | error text =>
            have raises : awaitServerFirst digest name credentials serverFirst
                = .raises text := by
              simp only [awaitServerFirst, if_neg error, read]
            exact .inl (sent_of_raises waits raises sent)
        | ok first =>
            rw [Loop.deliver_yields waits (awaitServerFirst_accepted read)] at sent
            rcases sent_of_awaitServerFinal rfl sent with before | isEmpty
            · rcases List.mem_append.mp before with earlier | isLast
              · exact .inl earlier
              · obtain rfl := Sent.payload.inj (List.mem_singleton.mp isLast)
                exact .inr (.inr ⟨serverFirst, first, List.mem_cons_self, read, rfl,
                  readServerFirst_ok read⟩)
            · exact .inr (.inl isEmpty)

/-- The client's first message is not its last one. -/
theorem clientFirst_not_final (credentials : Credentials)
    : ¬ lit "c=" <+: credentials.clientFirst := by
  rintro ⟨rest, same⟩
  cases authzid : credentials.authzid <;>
    simp [Credentials.clientFirst, Credentials.gs2Header, authzid, lit] at same <;>
    exact absurd same.1 (by decide)

/-- Whatever payloads arrive, the proof is only sent for a server-first message that was
accepted.
-/
theorem sent_guarded {message : Bytes} {payloads : List Bytes}
    (sent : .payload message ∈
      (payloads.foldl Loop.deliver (startedLoop digest name credentials)).sent)
    (isFinal : lit "c=" <+: message)
    : ∃ serverFirst first, serverFirst ∈ payloads
      ∧ readServerFirst name credentials.nonce serverFirst = .ok first
      ∧ message = digest.clientFinal credentials serverFirst first
      ∧ Accepted name credentials.nonce serverFirst first := by
  cases payloads with
  | nil => simp [startedLoop, saslLoop] at sent
  | cons initial payloads =>
      rw [List.foldl_cons, startedLoop_deliver] at sent
      rcases sent_of_awaitServerFirst rfl sent with isFirst | rfl | ⟨serverFirst, first, isIn, rest⟩
      · obtain rfl := Sent.payload.inj (List.mem_singleton.mp isFirst)
        exact absurd isFinal (clientFirst_not_final credentials)
      · simp [lit] at isFinal
      · exact ⟨serverFirst, first, List.mem_cons_of_mem _ isIn, rest⟩

/-- In every run of the task with a SCRAM mechanism, the user can rely on it exactly unless
the server reports success right after it has ended the mechanism with an error message.
Witness: the loop delivers the payloads, and the mechanism completes with them only in two
ways.
-/
theorem sasl_trustworthy_iff (digest : Digest) (name : DigestName) (credentials : Credentials)
    (messages : List Message)
    : Trustworthy digest name credentials messages
      ↔ ¬ (succeeds [] messages = true
        ∧ EndsInError name credentials (payloadsFrom [] messages)) := by
  obtain ⟨answered, ending⟩ := runSasl_payloads (startedLoop digest name credentials) messages
  constructor
  · rintro ⟨verified, -⟩ ⟨success, ends⟩
    exact ends.not_verified (verified (ending.mpr ⟨success, ends.completed⟩))
  · intro honest
    constructor
    · intro returned
      obtain ⟨success, completed⟩ := ending.mp returned
      rcases completed_of_started completed with verified | ends
      · exact verified
      · exact absurd ⟨success, ends⟩ honest
    · intro message sent
      rw [answered.sent] at sent
      exact sent_guarded sent

/-- A digest without any security. -/
def plainDigest : Digest :=
  {
    digest := fun data => data
    hmac := fun _ key => key
    pbkdf2 := fun password _ _ _ => password
    size := 0
  }

/-- The server answers the client's first message with an error message and then reports
success: the task returns true, but the server has proved nothing.
-/
theorem sasl_trustworthy_counterexample
    : let credentials : Credentials :=
        { authzid := none, authcid := lit "user", password := lit "pencil", nonce := lit "abc" }
      let messages : List Message :=
        [
          .authenticate (some (lit "+")),
          -- e=other-error
          .authenticate (some (lit "ZT1vdGhlci1lcnJvcg==")),
          .success
        ]
      (runSasl (startedLoop plainDigest .sha1 credentials) messages).2 = some (.returned true)
      ∧ payloadsFrom [] messages = [[], lit "e=other-error"]
      ∧ ¬ Trustworthy plainDigest .sha1 credentials messages := by
  intro credentials messages
  have returned : (runSasl (startedLoop plainDigest .sha1 credentials) messages).2
      = some (.returned true) := by
    decide +kernel
  have payloads : payloadsFrom [] messages = [[], lit "e=other-error"] := by decide +kernel
  refine ⟨returned, payloads, fun trustworthy => ?_⟩
  have verified := trustworthy.verified returned
  rw [payloads] at verified
  cases verified

end Snowcone.Sasl
