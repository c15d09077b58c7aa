import Snowcone.Sasl.HonestExchange
import Snowcone.Sasl.SaslTask
import Snowcone.Sending.Redaction

/-! The mechanism PLAIN, and what its runs leave on the screen: nothing that tells passwords of
one encoded size apart.
-/

namespace Snowcone.Sasl

open Bytes Base64 Coroutine
open Sending (Client Argument Ended DifferInSecret SameLogs Refused Breaks badTexts_singleton)

variable {Num : Type} (numeral : Num → Bytes)

/-- The message of PLAIN, for a `stringprep` that may raise an error; without the library the
strings are taken as they are.
-/
def plainMessage (stringprep : Bytes → Except String Bytes) (authzid : Option Bytes)
    (authcid password : Bytes)
    : Except String Bytes := do
  let authcid ← stringprep authcid
  let authzid ←
    match authzid with
    | none => pure none
    | some authzid => some <$> stringprep authzid
  let password ← stringprep password
  pure (authzid.getD [] ++ 0 :: (authcid ++ 0 :: password))

/-- The coroutine of PLAIN: it returns its message, which is secret. -/
def plainCoroutine (message : Bytes) : State Bytes Bytes String (Option Bytes) :=
  .suspended fun _ => .returns (some message)

/-- The client and the status messages. -/
structure Terminal where
  client : Client
  statuses : List String

/-- `send(cmd, ...)` -/
def Terminal.send (terminal : Terminal) (cmd : Bytes) (args : List (Argument Num))
    : Terminal × Ended :=
  let (client, ended) := Sending.send numeral terminal.client cmd args
  ({ terminal with client }, ended)

/-- The calls of `send` in `send_authenticate`, one after the other. -/
def sendEach (terminal : Terminal) : List (Argument Num) → Terminal × Ended
  | [] => (terminal, .returns)
  | arg :: args =>
      match terminal.send numeral (lit "AUTHENTICATE") [arg] with
      | (terminal, .returns) => sendEach terminal args
      | stopped => stopped

/-- The arguments for what is sent: the messages of PLAIN are secret. -/
def argsFor : Sent → List (Argument Num)
  | .payload message => sendAuthenticate message true
  | .abort => [.plain (.string (lit "*"))]

/-- `send_authenticate` and `abort_sasl`, as the loop calls them. -/
def transmit (terminal : Terminal) : List Sent → Terminal × Ended
  | [] => (terminal, .returns)
  | sent :: more =>
      match sendEach numeral terminal (argsFor sent) with
      | (terminal, .returns) => transmit terminal more
      | stopped => stopped

/-- The loop over the messages, with what each round reports and sends. -/
def runLoop (terminal : Terminal) (loop : Loop) : List Message → Terminal × Option Ending
  | [] => (terminal, none)
  | message :: messages =>
      let (loop, ending) := saslRound { loop with sent := [], statuses := [] } message
      let terminal := { terminal with statuses := terminal.statuses ++ loop.statuses }
      match transmit numeral terminal loop.sent, ending with
      | (terminal, .returns), none => runLoop terminal loop messages
      | (terminal, .returns), some ending => (terminal, some ending)
      | (terminal, .raises text), _ => (terminal, some (.raised text))
      -- no chat message is sent
      | (terminal, .hangs), _ => (terminal, none)

/-- The SASL task for PLAIN, with a password that has been found, and a `username` that is not
missing; the server's messages are those that the task waits for.
-/
def plainTask (stringprep : Bytes → Except String Bytes) (authzid : Option Bytes)
    (authcid password : Bytes) (terminal : Terminal) (messages : List Message)
    : Terminal × Option Ending :=
  match plainMessage stringprep authzid authcid password with
  | .error message =>
      ({ terminal with statuses := terminal.statuses ++ ["Startup failed: PLAIN " ++ message] },
        some (.returned false))
  | .ok message =>
      match terminal.send numeral (lit "AUTHENTICATE") [.plain (.string (lit "PLAIN"))] with
      | (terminal, .returns) =>
          runLoop numeral terminal (saslLoop (plainCoroutine message)) messages
      | (terminal, .raises text) => (terminal, some (.raised text))
      | (terminal, .hangs) => (terminal, none)

/-- Two terminals with the same logs. -/
structure SameScreen (terminal terminal' : Terminal) : Prop where
  logs : SameLogs terminal.client terminal'.client
  statuses : terminal.statuses = terminal'.statuses

-----------------------------------------------------------------------------------------
-- Messages of the task
-----------------------------------------------------------------------------------------

/-- A parameter that is never refused. -/
structure FitParam (arg : Argument Num) : Prop where
  short : (arg.part numeral).length ≤ 400
  clean : ∀ c ∈ arg.part numeral, ¬ Breaks c

variable {numeral}

/-- The line of such a parameter is sent. -/
theorem FitParam.accepted {arg : Argument Num} (fit : FitParam numeral arg)
    : ¬ Refused (lit "AUTHENTICATE") (Sending.textsOf numeral [arg]) := by
  have text : Sending.textsOf numeral [arg] = [arg.part numeral] := rfl
  rw [text]
  rintro (bad | long)
  · obtain ⟨c, isIn, breaks⟩ := (badTexts_singleton _).mp bad
    exact fit.clean c isIn breaks
  · obtain ⟨part, wire, size⟩ :
        ∃ part, Sending.wireParts [arg.part numeral] = [part] ∧ part.length ≤ 401 := by
      refine ⟨_, rfl, ?_⟩
      split
      · exact Nat.le_succ_of_le fit.short
      · exact Nat.succ_le_succ fit.short
    rw [Sending.lineOf, Sending.bodyOf, Sending.concat_cons, wire, List.flatMap_singleton] at long
    have word : (lit "AUTHENTICATE").length = 12 := rfl
    simp only [List.length_append, List.length_cons, List.length_nil, word] at long
    omega

/-- What is encoded does not end a line. -/
theorem not_breaks_of_mem_encode {body : Bytes} {c : Byte} (isIn : c ∈ encode body)
    : ¬ Breaks c := by
  have text := base64Text_encode body
  generalize encode body = encoded at isIn text
  obtain @⟨letters, padding, allLetters, allPadding, short⟩ := text
  rintro breaks
  rcases List.mem_append.mp isIn with letter | pad
  · have isChar := allLetters c letter
    rcases breaks with rfl | rfl | rfl <;> cases isChar
  · have isPad := allPadding c pad
    rcases breaks with rfl | rfl | rfl <;> cases isPad

/-- Nor is a character that does not end a line. -/
theorem fitParam_char {c : Byte} (fine : ¬ Breaks c)
    : FitParam numeral (.plain (.string [c])) :=
  ⟨Nat.le_add_left 1 399, fun _ isIn => List.mem_singleton.mp isIn ▸ fine⟩

/-- The parameters of a payload are never refused. -/
theorem fitParam_sendAuthenticate {body : Bytes} {secret : Bool} {arg : Argument Num}
    (isIn : arg ∈ sendAuthenticate body secret)
    : FitParam numeral arg := by
  have chunk : ∀ k, FitParam numeral
      (.table (.string (((toBase64 body).drop (400 * k)).take 400)) secret) := by
    intro k
    refine ⟨List.length_take_le _ _, fun c isIn => ?_⟩
    exact not_breaks_of_mem_encode (List.mem_of_mem_drop (List.mem_of_mem_take isIn))
  have plus : FitParam numeral (.plain (.string (lit "+"))) :=
    fitParam_char (by unfold Breaks; decide)
  simp only [sendAuthenticate] at isIn
  split at isIn
  · rcases List.mem_append.mp isIn with isChunk | isPlus
    · obtain ⟨k, _, rfl⟩ := List.mem_map.mp isChunk
      exact chunk k
    · exact List.mem_singleton.mp isPlus ▸ plus
  · obtain ⟨k, _, rfl⟩ := List.mem_map.mp isIn
    exact chunk k

/-- Secret payloads of one encoded size have parameters that differ in secrets alone. -/
theorem sendAuthenticate_alike {body body' : Bytes}
    (size : (toBase64 body).length = (toBase64 body').length)
    : List.Forall₂ (@DifferInSecret Num) (sendAuthenticate body true)
        (sendAuthenticate body' true) := by
  have chunks : List.Forall₂ (@DifferInSecret Num)
      ((List.range (((toBase64 body).length + 399) / 400)).map fun k =>
        .table (.string (((toBase64 body).drop (400 * k)).take 400)) true)
      ((List.range (((toBase64 body).length + 399) / 400)).map fun k =>
        .table (.string (((toBase64 body').drop (400 * k)).take 400)) true) := by
    rw [List.forall₂_map_left_iff, List.forall₂_map_right_iff, List.forall₂_same]
    exact fun k _ => .secret _ _
  simp only [sendAuthenticate, ← size]
  split
  · exact List.rel_append chunks (.cons (.same _) .nil)
  · exact chunks

-----------------------------------------------------------------------------------------
-- Two runs
-----------------------------------------------------------------------------------------

/-- Two terminals that do not differ on the screen, and two ends that are the same. -/
def Alike {Outcome : Type} (result result' : Terminal × Outcome) : Prop :=
  SameScreen result.1 result'.1 ∧ result.2 = result'.2

/-- One parameter each. -/
theorem send_alike {terminal terminal' : Terminal} (same : SameScreen terminal terminal')
    {arg arg' : Argument Num} (differ : DifferInSecret arg arg') (fit : FitParam numeral arg)
    (fit' : FitParam numeral arg')
    : Alike (terminal.send numeral (lit "AUTHENTICATE") [arg])
        (terminal'.send numeral (lit "AUTHENTICATE") [arg']) := by
  cases connected : terminal.client.ircState with
  | some irc =>
      obtain ⟨logs, ended⟩ := Sending.send_sameLogs numeral same.logs connected
        (.cons differ .nil) fit.accepted fit'.accepted
      exact ⟨⟨logs, same.statuses⟩, ended⟩
  | none =>
      have sameStatus := same.logs.statusmsg
      rw [connected, Option.map_none, eq_comm, Option.map_eq_none_iff] at sameStatus
      simp only [Terminal.send, Sending.send, connected, sameStatus]
      exact ⟨same, rfl⟩

/-- One parameter after the other, by induction on them. -/
theorem sendEach_alike {terminal terminal' : Terminal} (same : SameScreen terminal terminal')
    {args args' : List (Argument Num)} (differ : List.Forall₂ DifferInSecret args args')
    (fit : ∀ arg ∈ args, FitParam numeral arg) (fit' : ∀ arg ∈ args', FitParam numeral arg)
    : Alike (sendEach numeral terminal args) (sendEach numeral terminal' args') := by
  induction differ generalizing terminal terminal' with
  | nil => exact ⟨same, rfl⟩
  | @cons arg arg' args args' first others ih =>
      obtain ⟨fitFirst, fitOthers⟩ := List.forall_mem_cons.mp fit
      obtain ⟨fitFirst', fitOthers'⟩ := List.forall_mem_cons.mp fit'
      obtain ⟨later, ended⟩ := send_alike same first fitFirst fitFirst'
      simp only [sendEach]
      generalize terminal.send numeral (lit "AUTHENTICATE") [arg] = result at later ended ⊢
      generalize terminal'.send numeral (lit "AUTHENTICATE") [arg'] = result' at later ended ⊢
      obtain ⟨after, ended'⟩ := result
      obtain ⟨after', _⟩ := result'
      cases ended
      cases ended' with
      | returns => exact ih later fitOthers fitOthers'
      | raises text => exact ⟨later, rfl⟩
      | hangs => exact ⟨later, rfl⟩

/-- What is sent in the two runs: the same, but for payloads of one encoded size. -/
inductive SentAlike : Sent → Sent → Prop
  | abort : SentAlike .abort .abort
  | payload {message message'}
    (size : (toBase64 message).length = (toBase64 message').length)
    : SentAlike (.payload message) (.payload message')

/-- The coroutines of the two runs: both have their message still, or both are dead. -/
inductive ImplAlike
    : State Bytes Bytes String (Option Bytes) → State Bytes Bytes String (Option Bytes) → Prop
  | fresh {message message'} (size : (toBase64 message).length = (toBase64 message').length)
    : ImplAlike (plainCoroutine message) (plainCoroutine message')
  | dead : ImplAlike .dead .dead

/-- The loops of the two runs. -/
structure LoopAlike (loop loop' : Loop) : Prop where
  outcome : loop.outcome = loop'.outcome
  chunks : loop.chunks = loop'.chunks
  impl : ImplAlike loop.impl loop'.impl
  sent : List.Forall₂ SentAlike loop.sent loop'.sent
  statuses : loop.statuses = loop'.statuses

/-- The calls of `send`, by induction on what is sent. -/
theorem transmit_alike {terminal terminal' : Terminal} (same : SameScreen terminal terminal')
    {sent sent' : List Sent} (alike : List.Forall₂ SentAlike sent sent')
    : Alike (transmit numeral terminal sent) (transmit numeral terminal' sent') := by
  induction alike generalizing terminal terminal' with
  | nil => exact ⟨same, rfl⟩
  | @cons first first' more more' here others ih =>
      have each : Alike (sendEach numeral terminal (argsFor first))
          (sendEach numeral terminal' (argsFor first')) := by
        cases here with
        | payload size =>
            exact sendEach_alike same (sendAuthenticate_alike size)
              (fun _ => fitParam_sendAuthenticate) (fun _ => fitParam_sendAuthenticate)
        | abort =>
            have fit : FitParam numeral (.plain (.string (lit "*"))) :=
              fitParam_char (by unfold Breaks; decide)
            exact sendEach_alike same (.cons (.same _) .nil)
              (List.forall_mem_singleton.mpr fit) (List.forall_mem_singleton.mpr fit)
      obtain ⟨later, ended⟩ := each
      simp only [transmit]
      generalize sendEach numeral terminal (argsFor first) = result at later ended ⊢
      generalize sendEach numeral terminal' (argsFor first') = result' at later ended ⊢
      obtain ⟨after, ended'⟩ := result
      obtain ⟨after', _⟩ := result'
      cases ended
      cases ended' with
      | returns => exact ih later
      | raises text => exact ⟨later, rfl⟩
      | hangs => exact ⟨later, rfl⟩

/-- A status message in both loops. -/
theorem LoopAlike.status {loop loop' : Loop} (alike : LoopAlike loop loop') (text : String)
    : LoopAlike (loop.status text) (loop'.status text) :=
  { alike with statuses := congrArg (· ++ [text]) alike.statuses }

/-- A payload from the server in both loops. -/
theorem LoopAlike.deliver {loop loop' : Loop} (alike : LoopAlike loop loop') (payload : Bytes)
    : LoopAlike (loop.deliver payload) (loop'.deliver payload) := by
  obtain ⟨outcome, chunks, impl, sent, statuses⟩ := loop
  obtain ⟨outcome', chunks', impl', sent', statuses'⟩ := loop'
  obtain ⟨rfl, rfl, implAlike, sentAlike, rfl⟩ := alike
  cases implAlike with
  | fresh size =>
      have sent := List.rel_append sentAlike (.cons (.payload size) .nil)
      exact ⟨rfl, rfl, .dead, sent, rfl⟩
  | dead =>
      have sent := List.rel_append sentAlike (.cons .abort .nil)
      exact ⟨rfl, rfl, .dead, sent, rfl⟩

/-- One round of both loops. -/
theorem saslRound_alike {loop loop' : Loop} (alike : LoopAlike loop loop') (message : Message)
    : LoopAlike (saslRound loop message).1 (saslRound loop' message).1
      ∧ (saslRound loop message).2 = (saslRound loop' message).2 := by
  have sameDead : loop.isDead = loop'.isDead := by
    obtain ⟨outcome, chunks, impl, sent, statuses⟩ := loop
    obtain ⟨outcome', chunks', impl', sent', statuses'⟩ := loop'
    cases alike.impl with
    | fresh size => rfl
    | dead => rfl
  cases message with
  | fail => exact ⟨alike.status _, rfl⟩
  | aborted => exact ⟨alike.status _, rfl⟩
  | success =>
      simp only [saslRound, sameDead, alike.outcome]
      split
      · exact ⟨alike.status _, rfl⟩
      · exact ⟨alike.status _, rfl⟩
  | authenticate chunk =>
      simp only [saslRound, alike.chunks]
      cases receive loop'.chunks chunk with
      | none => exact ⟨alike, rfl⟩
      | some received =>
          obtain ⟨chunks, payload⟩ := received
          have kept : LoopAlike { loop with chunks } { loop' with chunks } :=
            { alike with chunks := rfl }
          cases payload with
          | none => exact ⟨kept, rfl⟩
          | some payload => exact ⟨kept.deliver payload, rfl⟩

/-- The two loops, by induction on the messages. -/
theorem runLoop_alike {terminal terminal' : Terminal} (same : SameScreen terminal terminal')
    {loop loop' : Loop} (alike : LoopAlike loop loop') (messages : List Message)
    : Alike (runLoop numeral terminal loop messages)
        (runLoop numeral terminal' loop' messages) := by
  induction messages generalizing terminal terminal' loop loop' with
  | nil => exact ⟨same, rfl⟩
  | cons message messages ih =>
      have cleared : LoopAlike { loop with sent := [], statuses := [] }
          { loop' with sent := [], statuses := [] } :=
        { alike with sent := .nil, statuses := rfl }
      obtain ⟨round, ending⟩ := saslRound_alike cleared message
      simp only [runLoop]
      generalize saslRound { loop with sent := [], statuses := [] } message = result
        at round ending ⊢
      generalize saslRound { loop' with sent := [], statuses := [] } message = result'
        at round ending ⊢
      obtain ⟨next, stops⟩ := result
      obtain ⟨next', _⟩ := result'
      cases ending
      have reported : SameScreen
          { terminal with statuses := terminal.statuses ++ next.statuses }
          { terminal' with statuses := terminal'.statuses ++ next'.statuses } :=
        ⟨same.logs, by rw [same.statuses, round.statuses]⟩
      obtain ⟨later, ended⟩ := @transmit_alike _ numeral _ _ reported _ _ round.sent
      generalize transmit numeral _ next.sent = result at later ended ⊢
      generalize transmit numeral _ next'.sent = result' at later ended ⊢
      obtain ⟨after, ended'⟩ := result
      obtain ⟨after', _⟩ := result'
      cases ended
      cases ended' with
      | raises text => exact ⟨later, rfl⟩
      | hangs => exact ⟨later, rfl⟩
      | returns =>
          cases stops with
          | none => exact ih later round
          | some ending => exact ⟨later, rfl⟩

/-- The two tasks, for passwords of one encoded size. -/
theorem plainTask_alike (stringprep : Bytes → Except String Bytes) (authzid : Option Bytes)
    {authcid password password' message message' : Bytes}
    (made : plainMessage stringprep authzid authcid password = .ok message)
    (made' : plainMessage stringprep authzid authcid password' = .ok message')
    (size : (toBase64 message).length = (toBase64 message').length) (terminal : Terminal)
    (messages : List Message)
    : Alike (plainTask numeral stringprep authzid authcid password terminal messages)
        (plainTask numeral stringprep authzid authcid password' terminal messages) := by
  have same : SameScreen terminal terminal := ⟨.refl terminal.client, rfl⟩
  simp only [plainTask, made, made']
  generalize terminal.send numeral (lit "AUTHENTICATE") _ = result
  obtain ⟨after, ended⟩ := result
  have started : SameScreen after after := ⟨.refl after.client, rfl⟩
  cases ended with
  | raises text => exact ⟨started, rfl⟩
  | hangs => exact ⟨started, rfl⟩
  | returns =>
      have loops : LoopAlike (saslLoop (plainCoroutine message))
          (saslLoop (plainCoroutine message')) :=
        ⟨rfl, rfl, .fresh size, .nil, rfl⟩
      exact runLoop_alike started loops messages

/-- Nothing but what goes to the connection depends on a secret: two calls of `send` that differ
in secret contents leave the same client apart from what was sent, and two runs of PLAIN with
passwords of one encoded size leave the same screen and end the same way.
-/
theorem secrets_stay_off_screen (numeral : Num → Bytes)
    (stringprep : Bytes → Except String Bytes)
    : (∀ (terminal : Terminal) (cmd : Bytes) (args args' : List (Argument Num)),
        List.Forall₂ DifferInSecret args args'
        → (terminal.send numeral cmd args).2 = .returns
        → (terminal.send numeral cmd args').2 = .returns
        → SameScreen (terminal.send numeral cmd args).1 (terminal.send numeral cmd args').1)
      ∧ ∀ (authzid : Option Bytes) (authcid password password' message message' : Bytes)
          (terminal : Terminal) (messages : List Message),
        plainMessage stringprep authzid authcid password = .ok message
        → plainMessage stringprep authzid authcid password' = .ok message'
        → (toBase64 message).length = (toBase64 message').length
        → Alike (plainTask numeral stringprep authzid authcid password terminal messages)
            (plainTask numeral stringprep authzid authcid password' terminal messages) := by
  constructor
  · intro terminal cmd args args' differ returns returns'
    obtain ⟨irc, connected, accepted⟩ := Sending.accepted_of_returns numeral returns
    obtain ⟨_, _, accepted'⟩ := Sending.accepted_of_returns numeral returns'
    have same := Sending.send_sameLogs numeral (.refl terminal.client) connected differ accepted
      accepted'
    exact ⟨same.1, rfl⟩
  · intro authzid authcid password password' message message' terminal messages made made' size
    exact plainTask_alike stringprep authzid made made' size terminal messages

/-- The terminal of a client that is connected. -/
def freshTerminal : Terminal := { client := Sending.freshClient, statuses := [] }

/-- Two secrets behind a plain argument, and two passwords of one length. -/
theorem secrets_stay_off_screen_witness
    : SameScreen
        (freshTerminal.send (fun _ : Nat => []) (lit "OPER")
          [.plain (.string (lit "me")), .table (.string (lit "secret")) true]).1
        (freshTerminal.send (fun _ : Nat => []) (lit "OPER")
          [.plain (.string (lit "me")), .table (.string (lit "other")) true]).1
      ∧ Alike
          (plainTask (fun _ : Nat => []) .ok none (lit "me") (lit "secret") freshTerminal
            [.authenticate (some (lit "+")), .success])
          (plainTask (fun _ : Nat => []) .ok none (lit "me") (lit "public") freshTerminal
            [.authenticate (some (lit "+")), .success]) :=
  have screens := secrets_stay_off_screen (fun _ : Nat => []) .ok
  ⟨screens.1 freshTerminal (lit "OPER") _ _ (.cons (.same _) (.cons (.secret _ _) .nil)) rfl rfl,
    screens.2 none (lit "me") (lit "secret") (lit "public") _ _ freshTerminal _ rfl rfl
      (by decide)⟩

end Snowcone.Sasl
