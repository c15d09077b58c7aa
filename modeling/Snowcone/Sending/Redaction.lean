import Snowcone.Sending.SendCorrectness

/-! Secret contents of arguments do not reach the histories: `send` records a mark for them and
looks for the targets of a message behind it.
-/

namespace Snowcone.Sending

open Bytes

variable {Num : Type} (numeral : Num → Bytes)

/-- Two arguments that differ at most in a content that is secret. -/
inductive DifferInSecret : Argument Num → Argument Num → Prop
  | same (arg : Argument Num) : DifferInSecret arg arg
  | secret (content content' : Value Num)
    : DifferInSecret (.table content true) (.table content' true)

/-- Two clients that differ at most in what was handed over to the connection. -/
structure SameLogs (client client' : Client) : Prop where
  uptime : client.uptime = client'.uptime
  date : client.date = client'.date
  statusmsg : client.ircState.map (·.statusmsg) = client'.ircState.map (·.statusmsg)
  messages : client.messages = client'.messages
  buffers : client.buffers = client'.buffers

/-- A client has its own logs. -/
theorem SameLogs.refl (client : Client) : SameLogs client client := ⟨rfl, rfl, rfl, rfl, rfl⟩

/-- What is recorded of the arguments is the same. -/
theorem shown_eq {args args' : List (Argument Num)} (alike : List.Forall₂ DifferInSecret args args')
    : args.map (Argument.shown numeral) = args'.map (Argument.shown numeral) := by
  induction alike with
  | nil => rfl
  | cons first others ih =>
      rw [List.map_cons, List.map_cons, ih]
      cases first with
      | same arg => rfl
      | secret content content' => rfl

/-- The message that `send` records, for the texts that it shows. -/
def sentMsg (client : Client) (cmd : Bytes) (shown : List Bytes) : SentMsg where
  tags := []
  command := cmd
  source := lit ">>>"
  timestamp := client.uptime
  time := client.date
  args := shown
  statusmsg := none

/-- What `send` does once the line is made. -/
def recordSent (client : Client) (irc : IrcState) (raw cmd : Bytes) (shown : List Bytes)
    : Client × Ended :=
  let logged := { client with
    ircState := some (irc.rawsend raw)
    messages := client.messages.insert (some true) (sentMsg client cmd shown) }
  if cmd = lit "PRIVMSG" ∨ cmd = lit "NOTICE" then
    match shown with
    | [] => (logged, .raises "attempt to index a nil value (field '?')")
    | first :: _ =>
        let (buffers, ended) :=
          record irc.statusmsg (sentMsg client cmd shown) (targets first) client.buffers
        ({ logged with buffers }, ended)
  else (logged, .returns)

/-- What is not refused is recorded by what is shown of it. -/
theorem send_eq_recordSent {client : Client} {irc : IrcState}
    (connected : client.ircState = some irc) {cmd : Bytes} {args : List (Argument Num)}
    (accepted : ¬ Refused cmd (textsOf numeral args))
    : send numeral client cmd args
      = recordSent client irc (lineOf cmd (textsOf numeral args)) cmd
          (args.map (Argument.shown numeral)) := by
  have counted : 1 + (textsOf numeral args).length = args.length + 1 := by
    rw [textsOf, List.length_map]
    omega
  simp only [Refused, not_or] at accepted
  have parts := (partsFrom_eq args.length 1 (textsOf numeral args) counted).2 accepted.1
  have short : ¬ (concat (cmd :: wireParts (args.map (Argument.part numeral)))
      ++ [chr '\r', chr '\n']).length > 512 := accepted.2
  simp only [textsOf] at parts
  simp only [send, connected, parts, short, if_false]
  rfl

/-- The histories depend on what is shown alone. -/
theorem recordSent_sameLogs {client client' : Client} (same : SameLogs client client')
    {irc irc' : IrcState} (sameStatus : irc.statusmsg = irc'.statusmsg) (raw raw' cmd : Bytes)
    (shown : List Bytes)
    : SameLogs (recordSent client irc raw cmd shown).1 (recordSent client' irc' raw' cmd shown).1
      ∧ (recordSent client irc raw cmd shown).2 = (recordSent client' irc' raw' cmd shown).2 := by
  obtain ⟨uptime, date, ircState, messages, buffers⟩ := client
  obtain ⟨rfl, rfl, _, rfl, rfl⟩ := same
  obtain ⟨statusmsg, sent⟩ := irc
  cases sameStatus
  simp only [recordSent, IrcState.rawsend, sentMsg]
  split
  · cases shown with
    | nil => exact ⟨⟨rfl, rfl, rfl, rfl, rfl⟩, rfl⟩
    | cons first others => exact ⟨⟨rfl, rfl, rfl, rfl, rfl⟩, rfl⟩
  · exact ⟨⟨rfl, rfl, rfl, rfl, rfl⟩, rfl⟩

/-- Two messages that differ in secrets alone leave the same logs, if neither is refused. -/
theorem send_sameLogs {client client' : Client} (same : SameLogs client client')
    {irc : IrcState} (connected : client.ircState = some irc) {cmd : Bytes}
    {args args' : List (Argument Num)} (alike : List.Forall₂ DifferInSecret args args')
    (accepted : ¬ Refused cmd (textsOf numeral args))
    (accepted' : ¬ Refused cmd (textsOf numeral args'))
    : SameLogs (send numeral client cmd args).1 (send numeral client' cmd args').1
      ∧ (send numeral client cmd args).2 = (send numeral client' cmd args').2 := by
  have sameStatus := same.statusmsg
  rw [connected] at sameStatus
  obtain ⟨irc', connected', status⟩ := Option.map_eq_some_iff.mp sameStatus.symm
  rw [send_eq_recordSent numeral connected accepted,
    send_eq_recordSent numeral connected' accepted', shown_eq numeral alike]
  exact recordSent_sameLogs same status.symm _ _ cmd _

/-- A message that is sent needs a connection, and is not refused. -/
theorem accepted_of_returns {client : Client} {cmd : Bytes} {args : List (Argument Num)}
    (returns : (send numeral client cmd args).2 = .returns)
    : ∃ irc, client.ircState = some irc ∧ ¬ Refused cmd (textsOf numeral args) := by
  cases connected : client.ircState with
  | none =>
      simp only [send, connected] at returns
      cases returns
  | some irc =>
      refine ⟨irc, rfl, fun refused => ?_⟩
      obtain ⟨text, raises⟩ := send_of_refused numeral connected refused
      rw [raises] at returns
      cases returns

end Snowcone.Sending
