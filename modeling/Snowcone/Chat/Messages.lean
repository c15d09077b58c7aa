import Snowcone.Chat.Sends

/-! The handlers of chat messages, and when they do not end. -/

namespace Snowcone.Chat

open Bytes Action LuaPattern
open Sending (Argument TokenValue irccase)

variable {Num : Type}

/-- `Irc:is_channel_name(name)`. -/
def isChannelName (name : Bytes) : Act Num Bool := do
  match (← get).chantypes with
  | .flag => throw (.raises "bad argument #1 to 'find' (string expected, got boolean)")
  | .text chantypes => pure (decide (name.take 1 <:+: chantypes) && decide (name.take 1 ≠ []))

/-- The loop over the mention patterns. -/
def mentioned (env : Environment Num) (text : Option Bytes) : List Bytes → Act Num Bool
  | [] => pure false
  | pattern :: rest =>
      match text with
      | none => throw (.raises "attempt to index a nil value (local 'text')")
      | some subject =>
          match env.find subject pattern with
          | .error message => throw (.raises message)
          | .ok true => pure true
          | .ok false => mentioned env text rest

/-- `route_chat_to_buffer(target, text, irc)`; the notification is left out. -/
def routeChatToBuffer (env : Environment Num) (target : Bytes) (text : Option Bytes)
    (irc : Received)
    : Act Num Unit := do
  if ← isChannelName target then
    let mention ← mentioned env text env.mentionPatterns
    addToBuffer env target irc mention true
  else
    let client ← get
    if irc.nick.isSome ∧ irc.nick = client.nick then addToBuffer env target irc false true
    else if some target = client.nick then
      match irc.nick with
      | some nick => addToBuffer env nick irc true true
      | none => pure ()
    else pure ()

/-- The pattern `^\x01([^\x01 ]+) ?([^\x01]*)\x01?$` of a CTCP message. -/
def ctcpPattern : List (Item Byte) :=
  [
    .single (· == 1) .once, .openCapture,
    .single (fun c => c != 1 && c != chr ' ') .plus, .closeCapture,
    .single (· == chr ' ') .optional, .openCapture, .single (· != 1) .many, .closeCapture,
    .single (· == 1) .optional, .endOfSubject
  ]

/-- `string.upper` in the C locale. -/
def upper (text : Bytes) : Bytes :=
  text.map fun c => if 0x61 ≤ c ∧ c ≤ 0x7a then c - 0x20 else c

/-- The response of the handler for a CTCP command. -/
def ctcpResponse (env : Environment Num) (ctcp args : Bytes) : Option Bytes :=
  if ctcp = lit "CLIENTINFO" then some (lit "CLIENTINFO PING SOURCE TIME VERSION")
  else if ctcp = lit "PING" then some args
  else if ctcp = lit "SOURCE" then some (lit "https://github.com/glguy/snowcone")
  else if ctcp = lit "TIME" then some env.now
  else if ctcp = lit "VERSION" then some (lit "snowcone " ++ env.version)
  else none

/-- The text that answers a CTCP request for the client from staff. -/
def ctcpAnswer (env : Environment Num) (client : Client Num) (irc : Received)
    (target message : Bytes)
    : Option Bytes :=
  match stringMatch ctcpPattern message with
  | some [ctcp, args] =>
      if some target = client.nick ∧ irc.fromOper = true then
        (ctcpResponse env (upper ctcp) args).map fun response =>
          [1] ++ upper ctcp ++ lit " " ++ response ++ [1]
      else none
  | _ => none

/-- The arguments of the answer. Without a nick the list of arguments is empty. -/
def answerArgs (nick : Option Bytes) (answer : Bytes) : List (Argument Num) :=
  match nick with
  | some nick => [.plain (.string nick), .plain (.string answer)]
  | none => []

/-- The answer to a CTCP request, if there is one. -/
def answerCtcp (env : Environment Num) (client : Client Num) (irc : Received)
    (target message : Bytes)
    : Act Num Unit :=
  match ctcpAnswer env client irc target message with
  | some answer => send env (lit "NOTICE") (answerArgs irc.nick answer)
  | none => pure ()

/-- `M.PRIVMSG`. -/
def privmsg (env : Environment Num) (irc : Received) : Act Num Unit := do
  match irc.args with
  | [] => throw (.raises "attempt to index a nil value (local 'target')")
  | first :: rest =>
      let (statusmsg, target) ← splitStatusmsg first
      match rest with
      | [] => throw (.raises "attempt to index a nil value (local 'message')")
      | message :: _ =>
          let client ← get
          let irc := { irc with statusmsg }
          answerCtcp env client irc target message
          routeChatToBuffer env target (some message) irc

/-- `M.NOTICE`. -/
def notice (env : Environment Num) (irc : Received) : Act Num Unit := do
  match irc.args with
  | [] => throw (.raises "attempt to index a nil value (local 'target')")
  | first :: rest =>
      let (statusmsg, target) ← splitStatusmsg first
      routeChatToBuffer env target rest.head? { irc with statusmsg }

-----------------------------------------------------------------------------------------
-- When a handler does not end
-----------------------------------------------------------------------------------------

variable {env : Environment Num} {client : Client Num}

/-- An action that never hangs. -/
def Halts {α : Type} (action : Act Num α) : Prop := ∀ client, ¬ Hangs action client

/-- A sequence halts if its parts do. -/
theorem Halts.bind {α β : Type} {action : Act Num α} {next : α → Act Num β}
    (first : Halts action) (second : ∀ value, Halts (next value))
    : Halts (action >>= next) := by
  intro client hangs
  rcases hangs_bind_iff.mp hangs with hangs | ⟨value, between, _, hangs⟩
  · exact first client hangs
  · exact second value between hangs

/-- A value, a change of the client, and an error halt. -/
theorem halts_pure {α : Type} (value : α) : Halts (pure value : Act Num α) :=
  fun _ => not_hangs_of_ok rfl

theorem halts_get : Halts (get : Act Num (Client Num)) := fun _ => not_hangs_of_ok get_eq

theorem halts_modify (change : Client Num → Client Num) : Halts (modify change : Act Num Unit) :=
  fun _ => not_hangs_of_ok rfl

theorem halts_raises {α : Type} (text : String) : Halts (throw (.raises text) : Act Num α) :=
  fun _ => not_hangs_of_raises rfl

/-- Every command halts that is not one of chat messages. -/
theorem halts_send_of_other {cmd : Bytes}
    (notChat : ¬ (cmd = lit "PRIVMSG" ∨ cmd = lit "NOTICE")) (args : List (Argument Num))
    : Halts (send env cmd args) :=
  fun _ hangs => notChat (hangs_send_iff.mp hangs).isChat

/-- A message is put into a buffer, or the request for the history of the buffer raises. -/
theorem halts_addToBuffer (name : Bytes) (irc : Received) (mention activity : Bool)
    : Halts (addToBuffer env name irc mention activity) := by
  refine Halts.bind (halts_get.bind fun client => ?_) fun _ => halts_modify _
  cases client.buffers (irccase name) with
  | some buffer => exact halts_modify _
  | none =>
      refine Halts.bind (halts_modify _) fun _ => ?_
      cases client.hasChathistory with
      | true => exact halts_send_of_other (by decide) _
      | false => exact halts_pure _

/-- The loop over the mention patterns halts, by induction on them. -/
theorem halts_mentioned (text : Option Bytes) (patterns : List Bytes)
    : Halts (mentioned env text patterns) := by
  induction patterns with
  | nil => exact halts_pure false
  | cons pattern rest ih =>
      cases text with
      | none => exact halts_raises _
      | some subject =>
          cases finds : env.find subject pattern with
          | error message =>
              simp only [mentioned, finds]
              exact halts_raises _
          | ok found =>
              cases found with
              | true =>
                  simp only [mentioned, finds]
                  exact halts_pure true
              | false =>
                  simp only [mentioned, finds]
                  exact ih

/-- The routing of a chat message halts. -/
theorem halts_routeChatToBuffer (target : Bytes) (text : Option Bytes) (irc : Received)
    : Halts (routeChatToBuffer env target text irc) := by
  refine Halts.bind ?_ fun isChannel => ?_
  · refine halts_get.bind fun client => ?_
    split
    · exact halts_raises _
    · exact halts_pure _
  · split
    · exact (halts_mentioned _ _).bind fun _ => halts_addToBuffer _ _ _ _
    · refine halts_get.bind fun client => ?_
      split
      · exact halts_addToBuffer _ _ _ _
      · split
        · split
          · exact halts_addToBuffer _ _ _ _
          · exact halts_pure _
        · exact halts_pure _

/-- `M.NOTICE` does not end for a target of status characters alone. -/
theorem hangs_notice_iff (irc : Received)
    : Hangs (notice env irc) client ↔ ∃ first ∈ irc.args.head?, Bare client.statusmsg first := by
  unfold notice
  cases irc.args with
  | nil => exact iff_of_false (halts_raises _ client) (by simp)
  | cons first rest =>
      simp only [List.head?_cons, Option.mem_some_iff, exists_eq_left']
      rw [hangs_bind_iff, hangs_splitStatusmsg_iff]
      refine or_iff_left ?_
      rintro ⟨_, between, _, hangs⟩
      exact halts_routeChatToBuffer _ _ _ between hangs

/-- The answer to a CTCP request goes to a nick of status characters alone. -/
def AnswersBare (env : Environment Num) (client : Client Num) (irc : Received) : Prop :=
  ∃ first message rest chars split answer,
    irc.args = first :: message :: rest
    ∧ client.statusmsg = .text chars
    ∧ Sending.splitStatusmsg chars first = some split
    ∧ ctcpAnswer env client irc split.2 message = some answer
    ∧ SendsToBare env client (lit "NOTICE") (answerArgs irc.nick answer)

/-- An answer does not end for a nick of status characters alone. -/
theorem hangs_answerCtcp_iff (irc : Received) (target message : Bytes)
    : Hangs (answerCtcp env client irc target message) client
      ↔ ∃ answer, ctcpAnswer env client irc target message = some answer
        ∧ SendsToBare env client (lit "NOTICE") (answerArgs irc.nick answer) := by
  unfold answerCtcp
  cases ctcpAnswer env client irc target message with
  | none => exact iff_of_false (halts_pure _ client) (by simp)
  | some answer =>
      simp only [Option.some.injEq, exists_eq_left']
      exact hangs_send_iff

/-- `M.PRIVMSG` does not end for a target of status characters alone, and for an answer to a
nick of them.
-/
theorem hangs_privmsg_iff (irc : Received)
    : Hangs (privmsg env irc) client
      ↔ (∃ first ∈ irc.args.head?, Bare client.statusmsg first)
        ∨ AnswersBare env client irc := by
  unfold privmsg AnswersBare
  cases isArgs : irc.args with
  | nil => exact iff_of_false (halts_raises _ client) (by simp)
  | cons first rest =>
      simp only [List.head?_cons, Option.mem_some_iff, exists_eq_left']
      rw [hangs_bind_iff, hangs_splitStatusmsg_iff]
      by_cases bare : Bare client.statusmsg first
      · exact iff_of_true (Or.inl bare) (Or.inl bare)
      · refine or_congr_right ?_
        cases isText : client.statusmsg with
        | flag =>
            rw [splitStatusmsg_of_flag isText]
            simp
        | text chars =>
            obtain ⟨split, splits, returns⟩ := splitStatusmsg_of_not_bare isText bare
            rw [returns]
            cases rest with
            | nil =>
                refine iff_of_false ?_ (by simp)
                rintro ⟨_, between, _, hangs⟩
                exact halts_raises _ between hangs
            | cons message rest =>
                constructor
                · rintro ⟨_, _, ⟨⟩, hangs⟩
                  rcases hangs_bind_iff.mp hangs with stops | ⟨_, _, ⟨⟩, hangs⟩
                  · exact absurd stops (halts_get client)
                  · rcases hangs_bind_iff.mp hangs with hangs | ⟨_, between, _, hangs⟩
                    · obtain ⟨answer, isAnswer, sends⟩ := (hangs_answerCtcp_iff _ _ _).mp hangs
                      exact ⟨first, message, rest, chars, split, answer, rfl, rfl, splits,
                        isAnswer, sends⟩
                    · exact absurd hangs (halts_routeChatToBuffer _ _ _ between)
                · rintro ⟨_, _, _, _, _, answer, ⟨⟩, ⟨⟩, isSplit, isAnswer, sends⟩
                  obtain rfl := Option.some.inj (splits.symm.trans isSplit)
                  refine ⟨_, client, rfl, hangs_bind_iff.mpr (Or.inr ⟨client, client, get_eq, ?_⟩)⟩
                  exact hangs_bind_iff.mpr (Or.inl
                    ((hangs_answerCtcp_iff _ _ _).mpr ⟨answer, isAnswer, sends⟩))

/-- What ends, and when: a call of `split_statusmsg` returns the leading run of status
characters and the rest for a target with another character, as long as `statusmsg` is a
string; the handlers and `send` end unless they come to a target of status characters alone.
-/
theorem chat_ends_iff (env : Environment Num) (client : Client Num)
    : (∀ target, (∃ chars result, client.statusmsg = .text chars
          ∧ Sending.SplitReturns client.statusmsg target result
          ∧ Sending.LeadingRun chars target result)
        ↔ ∃ chars, client.statusmsg = .text chars ∧ ∃ c ∈ target, c ∉ chars)
      ∧ (∀ irc, ¬ Hangs (privmsg env irc) client
        ↔ (∀ first ∈ irc.args.head?, ¬ Bare client.statusmsg first)
          ∧ ¬ AnswersBare env client irc)
      ∧ (∀ irc, ¬ Hangs (notice env irc) client
        ↔ ∀ first ∈ irc.args.head?, ¬ Bare client.statusmsg first)
      ∧ ∀ cmd args, ¬ Hangs (send env cmd args) client ↔ ¬ SendsToBare env client cmd args := by
  refine ⟨Sending.split_returns_iff client.statusmsg, fun irc => ?_, fun irc => ?_,
    fun cmd args => not_congr hangs_send_iff⟩
  · rw [hangs_privmsg_iff, not_or]
    simp only [not_exists, not_and]
  · rw [hangs_notice_iff]
    simp only [not_exists, not_and]

/-- Surroundings without mention patterns. -/
def plainEnvironment : Environment Nat :=
  {
    numeral := fun n => lit (toString n)
    ofNat := id
    exceeds := fun n bound => decide (bound < n)
    find := fun _ _ => .ok false
    mentionPatterns := []
    uptime := 0
    date := lit "00:00:00"
    now := []
    version := []
  }

/-- A client that has been welcomed. -/
def welcomedClient : Client Nat :=
  {
    irc := .new (lit "me")
    hasNick := true
    statusmsg := .text (lit "@+")
    chantypes := .text (lit "&#")
    hasChathistory := false
    maxChatHistory := none
    sent := []
    messages := .new 1000 none none
    buffers := fun _ => none
    talkTarget := none
  }

/-- A message to the operators of nothing. -/
def bareMessage : Received :=
  {
    nick := some (lit "al")
    args := [lit "@", lit "hi"]
    timeTag := none
    fromOper := false
    statusmsg := none
  }

/-- The target of `bareMessage` is never split, and the handlers never end. -/
theorem bareMessage_hangs
    : (¬ ∃ chars result, welcomedClient.statusmsg = .text chars
        ∧ Sending.SplitReturns welcomedClient.statusmsg (lit "@") result
        ∧ Sending.LeadingRun chars (lit "@") result)
      ∧ Hangs (privmsg plainEnvironment bareMessage) welcomedClient
      ∧ Hangs (notice plainEnvironment bareMessage) welcomedClient := by
  have bare : ∃ first ∈ bareMessage.args.head?, Bare welcomedClient.statusmsg first :=
    ⟨lit "@", rfl, lit "@+", rfl, by decide +kernel⟩
  refine ⟨?_, (hangs_privmsg_iff _).mpr (Or.inl bare), (hangs_notice_iff _).mpr bare⟩
  rw [Sending.split_returns_iff]
  rintro ⟨_, ⟨⟩, c, isIn, isNone⟩
  obtain rfl : c = chr '@' := List.mem_singleton.mp isIn
  exact isNone (by decide)

end Snowcone.Chat
