import Snowcone.Chat.Client
import Snowcone.Sending.SendCorrectness
import Snowcone.Sending.SplitStatusmsg

/-! What `send` does to the client, and when it does not end. -/

namespace Snowcone.Chat

open Bytes Action
open Sending (Argument SentMsg TokenValue Ended Refused BadTexts partsFrom_eq lineOf textsOf
  wireParts concat irccase targets)

variable {Num : Type} {env : Environment Num} {client : Client Num}

/-- An action does not end. -/
def Hangs {α : Type} (action : Act Num α) (client : Client Num) : Prop :=
  ∃ after, action client = .error .hangs after

/-- A sequence does not end where one of its parts does not. -/
theorem hangs_bind_iff {α β : Type} {action : Act Num α} {next : α → Act Num β}
    : Hangs (action >>= next) client
      ↔ Hangs action client
        ∨ ∃ value between, action client = .ok value between ∧ Hangs (next value) between := by
  simp only [Hangs, bind_error_iff]
  constructor
  · rintro ⟨after, stops | ⟨value, between, ends, stops⟩⟩
    · exact Or.inl ⟨after, stops⟩
    · exact Or.inr ⟨value, between, ends, after, stops⟩
  · rintro (⟨after, stops⟩ | ⟨value, between, ends, after, stops⟩)
    · exact ⟨after, Or.inl stops⟩
    · exact ⟨after, Or.inr ⟨value, between, ends, stops⟩⟩

/-- An action that ends does not hang. -/
theorem not_hangs_of_ok {α : Type} {action : Act Num α} {value : α} {after : Client Num}
    (ends : action client = .ok value after)
    : ¬ Hangs action client := by
  rintro ⟨_, stops⟩
  rw [ends] at stops
  cases stops

/-- An action that raises does not hang. -/
theorem not_hangs_of_raises {α : Type} {action : Act Num α} {text : String}
    {after : Client Num} (raises : action client = .error (.raises text) after)
    : ¬ Hangs action client := by
  rintro ⟨_, stops⟩
  rw [raises] at stops
  cases stops

/-- A target of status characters alone. -/
def Bare (statusmsg : TokenValue) (target : Bytes) : Prop :=
  ∃ chars, statusmsg = .text chars ∧ ∀ c ∈ target, c ∈ chars

/-- The state of the client is read. -/
theorem get_eq : (get : Act Num (Client Num)) client = .ok client client := rfl

/-- A `statusmsg` that is no string raises. -/
theorem splitStatusmsg_of_flag (isFlag : client.statusmsg = .flag) (target : Bytes)
    : splitStatusmsg target client
      = .error (.raises "attempt to index a boolean value (field 'statusmsg')") client := by
  rw [splitStatusmsg, bind_of_ok get_eq, isFlag]
  rfl

/-- The loop for status characters alone has no result. -/
theorem splitStatusmsg_eq_none {chars target : Bytes} (allStatus : ∀ c ∈ target, c ∈ chars)
    : Sending.splitStatusmsg chars target = none := by
  refine Option.not_isSome_iff_eq_none.mp fun isSome => ?_
  obtain ⟨c, member, other⟩ := (Sending.splitStatusmsg_isSome_iff chars target).mp isSome
  exact other (allStatus c member)

/-- Status characters alone are never split. -/
theorem splitStatusmsg_of_bare {target : Bytes} (bare : Bare client.statusmsg target)
    : splitStatusmsg target client = .error .hangs client := by
  obtain ⟨chars, isText, allStatus⟩ := bare
  rw [splitStatusmsg, bind_of_ok get_eq, isText]
  simp only [splitStatusmsg_eq_none allStatus]
  rfl

/-- Every other target is split, and the client stays as it is. -/
theorem splitStatusmsg_of_not_bare {target chars : Bytes} (isText : client.statusmsg = .text chars)
    (notBare : ¬ Bare client.statusmsg target)
    : ∃ split, Sending.splitStatusmsg chars target = some split
        ∧ splitStatusmsg target client
          = .ok (if split.1 = [] then none else some split.1, split.2) client := by
  have other : ∃ c ∈ target, c ∉ chars := by
    by_contra allStatus
    push Not at allStatus
    exact notBare ⟨chars, isText, allStatus⟩
  obtain ⟨split, splits⟩ :=
    Option.isSome_iff_exists.mp ((Sending.splitStatusmsg_isSome_iff chars target).mpr other)
  refine ⟨split, splits, ?_⟩
  rw [splitStatusmsg, bind_of_ok get_eq, isText]
  simp only [splits]
  rfl

/-- `split_statusmsg` does not end for status characters alone. -/
theorem hangs_splitStatusmsg_iff (target : Bytes)
    : Hangs (splitStatusmsg target) client ↔ Bare client.statusmsg target := by
  by_cases bare : Bare client.statusmsg target
  · exact iff_of_true ⟨_, splitStatusmsg_of_bare bare⟩ bare
  · refine iff_of_false ?_ bare
    cases isText : client.statusmsg with
    | flag => exact not_hangs_of_raises (splitStatusmsg_of_flag isText target)
    | text chars =>
        obtain ⟨_, _, returns⟩ := splitStatusmsg_of_not_bare isText bare
        exact not_hangs_of_ok returns

/-- No target is bare for a `statusmsg` that is no string. -/
theorem not_bare_of_flag (target : Bytes) : ¬ Bare .flag target := by
  rintro ⟨_, ⟨⟩, _⟩

/-- One message to the buffer of one target: it hangs, raises, or changes the buffers. -/
theorem echo_cases (client : Client Num) (msg : SentMsg) (x : Bytes)
    : (Bare client.statusmsg x ∧ Hangs (echo msg x) client)
      ∨ (client.statusmsg = .flag ∧ ∃ text, echo msg x client = .error (.raises text) client)
      ∨ ¬ Bare client.statusmsg x
        ∧ ∃ buffers, echo msg x client = .ok () { client with buffers } := by
  cases isText : client.statusmsg with
  | flag =>
      exact Or.inr (Or.inl ⟨rfl, _, bind_of_error (splitStatusmsg_of_flag isText x)⟩)
  | text chars =>
      rw [← isText]
      by_cases bare : Bare client.statusmsg x
      · exact Or.inl ⟨bare, _, bind_of_error (splitStatusmsg_of_bare bare)⟩
      · obtain ⟨split, _, returns⟩ := splitStatusmsg_of_not_bare isText bare
        exact Or.inr (Or.inr ⟨bare, _, bind_of_ok returns⟩)

/-- The loop over the targets does not end if it comes to one of status characters alone, by
induction on the targets.
-/
theorem hangs_echo_iff (client : Client Num) (msg : SentMsg) (names : List Bytes)
    : Hangs (names.forM (echo msg)) client ↔ ∃ x ∈ names, Bare client.statusmsg x := by
  induction names generalizing client with
  | nil =>
      refine iff_of_false ?_ (by simp)
      rintro ⟨_, ⟨⟩⟩
  | cons x names ih =>
      change Hangs (echo msg x >>= fun _ => names.forM (echo msg)) client ↔ _
      rw [hangs_bind_iff, List.exists_mem_cons_iff]
      rcases echo_cases client msg x with
        ⟨bare, hangs⟩ | ⟨isFlag, text, raises⟩ | ⟨notBare, buffers, returns⟩
      · exact iff_of_true (Or.inl hangs) (Or.inl bare)
      · refine iff_of_false ?_ ?_
        · rintro (hangs | ⟨_, _, ends, _⟩)
          · exact not_hangs_of_raises raises hangs
          · rw [raises] at ends
            cases ends
        · rw [isFlag]
          rintro (bare | ⟨_, _, bare⟩)
          · exact not_bare_of_flag x bare
          · exact not_bare_of_flag _ bare
      · simp only [not_hangs_of_ok returns, notBare, false_or, returns]
        constructor
        · rintro ⟨_, _, ⟨⟩, hangs⟩
          exact (ih { client with buffers }).mp hangs
        · intro bare
          exact ⟨_, _, rfl, (ih { client with buffers }).mpr bare⟩

-----------------------------------------------------------------------------------------
-- Sending
-----------------------------------------------------------------------------------------

/-- A chat message goes to the buffers of its targets. -/
theorem echoes_of_chat {cmd : Bytes} (isChat : cmd = lit "PRIVMSG" ∨ cmd = lit "NOTICE")
    (args : List (Argument Num))
    : echoes (sentMsg env cmd args)
      = match args.map (Argument.shown env.numeral) with
        | [] => (throw (.raises "attempt to index a nil value (field '?')") : Act Num Unit)
        | first :: _ => (targets first).forM (echo (sentMsg env cmd args)) :=
  if_pos isChat

/-- Other messages go nowhere. -/
theorem echoes_of_other {cmd : Bytes} (notChat : ¬ (cmd = lit "PRIVMSG" ∨ cmd = lit "NOTICE"))
    (args : List (Argument Num))
    : echoes (sentMsg env cmd args) = (pure () : Act Num Unit) :=
  if_neg notChat

/-- What must not be sent raises, and nothing changes. -/
theorem send_of_refused {cmd : Bytes} {args : List (Argument Num)}
    (refused : Refused cmd (textsOf env.numeral args))
    : ∃ text, send env cmd args client = .error (.raises text) client := by
  have counted : 1 + (textsOf env.numeral args).length = args.length + 1 := by
    rw [textsOf, List.length_map]
    omega
  have checks := partsFrom_eq args.length 1 (textsOf env.numeral args) counted
  by_cases bad : BadTexts (textsOf env.numeral args)
  · obtain ⟨text, fails⟩ := checks.1 bad
    rw [textsOf] at fails
    refine ⟨text, ?_⟩
    rw [send, fails]
    rfl
  · have long : 512 < (lineOf cmd (textsOf env.numeral args)).length := refused.resolve_left bad
    have parts := checks.2 bad
    rw [textsOf] at parts long
    rw [send, parts]
    exact ⟨_, congrFun (if_pos long) client⟩

/-- Everything else goes out, and a chat message then goes to the buffers of its targets. -/
theorem send_of_accepted {cmd : Bytes} {args : List (Argument Num)}
    (accepted : ¬ Refused cmd (textsOf env.numeral args))
    : send env cmd args client
      = echoes (sentMsg env cmd args)
        (client.handOver (lineOf cmd (textsOf env.numeral args)) (sentMsg env cmd args)) := by
  have counted : 1 + (textsOf env.numeral args).length = args.length + 1 := by
    rw [textsOf, List.length_map]
    omega
  have parts := (partsFrom_eq args.length 1 (textsOf env.numeral args) counted).2
    fun bad => accepted (Or.inl bad)
  have short : ¬ 512 < (lineOf cmd (textsOf env.numeral args)).length :=
    fun long => accepted (Or.inr long)
  rw [textsOf] at parts short
  rw [send, parts]
  exact congrFun (if_neg short) client

/-- Other commands than those of chat messages go out. -/
theorem send_of_other {cmd : Bytes} {args : List (Argument Num)}
    (notChat : ¬ (cmd = lit "PRIVMSG" ∨ cmd = lit "NOTICE"))
    (accepted : ¬ Refused cmd (textsOf env.numeral args))
    : send env cmd args client
      = .ok ()
        (client.handOver (lineOf cmd (textsOf env.numeral args)) (sentMsg env cmd args)) := by
  rw [send_of_accepted accepted, echoes_of_other notChat]
  rfl

/-- A message that is sent to a target of status characters alone. -/
structure SendsToBare (env : Environment Num) (client : Client Num) (cmd : Bytes)
    (args : List (Argument Num))
    : Prop where
  isChat : cmd = lit "PRIVMSG" ∨ cmd = lit "NOTICE"
  accepted : ¬ Refused cmd (textsOf env.numeral args)
  toBare : ∃ first ∈ args.head?, ∃ x ∈ targets (first.shown env.numeral),
    Bare client.statusmsg x

/-- `send` does not end for a chat message to a target of status characters alone. -/
theorem hangs_send_iff {cmd : Bytes} {args : List (Argument Num)}
    : Hangs (send env cmd args) client ↔ SendsToBare env client cmd args := by
  by_cases refused : Refused cmd (textsOf env.numeral args)
  · obtain ⟨text, raises⟩ := @send_of_refused _ env client _ _ refused
    exact iff_of_false (not_hangs_of_raises raises) fun sends => sends.accepted refused
  · by_cases isChat : cmd = lit "PRIVMSG" ∨ cmd = lit "NOTICE"
    · have routed : Hangs (send env cmd args) client
          ↔ Hangs (echoes (sentMsg env cmd args)) (client.handOver
              (lineOf cmd (textsOf env.numeral args)) (sentMsg env cmd args)) := by
        rw [Hangs, send_of_accepted refused, Hangs]
      rw [routed, echoes_of_chat isChat]
      cases args with
      | nil =>
          refine iff_of_false ?_ ?_
          · rintro ⟨_, ⟨⟩⟩
          · rintro ⟨_, _, _, ⟨⟩, _⟩
      | cons first rest =>
          simp only [List.map_cons]
          rw [hangs_echo_iff]
          constructor
          · exact fun toBare => ⟨isChat, refused, first, rfl, toBare⟩
          · rintro ⟨_, _, _, ⟨⟩, toBare⟩
            exact toBare
    · have returns : send env cmd args client = _ := send_of_other isChat refused
      exact iff_of_false (not_hangs_of_ok returns) fun sends => isChat sends.isChat

-----------------------------------------------------------------------------------------
-- The model of `send` without received messages
-----------------------------------------------------------------------------------------

/-- How a call ends. -/
def ended : EStateM.Result Stop (Client Num) Unit → Ended
  | .ok _ _ => .returns
  | .error (.raises text) _ => .raises text
  | .error .hangs _ => .hangs

/-- The loops over the targets end in the same way, by induction on the targets. -/
theorem ended_echo (client : Client Num) (msg : SentMsg) (other : SentMsg) (names : List Bytes)
    (buffers : Sending.Buffers)
    : ended (names.forM (echo msg) client)
      = (Sending.record client.statusmsg other names buffers).2 := by
  induction names generalizing client buffers with
  | nil => rfl
  | cons x names ih =>
      have loop : ∀ {stop after}, echo msg x client = .error stop after →
          (x :: names).forM (echo msg) client = .error stop after := bind_of_error
      cases isText : client.statusmsg with
      | flag =>
          rw [loop (bind_of_error (splitStatusmsg_of_flag isText x))]
          rfl
      | text chars =>
          by_cases bare : Bare client.statusmsg x
          · rw [loop (bind_of_error (splitStatusmsg_of_bare bare))]
            obtain ⟨_, isOther, allStatus⟩ := bare
            obtain rfl := TokenValue.text.inj (isText.symm.trans isOther)
            simp only [Sending.record, splitStatusmsg_eq_none allStatus]
            rfl
          · obtain ⟨split, splits, returns⟩ := splitStatusmsg_of_not_bare isText bare
            have goesOn : (x :: names).forM (echo msg) client = names.forM (echo msg) _ :=
              bind_of_ok (bind_of_ok returns)
            simp only [goesOn, Sending.record, splits]
            rw [← isText]
            cases buffers (irccase split.2) with
            | none => exact ih _ buffers
            | some buffer => exact ih _ _

/-- `send` ends as in the model whose histories hold sent messages only. -/
theorem ended_send (client : Client Num) (cmd : Bytes) (args : List (Argument Num))
    (sender : Sending.Client) {irc : Sending.IrcState} (connected : sender.ircState = some irc)
    (same : irc.statusmsg = client.statusmsg)
    : ended (send env cmd args client) = (Sending.send env.numeral sender cmd args).2 := by
  simp only [send, Sending.send, connected]
  cases Sending.partsFrom args.length 1 (args.map (Argument.part env.numeral)) with
  | error text => rfl
  | ok parts =>
      simp only
      split
      · rfl
      · change ended (echoes (sentMsg env cmd args) _) = _
        by_cases isChat : cmd = lit "PRIVMSG" ∨ cmd = lit "NOTICE"
        · rw [echoes_of_chat isChat, if_pos isChat]
          cases args with
          | nil => rfl
          | cons first rest =>
              simp only [List.map_cons]
              rw [same]
              exact ended_echo _ _ _ _ sender.buffers
        · rw [echoes_of_other isChat, if_neg isChat]
          rfl

end Snowcone.Chat
