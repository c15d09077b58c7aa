import Snowcone.Base64.RoundTrip
import Snowcone.Registration.CapRequests
import Snowcone.Sasl.PlainLogs

/-! The challenge for operators: the server sends an encrypted message in parts, and the client
answers with a digest of what it decrypts.
-/

namespace Snowcone.Registration.Challenge

open Bytes Base64
open Chat (Client Environment send send_of_other plainEnvironment welcomedClient)
open Sending (Refused Decodes CommandWord Breaks lineOf lineOf_decodes badTexts_singleton)

/-- The numerics that the task tells apart. -/
inductive Command where
  | noOperHost
  | rsaChallenge2
  | endOfRsaChallenge2
  | youreOper
  | passwdMismatch
  | other
deriving DecidableEq

/-- A message of the server, by its command and its second parameter. -/
structure Message where
  command : Command
  arg2 : Option Bytes

/-- `commands1`. -/
def commands1 : List Command := [.noOperHost, .rsaChallenge2, .endOfRsaChallenge2, .youreOper]

/-- `commands2`. -/
def commands2 : List Command := [.youreOper, .passwdMismatch, .noOperHost]

/-- Where the task is: it collects the parts of the challenge, or waits for the verdict on its
response, or is over.
-/
inductive Phase where
  | collecting (chunks : List (Option Bytes))
  | answered (response : Bytes)
  | returned
  | failed

/-- The task with the client that it is part of and what it has reported. -/
structure Task (Num : Type) where
  client : Client Num
  statuses : List String
  phase : Phase

/-- What the task is given: the length that `#chunks` finds, the private key and the digest. -/
structure Tools where
  border : List (Option Bytes) → Nat
  decrypt : Bytes → Except Bytes Bytes
  sha1 : Bytes → Bytes

/-- Parts of which none is missing have the one length that there is. -/
def Tools.Lawful (tools : Tools) : Prop :=
  (∀ parts : List Bytes, tools.border (parts.map some) = parts.length)
  ∧ ∀ message, (tools.sha1 message).length = 20

section Task

variable {Num : Type} (env : Environment Num) (tools : Tools)

/-- `table.concat(chunks)`; a part that is missing raises. -/
def concatChunks (chunks : List (Option Bytes)) : Option Bytes :=
  ((chunks.take (tools.border chunks)).mapM id).map List.flatten

/-- From the parts of the challenge to the response. -/
def respond (chunks : List (Option Bytes)) : Option Bytes := do
  let input ← concatChunks tools chunks
  let envelope ← fromBase64 input
  let message ← (tools.decrypt envelope).toOption
  pure (toBase64 (tools.sha1 message))

namespace Task

/-- `status('challenge', ...)`, the last thing that the task does. -/
def report (task : Task Num) (text : String) : Task Num :=
  { task with statuses := task.statuses ++ [text], phase := .returned }

/-- What the task does behind its loop, up to where it waits. -/
def answer (task : Task Num) (chunks : List (Option Bytes)) : Task Num :=
  match respond tools chunks with
  | none => { task with phase := .failed }
  | some response =>
      match send env (lit "CHALLENGE") [.plain (.string (lit "+" ++ response))] task.client with
      | .ok () client => { task with client, phase := .answered response }
      | .error _ client => { task with client, phase := .failed }

/-- The body of the loop. -/
def collect (task : Task Num) (chunks : List (Option Bytes)) (irc : Message) : Task Num :=
  match irc.command with
  | .rsaChallenge2 => { task with phase := .collecting (chunks ++ [irc.arg2]) }
  | .endOfRsaChallenge2 => task.answer env tools chunks
  | .youreOper => task.report "already oper"
  | .noOperHost => task.report "host mismatch"
  | _ => task

/-- The verdict on the response. -/
def judge (task : Task Num) (irc : Message) : Task Num :=
  match irc.command with
  | .youreOper => task.report "oper up"
  | .passwdMismatch => task.report "key mismatch"
  | .noOperHost => task.report "host mismatch"
  | _ => task

/-- The task is resumed with a message if it waits for its command. -/
def receive (task : Task Num) (irc : Message) : Task Num :=
  match task.phase with
  | .collecting chunks =>
      if irc.command ∈ commands1 then task.collect env tools chunks irc else task
  | .answered _ => if irc.command ∈ commands2 then task.judge irc else task
  | _ => task

/-- A message comes in, and its handlers leave some client. -/
def step (task : Task Num) (event : Message × Client Num) : Task Num :=
  { task with client := event.2 }.receive env tools event.1

/-- The task from where it has its key, up to where it waits. -/
def start (user : Bytes) (client : Client Num) : Task Num :=
  match send env (lit "CHALLENGE") [.plain (.string user)] client with
  | .ok () client => { client, statuses := [], phase := .collecting [] }
  | .error _ client => { client, statuses := [], phase := .failed }

/-- The lines that the task sends in a run, beside those of the handlers. -/
def written (task : Task Num) : List (Message × Client Num) → List Bytes
  | [] => []
  | event :: events =>
      let next := task.step env tools event
      next.client.sent.drop event.2.sent.length ++ next.written events

end Task

end Task

-----------------------------------------------------------------------------------------
-- What is sent
-----------------------------------------------------------------------------------------

/-- The line of a response. -/
def responseLine (response : Bytes) : Bytes := lineOf (lit "CHALLENGE") [lit "+" ++ response]

/-- The parts of the challenge among some messages. -/
def partsOf {Num : Type} (events : List (Message × Client Num)) : List (Option Bytes) :=
  events.filterMap fun event => if event.1.command = .rsaChallenge2 then some event.1.arg2 else none

/-- Nothing ends the loop over the parts. -/
def Undecided {Num : Type} (events : List (Message × Client Num)) : Prop :=
  ∀ event ∈ events,
    event.1.command ≠ .endOfRsaChallenge2 ∧ event.1.command ≠ .youreOper
      ∧ event.1.command ≠ .noOperHost

/-- The server asks for a response: the end of the challenge comes before anything else ends the
loop, and the parts in front of it lead to the response.
-/
def Asks {Num : Type} (tools : Tools) (chunks : List (Option Bytes))
    (events : List (Message × Client Num)) (response : Bytes)
    : Prop :=
  ∃ before arg2 client after,
    events = before ++ (⟨.endOfRsaChallenge2, arg2⟩, client) :: after
    ∧ Undecided before
    ∧ respond tools (chunks ++ partsOf before) = some response

section Sent

variable {Num : Type} {env : Environment Num} {tools : Tools}

/-- A response is a digest in base64. -/
theorem respond_eq_some {chunks : List (Option Bytes)} {response : Bytes}
    (responds : respond tools chunks = some response)
    : ∃ message, response = toBase64 (tools.sha1 message) := by
  simp only [respond, Option.bind_eq_bind, Option.bind_eq_some_iff, Option.pure_def,
    Option.some.injEq] at responds
  obtain ⟨_, -, _, -, message, -, rfl⟩ := responds
  exact ⟨message, rfl⟩

/-- The text of a response can be sent. -/
theorem accepted_response (lawful : tools.Lawful) (message : Bytes)
    : ¬ Refused (lit "CHALLENGE") [lit "+" ++ toBase64 (tools.sha1 message)] := by
  have size : (toBase64 (tools.sha1 message)).length = 28 := by
    rw [toBase64, encode_length, encodedSize, lawful.2 message]
  rintro (bad | long)
  · obtain ⟨c, isIn, breaks⟩ := (badTexts_singleton _).mp bad
    rcases List.mem_append.mp isIn with isPlus | isIn
    · obtain rfl : c = chr '+' := List.mem_singleton.mp isPlus
      exact absurd breaks (by unfold Breaks; decide)
    · exact Sasl.not_breaks_of_mem_encode isIn breaks
  · obtain ⟨part, wire, fits⟩ :
        ∃ part, Sending.wireParts [lit "+" ++ toBase64 (tools.sha1 message)] = [part]
          ∧ part.length ≤ 30 := by
      refine ⟨_, rfl, ?_⟩
      have plus : (lit "+").length = 1 := rfl
      split <;> simp only [List.length_cons, List.length_append, size, plus] <;> omega
    rw [lineOf, Sending.bodyOf, Sending.concat_cons, wire, List.flatMap_singleton] at long
    have word : (lit "CHALLENGE").length = 9 := rfl
    simp only [List.length_append, List.length_cons, List.length_nil, word] at long
    omega

/-- The response goes out behind what was sent, and the task waits for the verdict. -/
theorem answer_eq (lawful : tools.Lawful) (task : Task Num) {chunks : List (Option Bytes)}
    {response : Bytes} (responds : respond tools chunks = some response)
    : ∃ messages, task.answer env tools chunks
      = { task with
        client := { task.client with
          sent := task.client.sent ++ [responseLine response], messages }
        phase := .answered response } := by
  obtain ⟨message, rfl⟩ := respond_eq_some responds
  have sent := @send_of_other _ env task.client (lit "CHALLENGE")
    [.plain (.string (lit "+" ++ toBase64 (tools.sha1 message)))] (by decide)
    (accepted_response lawful message)
  exact ⟨_, by rw [Task.answer, responds]; simp only [sent]; rfl⟩

/-- What is not collecting sends nothing: behind its response the task waits for the verdict. -/
theorem written_of_not_collecting {task : Task Num}
    (waits : ∀ chunks, task.phase ≠ .collecting chunks) (events : List (Message × Client Num))
    : task.written env tools events = [] := by
  induction events generalizing task with
  | nil => rfl
  | cons event events ih =>
      have stays : (task.step env tools event).client = event.2
          ∧ ∀ chunks, (task.step env tools event).phase ≠ .collecting chunks := by
        unfold Task.step Task.receive
        cases isPhase : task.phase with
        | collecting chunks => exact absurd isPhase (waits chunks)
        | returned => exact ⟨rfl, by simp⟩
        | failed => exact ⟨rfl, by simp⟩
        | answered response =>
            simp only
            split
            · unfold Task.judge Task.report
              cases event.1.command <;> simp
            · exact ⟨rfl, by simp⟩
      rw [Task.written, stays.1, ih stays.2, List.drop_length, List.nil_append]

/-- The end of the challenge asks for the response to what is there. -/
theorem asks_end {chunks : List (Option Bytes)} {arg2 : Option Bytes} {client : Client Num}
    {events : List (Message × Client Num)} {response : Bytes}
    : Asks tools chunks ((⟨.endOfRsaChallenge2, arg2⟩, client) :: events) response
      ↔ respond tools chunks = some response := by
  constructor
  · rintro ⟨before, _, _, _, whole, undecided, responds⟩
    cases before with
    | nil => rwa [partsOf, List.filterMap_nil, List.append_nil] at responds
    | cons first before =>
        obtain ⟨rfl, -⟩ := List.cons.inj whole
        exact absurd rfl (undecided _ List.mem_cons_self).1
  · intro responds
    refine ⟨[], arg2, client, events, rfl, by rintro _ ⟨⟩, ?_⟩
    rwa [partsOf, List.filterMap_nil, List.append_nil]

/-- What is asked behind one message that ends nothing. -/
theorem asks_cons {chunks : List (Option Bytes)} {event : Message × Client Num}
    {events : List (Message × Client Num)} {response : Bytes}
    (goesOn : event.1.command ≠ .endOfRsaChallenge2)
    : Asks tools chunks (event :: events) response
      ↔ (event.1.command ≠ .youreOper ∧ event.1.command ≠ .noOperHost)
        ∧ Asks tools (chunks ++ partsOf [event]) events response := by
  constructor
  · rintro ⟨before, arg2, client, after, whole, undecided, responds⟩
    cases before with
    | nil =>
        obtain ⟨rfl, -⟩ := List.cons.inj whole
        exact absurd rfl goesOn
    | cons first before =>
        obtain ⟨rfl, rfl⟩ := List.cons.inj whole
        refine ⟨(undecided event List.mem_cons_self).2, before, arg2, client, after, rfl,
          fun e isIn => undecided e (List.mem_cons_of_mem _ isIn), ?_⟩
        rwa [List.append_assoc, partsOf, partsOf, ← List.filterMap_append]
  · rintro ⟨others, before, arg2, client, after, rfl, undecided, responds⟩
    refine ⟨event :: before, arg2, client, after, rfl, ?_, ?_⟩
    · exact List.forall_mem_cons.mpr ⟨⟨goesOn, others⟩, undecided⟩
    · rwa [List.append_assoc, partsOf, partsOf, ← List.filterMap_append] at responds

/-- Whatever the server says, the task sends a response exactly when it is asked for one, and one
only. By induction on the messages.
-/
theorem written_collecting (lawful : tools.Lawful) {task : Task Num}
    {chunks : List (Option Bytes)} (collects : task.phase = .collecting chunks)
    (events : List (Message × Client Num))
    : (task.written env tools events = [] ∧ ∀ response, ¬ Asks tools chunks events response)
      ∨ ∃ response, (∀ asked, Asks tools chunks events asked ↔ asked = response)
        ∧ task.written env tools events = [responseLine response] := by
  induction events generalizing task chunks with
  | nil =>
      refine .inl ⟨rfl, ?_⟩
      rintro response ⟨before, _, _, _, whole, -⟩
      cases before <;> cases whole
  | cons event events ih =>
      obtain ⟨⟨command, arg2⟩, client⟩ := event
      have ended (ends : command = .youreOper ∨ command = .noOperHost)
          (goesOn : command ≠ .endOfRsaChallenge2) (response : Bytes)
          : ¬ Asks tools chunks ((⟨command, arg2⟩, client) :: events) response := by
        rw [asks_cons goesOn]
        rintro ⟨⟨notOper, notHost⟩, -⟩
        exact ends.elim notOper notHost
      have passed (parts : List (Option Bytes)) (notEnd : command ≠ .endOfRsaChallenge2)
          (goesOn : command ≠ .youreOper ∧ command ≠ .noOperHost)
          (arePassed : partsOf [((⟨command, arg2⟩ : Message), client)] = parts) (response : Bytes)
          : Asks tools chunks ((⟨command, arg2⟩, client) :: events) response
            ↔ Asks tools (chunks ++ parts) events response := by
        rw [asks_cons notEnd, arePassed]
        exact and_iff_right goesOn
      obtain ⟨_, statuses, phase⟩ := task
      cases collects
      rw [Task.written]
      unfold Task.step Task.receive
      simp only
      cases command with
      | endOfRsaChallenge2 =>
          simp only [asks_end]
          rw [if_pos (by decide), Task.collect]
          simp only
          cases responds : respond tools chunks with
          | none =>
              refine .inl ⟨?_, by simp⟩
              rw [Task.answer, responds]
              simp only [List.drop_length, List.nil_append]
              exact written_of_not_collecting (by simp) events
          | some response =>
              obtain ⟨messages, isAnswer⟩ := @answer_eq _ env tools lawful
                ⟨client, statuses, .collecting chunks⟩ chunks response responds
              refine .inr ⟨response, by simp [eq_comm], ?_⟩
              rw [isAnswer, written_of_not_collecting (by simp) events]
              simp
      | rsaChallenge2 =>
          simp only [passed [arg2] (by decide) (by decide) rfl]
          rw [if_pos (by decide), Task.collect]
          simp only [List.drop_length, List.nil_append]
          exact ih rfl
      | youreOper =>
          refine .inl ⟨?_, ended (.inl rfl) (by decide)⟩
          rw [if_pos (by decide), Task.collect]
          simp only [Task.report, List.drop_length, List.nil_append]
          exact written_of_not_collecting (by simp) events
      | noOperHost =>
          refine .inl ⟨?_, ended (.inr rfl) (by decide)⟩
          rw [if_pos (by decide), Task.collect]
          simp only [Task.report, List.drop_length, List.nil_append]
          exact written_of_not_collecting (by simp) events
      | passwdMismatch =>
          simp only [passed [] (by decide) (by decide) rfl, List.append_nil]
          rw [if_neg (by decide)]
          simp only [List.drop_length, List.nil_append]
          exact ih rfl
      | other =>
          simp only [passed [] (by decide) (by decide) rfl, List.append_nil]
          rw [if_neg (by decide)]
          simp only [List.drop_length, List.nil_append]
          exact ih rfl

/-- The loop goes on over messages that end nothing, by induction on them. -/
theorem collect_run {task : Task Num} {chunks : List (Option Bytes)}
    (collects : task.phase = .collecting chunks) {events : List (Message × Client Num)}
    (undecided : Undecided events)
    : (events.foldl (Task.step env tools) task).phase = .collecting (chunks ++ partsOf events)
      ∧ (events.foldl (Task.step env tools) task).statuses = task.statuses := by
  induction events generalizing task chunks with
  | nil => exact ⟨by simp [partsOf, collects], rfl⟩
  | cons event events ih =>
      obtain ⟨⟨notEnd, notOper, notHost⟩, later⟩ := List.forall_mem_cons.mp undecided
      have next : (task.step env tools event).phase = .collecting (chunks ++ partsOf [event])
          ∧ (task.step env tools event).statuses = task.statuses := by
        obtain ⟨⟨command, arg2⟩, client⟩ := event
        unfold Task.step Task.receive
        simp only [collects]
        cases command with
        | endOfRsaChallenge2 => exact absurd rfl notEnd
        | youreOper => exact absurd rfl notOper
        | noOperHost => exact absurd rfl notHost
        | rsaChallenge2 => exact ⟨rfl, rfl⟩
        | passwdMismatch => exact ⟨by simp [commands1, partsOf], by simp [commands1]⟩
        | other => exact ⟨by simp [commands1, partsOf], by simp [commands1]⟩
      obtain ⟨isPhase, same⟩ := ih next.1 later
      refine ⟨?_, same.trans next.2⟩
      rw [List.foldl_cons, isPhase, List.append_assoc, partsOf, partsOf, ← List.filterMap_append]
      rfl

/-- The end of the challenge is answered if its parts lead to a response. -/
theorem end_step (lawful : tools.Lawful) {task : Task Num} {chunks : List (Option Bytes)}
    (collects : task.phase = .collecting chunks) {response : Bytes}
    (responds : respond tools chunks = some response) (arg2 : Option Bytes) (client : Client Num)
    : (task.step env tools (⟨.endOfRsaChallenge2, arg2⟩, client)).phase = .answered response
      ∧ (task.step env tools (⟨.endOfRsaChallenge2, arg2⟩, client)).statuses = task.statuses := by
  obtain ⟨messages, isAnswer⟩ := @answer_eq _ env tools lawful { task with client } _ _ responds
  unfold Task.step Task.receive
  simp only [collects]
  rw [if_pos (by decide), Task.collect]
  simp only [collects] at isAnswer
  rw [isAnswer]
  exact ⟨rfl, rfl⟩

/-- What is reported for a verdict. -/
def verdictText : Command → String
  | .youreOper => "oper up"
  | .passwdMismatch => "key mismatch"
  | _ => "host mismatch"

/-- The task waits for the verdict and reports it, by induction on the messages in front of it. -/
theorem judge_run {task : Task Num} {response : Bytes} (waits : task.phase = .answered response)
    {waiting : List (Message × Client Num)}
    (others : ∀ event ∈ waiting, event.1.command ∉ commands2) {verdict : Message}
    (isVerdict : verdict.command ∈ commands2) (client : Client Num)
    : ((waiting ++ [(verdict, client)]).foldl (Task.step env tools) task).phase = .returned
      ∧ ((waiting ++ [(verdict, client)]).foldl (Task.step env tools) task).statuses
        = task.statuses ++ [verdictText verdict.command] := by
  induction waiting generalizing task with
  | nil =>
      rw [List.nil_append, List.foldl_cons, List.foldl_nil]
      unfold Task.step Task.receive
      simp only [waits]
      rw [if_pos isVerdict]
      obtain ⟨command, _⟩ := verdict
      revert isVerdict
      cases command with
      | youreOper => exact fun _ => ⟨rfl, rfl⟩
      | passwdMismatch => exact fun _ => ⟨rfl, rfl⟩
      | noOperHost => exact fun _ => ⟨rfl, rfl⟩
      | rsaChallenge2 => simp [commands2]
      | endOfRsaChallenge2 => simp [commands2]
      | other => simp [commands2]
  | cons event events ih =>
      obtain ⟨other, later⟩ := List.forall_mem_cons.mp others
      have next : (task.step env tools event) = { task with client := event.2 } := by
        unfold Task.step Task.receive
        simp only [waits]
        rw [if_neg other]
      rw [List.cons_append, List.foldl_cons, next]
      exact ih waits later

end Sent

-----------------------------------------------------------------------------------------
-- Both sides
-----------------------------------------------------------------------------------------

/-- A line that a server reads as the answer with a digest. -/
def Proves (line digest : Bytes) : Prop :=
  ∃ text,
    Decodes line
      { tags := [], source := [], command := lit "CHALLENGE", args := [lit "+" ++ text] }
    ∧ fromBase64 text = some digest

/-- The line of a response is read back with its digest. -/
theorem proves_responseLine {tools : Tools} (lawful : tools.Lawful) (message : Bytes)
    : Proves (responseLine (toBase64 (tools.sha1 message))) (tools.sha1 message) := by
  have word : CommandWord (lit "CHALLENGE") := {
    nonempty := by decide
    plain := by decide
    unbroken := by unfold Breaks; decide
    unsourced := by decide
    untagged := by decide
  }
  have good := fun bad => accepted_response lawful message (Or.inl bad)
  exact ⟨_, lineOf_decodes word good, fromBase64_toBase64 _⟩

/-- An encrypted message that is sent in parts leads to its digest, however it is cut. -/
theorem respond_honest {tools : Tools} (lawful : tools.Lawful) {message envelope : Bytes}
    (decrypts : tools.decrypt envelope = .ok message) {parts : List Bytes}
    (whole : parts.flatten = toBase64 envelope)
    : respond tools (parts.map some) = some (toBase64 (tools.sha1 message)) := by
  have all : (parts.map some).mapM id = some parts := by
    rw [List.mapM_map]
    exact List.mapM_pure.trans (congrArg some (List.map_id parts))
  have concat : concatChunks tools (parts.map some) = some (toBase64 envelope) := by
    rw [concatChunks, lawful.1, List.take_of_length_le (by simp), all, Option.map_some, whole]
  simp only [respond, concat, Option.bind_eq_bind, Option.bind_some, fromBase64_toBase64,
    decrypts]
  rfl

section Both

variable {Num : Type} {env : Environment Num} {tools : Tools}

end Both

/-- Parts up to the first that is missing, a key that reverses, and a digest of one value. -/
def plainTools : Tools :=
  {
    border := fun chunks => (chunks.takeWhile Option.isSome).length
    decrypt := fun envelope => .ok envelope.reverse
    sha1 := fun _ => List.replicate 20 0
  }

end Snowcone.Registration.Challenge
