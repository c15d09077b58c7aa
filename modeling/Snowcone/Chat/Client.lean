import Snowcone.Foundations.Action
import Snowcone.Membership.Handlers
import Snowcone.Sending.Send

/-! The client as the handlers of chat messages see it: the tables of `irc_state`, the open
buffers with their histories, and what is sent.
-/

namespace Snowcone.Chat

open Bytes Components
open Sending (Argument SentMsg TokenValue irccase)

/-- What the handlers read and record of a message that was received. -/
structure Received where
  nick : Option Bytes
  args : List Bytes
  timeTag : Option Bytes
  fromOper : Bool
  statusmsg : Option Bytes
  deriving DecidableEq

/-- An entry of a history: a message that was sent, or one that was received. -/
inductive Entry where
  | sent (msg : SentMsg)
  | received (irc : Received)

/-- What the handlers read from their surroundings: numbers, `string.find`, the mention
patterns of the configuration, the clock, and what `git` prints.
-/
structure Environment (Num : Type) where
  numeral : Num → Bytes
  ofNat : Nat → Num
  exceeds : Num → Nat → Bool
  find : Bytes → Bytes → Except String Bool
  mentionPatterns : List Bytes
  uptime : Nat
  date : Bytes
  now : Bytes
  version : Bytes

/-- `Buffer`; there is room in its history. -/
structure Buffer where
  name : Bytes
  messages : OrderedMap Bool Entry
  activity : Nat
  mention : Bool
  hasRoom : 0 < messages.max

/-- `Buffer(name)`. -/
def Buffer.new (name : Bytes) : Buffer :=
  {
    name
    messages := .new 1000 none none
    activity := 0
    mention := false
    hasRoom := Nat.zero_lt_succ _
  }

/-- An insertion keeps the bound of a history. -/
theorem max_insert (messages : OrderedMap Bool Entry) (key : Option Bool) (entry : Entry)
    : (messages.insert key entry).max = messages.max := by
  have overwrites : ∀ (m : OrderedMap Bool Entry) (i : Nat), (m.overwrite i).max = m.max := by
    intro m i
    unfold OrderedMap.overwrite
    split
    · split <;> rfl
    · rfl
  have remembers : ∀ (m : OrderedMap Bool Entry) (i : Nat), (m.remember key i).max = m.max := by
    intro m i
    cases key <;> rfl
  unfold OrderedMap.insert
  dsimp only
  split
  · rw [remembers, overwrites]
  · split <;> rw [remembers, overwrites]

/-- `buffer.messages:insert(true, entry)`. -/
def Buffer.insert (buffer : Buffer) (entry : Entry) : Buffer :=
  { buffer with
    messages := buffer.messages.insert (some true) entry
    hasRoom := by rw [max_insert]; exact buffer.hasRoom }

/-- The open buffers, under their names in IRC case. -/
abbrev Buffers := Bytes → Option Buffer

/-- Change the buffer under a key, if there is one. -/
def editBuffer (buffers : Buffers) (key : Bytes) (edit : Buffer → Buffer) : Buffers :=
  Function.update buffers key ((buffers key).map edit)

/-- The global state while a connection is up: `irc_state` with what the connection was
given, the histories, and the target that is talked to. Before the registration there is
no nick.
-/
structure Client (Num : Type) where
  irc : Membership.IrcState
  hasNick : Bool
  statusmsg : TokenValue
  chantypes : TokenValue
  hasChathistory : Bool
  maxChatHistory : Option Num
  sent : List Bytes
  messages : OrderedMap Bool Entry
  buffers : Buffers
  talkTarget : Option Bytes

/-- `irc_state.nick`. -/
def Client.nick {Num : Type} (client : Client Num) : Option Bytes :=
  if client.hasNick then some client.irc.nick else none

/-- How an action stops before its end. -/
inductive Stop where
  | raises (text : String)
  | hangs
  deriving DecidableEq

/-- What is done to the client. -/
abbrev Act (Num : Type) := EStateM Stop (Client Num)

variable {Num : Type}

/-- `split_statusmsg(target)`, for a target that is a string. -/
def splitStatusmsg (target : Bytes) : Act Num (Option Bytes × Bytes) := do
  match (← get).statusmsg with
  | .flag => throw (.raises "attempt to index a boolean value (field 'statusmsg')")
  | .text chars =>
      match Sending.splitStatusmsg chars target with
      | none => throw .hangs
      | some (status, rest) => pure (if status = [] then none else some status, rest)

/-- The body of the loop of `send` over the targets. -/
def echo (msg : SentMsg) (x : Bytes) : Act Num Unit := do
  let (statusmsg, target) ← splitStatusmsg x
  modify fun client => { client with
    buffers := editBuffer client.buffers (irccase target)
      (·.insert (.sent { msg with statusmsg })) }

/-- What `send` records of a message. -/
def sentMsg (env : Environment Num) (cmd : Bytes) (args : List (Argument Num)) : SentMsg :=
  {
    tags := []
    command := cmd
    source := lit ">>>"
    timestamp := env.uptime
    time := env.date
    args := args.map (Argument.shown env.numeral)
    statusmsg := none
  }

/-- `irc_state:rawsend(raw)` and `messages:insert(true, msg)`. -/
def Client.handOver (client : Client Num) (raw : Bytes) (msg : SentMsg) : Client Num :=
  { client with
    sent := client.sent ++ [raw]
    messages := client.messages.insert (some true) (.sent msg) }

/-- The end of `send`: a chat message goes to the buffers of its targets. -/
def echoes (msg : SentMsg) : Act Num Unit :=
  if msg.command = lit "PRIVMSG" ∨ msg.command = lit "NOTICE" then
    match msg.args with
    | [] => throw (.raises "attempt to index a nil value (field '?')")
    | first :: _ => (Sending.targets first).forM (echo msg)
  else pure ()

/-- `send(cmd, ...)`. -/
def send (env : Environment Num) (cmd : Bytes) (args : List (Argument Num)) : Act Num Unit :=
  match Sending.partsFrom args.length 1 (args.map (Argument.part env.numeral)) with
  | .error text => throw (.raises text)
  | .ok parts =>
      let raw := Sending.concat (cmd :: parts) ++ [chr '\r', chr '\n']
      if raw.length > 512 then
        throw (.raises ("message too long: " ++ toString raw.length))
      else do
        let msg := sentMsg env cmd args
        modify (·.handOver raw msg)
        echoes msg

/-- The arguments of the request for the history of a buffer that has just been opened. -/
def historyRequest (env : Environment Num) (client : Client Num) (key : Bytes)
    (timeTag : Option Bytes)
    : List (Argument Num) :=
  let amount :=
    match client.maxChatHistory with
    | none => env.ofNat 1000
    | some amount => if env.exceeds amount 1000 then env.ofNat 1000 else amount
  match timeTag with
  | some time =>
      [
        .plain (.string (lit "BEFORE")), .plain (.string key),
        .plain (.string (lit "timestamp=" ++ time)), .plain (.number amount)
      ]
  | none =>
      [
        .plain (.string (lit "LATEST")), .plain (.string key), .plain (.string (lit "*")),
        .plain (.number amount)
      ]

/-- The first part of `add_to_buffer`: the buffer is there with its name, and the history of
a new one is asked for.
-/
def openBuffer (env : Environment Num) (name : Bytes) (irc : Received) : Act Num Unit := do
  let client ← get
  match client.buffers (irccase name) with
  | some buffer =>
      set { client with
        buffers := Function.update client.buffers (irccase name) (some { buffer with name }) }
  | none =>
      set { client with
        buffers := Function.update client.buffers (irccase name) (some (.new name)) }
      if client.hasChathistory then
        send env (lit "CHATHISTORY") (historyRequest env client (irccase name) irc.timeTag)

/-- The second part of `add_to_buffer`: the message is in the buffer. -/
def Buffer.log (buffer : Buffer) (irc : Received) (mention activity : Bool) : Buffer :=
  { buffer.insert (.received irc) with
    mention := mention || buffer.mention
    activity := if activity then buffer.activity + 1 else buffer.activity }

/-- `add_to_buffer(buffer_name, irc, mention, activity)`. -/
def addToBuffer (env : Environment Num) (name : Bytes) (irc : Received)
    (mention activity : Bool)
    : Act Num Unit := do
  openBuffer env name irc
  modify fun client => { client with
    buffers := editBuffer client.buffers (irccase name) (·.log irc mention activity) }

end Snowcone.Chat
