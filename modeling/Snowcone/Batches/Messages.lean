import Mathlib.Logic.Function.Basic
import Snowcone.Bouncer.Networks
import Snowcone.Chat.Client

/-! How the client handles a message: those of a batch are kept until it ends, all others are
handed to the handlers, the tasks and the plugins.
-/

namespace Snowcone.Batches

open Bytes Components IrcParsing LuaPattern
open Bouncer (Networks lParseIrcTags)
open Chat (Client Received Stop editBuffer)
open Sending (TokenValue irccase)

variable {Num : Type}

/-- The pattern `^([^!]*)!([^@]*)@(.*)$` of a source. -/
def sourcePattern : List (Item Byte) :=
  [.openCapture, .single (· != chr '!') .many, .closeCapture, .single (· == chr '!') .once,
    .openCapture, .single (· != chr '@') .many, .closeCapture, .single (· == chr '@') .once,
    .openCapture, .single (fun _ => true) .many, .closeCapture, .endOfSubject]

/-- What the histories keep of a message; the nick is taken from the source. -/
def received (irc : Pushed) : Received where
  nick := do (← stringMatch sourcePattern (← irc.source)).head?
  args := irc.args
  timeTag := irc.tags (lit "time")
  fromOper := (irc.tags (lit "solanum.chat/oper")).isSome
  statusmsg := none

/-- A batch that has been started; `n` is the number of its messages. -/
structure Batch where
  identifier : Option Bytes
  params : List Bytes
  messages : List Pushed

/-- The client without the table of the batches. -/
structure World (Num : Type) where
  client : Client Num
  networks : Option Networks

/-- A connection: `irc_state.batches`, whether there is an `irc_state`, and the messages that
were handed to the handlers, the tasks and the plugins.
-/
structure Session (Num : Type) where
  world : World Num
  batches : Bytes → Option Batch
  connected : Bool
  dispatched : List Pushed

/-- What is done to a connection. -/
abbrev Act (Num : Type) := EStateM Stop (Session Num)

/-- What is done to the client. -/
def onClient (action : Chat.Act Num Unit) : Act Num Unit := fun session =>
  match action session.world.client with
  | .ok _ client => .ok () { session with world := { session.world with client } }
  | .error stop client => .error stop { session with world := { session.world with client } }

-----------------------------------------------------------------------------------------
-- The handlers of batches
-----------------------------------------------------------------------------------------

/-- The body of the loop of the handler for `soju.im/bouncer-networks`. -/
def addNetwork (networks : Networks) (irc : Pushed) : Except String Networks :=
  if irc.command = .name (lit "BOUNCER") ∧ irc.args[0]? = some (lit "NETWORK") then
    match irc.args[1]?, irc.args[2]? with
    | some netid, some attrs => .ok (Function.update networks netid (lParseIrcTags attrs))
    | _, _ => .error "bad argument #1 to 'parse_irc_tags' (string expected, got nil)"
  else .ok networks

/-- The handler for `soju.im/bouncer-networks`. -/
def bouncerNetworks (messages : List Pushed) : Act Num Unit :=
  match messages.foldlM addNetwork (fun _ => none) with
  | .error text => throw (.raises text)
  | .ok networks =>
      modify fun session => { session with
        world := { session.world with networks := some networks } }

/-- The first result of `split_statusmsg(irc[1])`. -/
def splitFirst (irc : Pushed) : Chat.Act Num (Option Bytes) := do
  match irc.args.head? with
  | some target =>
      let (status, _) ← Chat.splitStatusmsg target
      pure status
  | none =>
      match (← get).statusmsg with
      | .flag => throw (.raises "attempt to index a boolean value (field 'statusmsg')")
      | .text _ => throw (.raises "attempt to index a nil value (local 'target')")

/-- A chat message. -/
def IsChat (irc : Pushed) : Prop :=
  irc.command = .name (lit "PRIVMSG") ∨ irc.command = .name (lit "NOTICE")

instance (irc : Pushed) : Decidable (IsChat irc) := inferInstanceAs (Decidable (_ ∨ _))

/-- The body of the loop of the handler for `chathistory`. -/
def route (key : Bytes) (irc : Pushed) : Chat.Act Num Unit := do
  let statusmsg ← if IsChat irc then splitFirst irc else pure none
  modify fun client => { client with
    buffers := editBuffer client.buffers key
      (·.insert (.received { received irc with statusmsg })) }

/-- The handler for `chathistory`. -/
def chathistory (params : List Bytes) (messages : List Pushed) : Chat.Act Num Unit := do
  match params.head? with
  | none => throw (.raises "bad argument #1 to 'irccase' (string expected, got nil)")
  | some target =>
      if ((← get).buffers (irccase target)).isSome then messages.forM (route (irccase target))

/-- `batch_handlers` -/
def batchHandler (batch : Batch) : Act Num Unit :=
  if batch.identifier = some (lit "soju.im/bouncer-networks") then bouncerNetworks batch.messages
  else if batch.identifier = some (lit "chathistory") then
    onClient (chathistory batch.params batch.messages)
  else pure ()

-----------------------------------------------------------------------------------------
-- Messages
-----------------------------------------------------------------------------------------

/-- `M.BATCH` -/
def batch (irc : Pushed) : Act Num Unit := do
  match irc.args with
  | [] => throw (.raises "attempt to index a nil value (field '?')")
  | first :: more =>
      let polarity := first.take 1
      let name := first.drop 1
      -- start of batch
      if polarity = lit "+" then
        modify fun session => { session with
          batches := Function.update session.batches name (some {
            identifier := more.head?
            params := more.tail
            messages := []
          }) }
      -- end of batch
      else if polarity = lit "-" then
        let session ← get
        set { session with batches := Function.update session.batches name none }
        match session.batches name with
        | none => pure ()
        | some batch => batchHandler batch

/-- The handlers other than `M.BATCH`, the tasks that wait for a message and the plugins: what
they make of the client, and whether they leave the connection up. None of them knows of the
batches.
-/
abbrev Live (Num : Type) := Pushed → World Num → World Num × Bool

/-- `messages:insert(true, irc)` -/
def Session.log (session : Session Num) (irc : Pushed) : Session Num :=
  let client := session.world.client
  { session with
    world := { session.world with
      client := { client with
        messages := client.messages.insert (some true) (.received (received irc)) } } }

/-- The rest of the way of a message that is not of a batch. -/
def Session.dispatch (live : Live Num) (session : Session Num) (irc : Pushed) : Session Num :=
  { session with
    world := (live irc session.world).1
    connected := (live irc session.world).2
    dispatched := session.dispatched ++ [irc] }

/-- `conn_handlers.MSG`; there is no result if it does not return. An error of a handler is
only reported.
-/
def msg (live : Live Num) (session : Session Num) (irc : Pushed) : Option (Session Num) :=
  if ¬ session.connected then some session
  else
    let session := session.log irc
    match (irc.tags (lit "batch")).bind fun ref => (session.batches ref).map (ref, ·) with
    | some (ref, batch) =>
        some { session with
          batches := Function.update session.batches ref
            (some { batch with messages := batch.messages ++ [irc] }) }
    | none =>
        if irc.command = .name (lit "BATCH") then
          match batch irc session with
          | .ok _ session => some (session.dispatch live irc)
          | .error (.raises _) session => some (session.dispatch live irc)
          | .error .hangs _ => none
        else some (session.dispatch live irc)

/-- What happens on a connection: a message comes, or the client does anything else, which
leaves the batches as they are.
-/
inductive Event (Num : Type) where
  | message (irc : Pushed)
  | other (change : World Num → World Num × Bool)

/-- Something happens. -/
def step (live : Live Num) (session : Session Num) : Event Num → Option (Session Num)
  | .message irc => msg live session irc
  | .other change =>
      some { session with
        world := (change session.world).1
        connected := session.connected && (change session.world).2 }

/-- A connection that has just been made. -/
def Session.new (world : World Num) : Session Num where
  world := world
  batches := fun _ => none
  connected := true
  dispatched := []

end Snowcone.Batches
