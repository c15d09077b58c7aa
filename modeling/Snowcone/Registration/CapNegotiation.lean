import Snowcone.Registration.CapRequests
import Snowcone.Registration.SaslMechs

/-! The negotiation of capabilities: the client lists what the server offers, requests what it
wants of that, and goes on when every request is answered.
-/

namespace Snowcone.Registration

open Bytes LuaPattern
open Chat (Client Environment send)
open Sending (TokenValue)

/-- `caps_supported`, which `M:_init` makes the capabilities that are wanted. -/
def capsSupported : List Bytes :=
  [
    lit "account-notify", lit "account-tag", lit "away-notify", lit "batch", lit "cap-notify",
    lit "chghost", lit "draft/chathistory", lit "draft/event-playback", lit "extended-join",
    lit "extended-monitor", lit "invite-notify", lit "message-tags", lit "multi-prefix",
    lit "sasl", lit "server-time", lit "setname", lit "soju.im/bouncer-networks",
    lit "soju.im/bouncer-networks-notify", lit "solanum.chat/identify-msg",
    lit "solanum.chat/oper", lit "solanum.chat/realhost"
  ]

/-- The commands that the task tells apart. -/
inductive Command where
  | cap
  | welcome
  | other
deriving DecidableEq

/-- A message of the server, with its parameters. -/
structure Message where
  command : Command
  params : List Bytes

/-- `irc[i]`, counted from one. -/
def Message.arg (irc : Message) (i : Nat) : Option Bytes := irc.params[i - 1]?

/-- Where the task is: in the loop of `LS`, in `wait_for_ack`, in an authentication, or over. -/
inductive Phase where
  | listing
  | acking (outstanding : List Bytes)
  | authenticating (credentials : List Credential)
  | ended
  | welcomed
  | failed

/-- The task with the client that it is part of. -/
structure Negotiation (Num : Type) where
  client : Client Num
  caps : Capabilities
  phase : Phase

/-- The pattern `(%-?)([^ ]+)`. -/
def ackPattern : List (Item Byte) :=
  [
    .openCapture, .single (· == chr '-') .optional, .closeCapture,
    .openCapture, .single (· != chr ' ') .plus, .closeCapture
  ]

/-- The body of the loop over what is acknowledged; with what is outstanding goes what is enabled.
-/
def ackRound : List Bytes × (Bytes → Bool) → List Bytes → List Bytes × (Bytes → Bool)
  | (outstanding, enabled), [minus, cap] =>
      (outstanding.filter (· ≠ minus ++ cap), Function.update enabled cap (decide (minus = [])))
  | acc, _ => acc

section Task

variable {Num : Type} (env : Environment Num) (split : Bytes → List Bytes) (wanted : Bytes → Bool)
  (order : (Bytes → Option TokenValue) → List Bytes)

namespace Negotiation

/-- `send('CAP', 'END')`, the end of `LS`. -/
def finish (task : Negotiation Num) : Negotiation Num :=
  match send env (lit "CAP") [.plain (.string (lit "END"))] task.client with
  | .ok () client => { task with client, phase := .ended }
  | .error _ client => { task with client, phase := .failed }

/-- What `REQ` goes on with behind `wait_for_ack`. -/
def answered (task : Negotiation Num) : Negotiation Num :=
  match task.caps.saslCredentials with
  | some credentials =>
      if task.caps.capsEnabled (lit "sasl") then
        { task with
          caps := { task.caps with saslCredentials := none }
          phase := .authenticating credentials }
      else task.finish env
  | none => task.finish env

/-- The loop of `wait_for_ack`, up to where it waits. -/
def await (task : Negotiation Num) (outstanding : List Bytes) : Negotiation Num :=
  if outstanding = [] then task.answered env else { task with phase := .acking outstanding }

/-- `REQ(request)`, up to where it waits. -/
def request (task : Negotiation Num) (req : List Bytes) : Negotiation Num :=
  match sendReqs env req task.client with
  | .ok () client => await env { task with client } req
  | .error _ client => { task with client, phase := .failed }

/-- What `LS` goes on with behind its loop: `pairs` lists the capabilities that are available. -/
def listed (task : Negotiation Num) : Negotiation Num :=
  let req := (order task.caps.capsAvailable).filter wanted
  if req ≠ [] then task.request env req else task.finish env

/-- The body of the loop of `LS`, for a `CAP` message. -/
def receiveLs (task : Negotiation Num) (irc : Message) : Negotiation Num :=
  if irc.arg 2 = some (lit "LS") then
    let more := irc.arg 3 = some (lit "*")
    match if more then irc.arg 4 else irc.arg 3 with
    | none => { task with phase := .failed }
    | some capsarg =>
        let task := { task with caps := (addCaps split capsarg task.caps).1 }
        if more then task else task.listed env wanted order
  else task

/-- The body of the loop of `wait_for_ack`. -/
def receiveAck (task : Negotiation Num) (outstanding : List Bytes) (irc : Message)
    : Negotiation Num :=
  if irc.arg 2 = some (lit "ACK") then
    match irc.arg 3 with
    | none => { task with phase := .failed }
    | some caps =>
        let (outstanding, capsEnabled) :=
          (gmatch ackPattern caps).foldl ackRound (outstanding, task.caps.capsEnabled)
        await env { task with caps := { task.caps with capsEnabled } } outstanding
  else if irc.arg 2 = some (lit "NAK") then
    match irc.arg 3 with
    | none => { task with phase := .failed }
    | some caps =>
        await env task ((gmatch wordPattern caps).flatten.foldl
          (fun outstanding cap => outstanding.filter (· ≠ cap)) outstanding)
  else task

/-- The task is resumed with a message if it waits for its command. -/
def receive (task : Negotiation Num) (irc : Message) : Negotiation Num :=
  match task.phase, irc.command with
  | .listing, .cap => task.receiveLs env split wanted order irc
  | .listing, .welcome => { task with phase := .welcomed }
  | .acking outstanding, .cap => task.receiveAck env outstanding irc
  | _, _ => task

/-- What the handlers make of capabilities before the task is resumed; a task that requests new
ones is another task.
-/
def handle (caps : Capabilities) (irc : Message) : Capabilities :=
  match irc.command, irc.arg 2, irc.arg 3 with
  | .cap, some subcommand, some capsarg =>
      if subcommand = lit "DEL" then delCaps split capsarg caps
      else if subcommand = lit "NEW" then (addCaps split capsarg caps).1
      else caps
  | _, _, _ => caps

/-- A message comes in, and its handlers leave some client. -/
def step (task : Negotiation Num) (event : Message × Client Num) : Negotiation Num :=
  receive env split wanted order
    { task with client := event.2, caps := handle split task.caps event.1 } event.1

/-- `LS(task)`, up to where it waits. -/
def start (client : Client Num) (caps : Capabilities) : Negotiation Num :=
  match send env (lit "CAP") [.plain (.string (lit "LS")), .plain (.string (lit "302"))] client with
  | .ok () client => { client, caps, phase := .listing }
  | .error _ client => { client, caps, phase := .failed }

end Negotiation

end Task

-----------------------------------------------------------------------------------------
-- What a server says
-----------------------------------------------------------------------------------------

/-- A message that neither lists nor answers nor changes what there is. -/
def Idle (irc : Message) : Prop :=
  irc.command = .other
    ∨ irc.command = .cap ∧ ∀ subcommand ∈ irc.arg 2,
      subcommand ≠ lit "LS" ∧ subcommand ≠ lit "ACK" ∧ subcommand ≠ lit "NAK"
        ∧ subcommand ≠ lit "DEL" ∧ subcommand ≠ lit "NEW"

/-- The server lists capabilities in some texts, with other messages in between. -/
inductive Lists {Num : Type} : List Bytes → List (Message × Client Num) → Prop
  | idle {texts irc client events} (idle : Idle irc) (later : Lists texts events)
    : Lists texts ((irc, client) :: events)
  | more {who text texts client events} (later : Lists texts events)
    : Lists (text :: texts) ((⟨.cap, [who, lit "LS", lit "*", text]⟩, client) :: events)
  | last {who text client} (notMore : text ≠ lit "*")
    : Lists [text] [(⟨.cap, [who, lit "LS", text]⟩, client)]

/-- The subcommand of an answer. -/
def verdict (acknowledged : Bool) : Bytes := if acknowledged then lit "ACK" else lit "NAK"

/-- The server answers requests, with other messages in between; the last message is an answer. -/
inductive Answers {Num : Type} : List (List Bytes × Bool) → List (Message × Client Num) → Prop
  | idle {answers irc client events} (idle : Idle irc) (open_ : answers ≠ [])
    (later : Answers answers events)
    : Answers answers ((irc, client) :: events)
  | answer {who text acknowledged answers client events} (later : Answers answers events)
    : Answers ((wordsOf text, acknowledged) :: answers)
        ((⟨.cap, [who, verdict acknowledged, text]⟩, client) :: events)
  | done : Answers [] []

/-- What the server offers by name. -/
def Offered (texts : List Bytes) (name : Bytes) : Prop :=
  ∃ text ∈ texts, ∃ word ∈ wordsOf text, (capOf word).map Prod.fst = some name

end Snowcone.Registration
