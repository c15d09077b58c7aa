import Snowcone.Chat.Histories
import Snowcone.Membership.Tracking

/-! The handler of a change of nick, with the tables it moves entries in one after the other. -/

namespace Snowcone.Chat

open Bytes Action Snowcone.Membership
open Sending (Argument Refused textsOf lineOf irccase)

variable {Num : Type}

/-- The arguments of the request not to monitor a nick any longer. -/
def monitorArgs (nick : Bytes) : List (Argument Num) :=
  [.plain (.string (lit "-")), .plain (.string nick)]

/-- The part of `M.NICK` that is about the client's own nick. Once the client has the nick it
wants back, that nick is not monitored any longer.
-/
def changeOwnNick (env : Environment Num) (oldnick newnick : Bytes) : Act Num Unit := do
  let client ← get
  if client.nick = some oldnick then
    modify fun client => { client with irc := { client.irc with nick := newnick } }
    if client.irc.recoverNick = some (irccase newnick) then
      modify fun client => { client with irc := { client.irc with recoverNick := none } }
      send env (lit "MONITOR") (monitorArgs newnick)
      match (← get).irc.delMonitor newnick with
      | some irc => modify fun client => { client with irc }
      | none => throw (.raises "attempt to index a nil value (field 'monitor')")

/-- The part of `M.NICK` that is about the users table. -/
def changeUser (oldnick newnick : Bytes) : Act Num Unit :=
  modify fun client =>
    let (irc, user) := client.irc.getUser oldnick
    { client with
      irc := { irc with
        users := renameUser irc.users user (irccase oldnick) (irccase newnick) newnick } }

/-- The body of the loop over the channels: the member moves, and its channel is told. -/
def changeMember (env : Environment Num) (irc : Received) (oldkey newkey key : Bytes)
    : Act Num Unit := do
  match (← get).irc.channels key with
  | none => pure ()
  | some channel =>
      if (channel.members oldkey).isSome then
        modify fun client => { client with
          irc := { client.irc with
            channels := Function.update client.irc.channels key
              (some { channel with members := moveMember oldkey newkey channel.members }) } }
        addToBuffer env channel.name irc false false

/-- The part of `M.NICK` that is about the query buffer. -/
def changeQuery (env : Environment Num) (irc : Received) (oldkey newnick : Bytes)
    : Act Num Unit := do
  match (← get).buffers oldkey with
  | none => pure ()
  | some buffer =>
      let buffer := { buffer with name := newnick }
      modify fun client => { client with
        buffers :=
          if oldkey ≠ irccase newnick then
            Function.update (Function.update client.buffers oldkey none) (irccase newnick)
              (some buffer)
          else Function.update client.buffers oldkey (some buffer) }
      addToBuffer env newnick irc false false

/-- The part of `M.NICK` that is about the target that is talked to. -/
def changeTalkTarget (oldkey newkey : Bytes) : Act Num Unit :=
  modify fun client => { client with
    talkTarget := if client.talkTarget = some oldkey then some newkey else client.talkTarget }

/-- `M.NICK`, where `pairs` goes through the channels in a given order. -/
def nick (env : Environment Num) (irc : Received) (order : List Bytes) : Act Num Unit := do
  match irc.nick, irc.args.head? with
  | some oldnick, some newnick =>
      changeOwnNick env oldnick newnick
      changeUser oldnick newnick
      order.forM (changeMember env irc (irccase oldnick) (irccase newnick))
      changeQuery env irc (irccase oldnick) newnick
      changeTalkTarget (irccase oldnick) (irccase newnick)
  | _, _ => throw (.raises "bad argument #1 to 'irccase' (string expected, got nil)")

-----------------------------------------------------------------------------------------
-- What each part does
-----------------------------------------------------------------------------------------

variable {env : Environment Num} {client : Client Num} {irc : Received}
  {oldnick newnick oldkey newkey : Bytes}

/-- The client may stop monitoring the nick it wants back, or does not have to: the server has
`MONITOR`, and the request can be sent.
-/
def CanRetract (env : Environment Num) (client : Client Num) (oldnick newnick : Bytes) : Prop :=
  client.nick = some oldnick → client.irc.recoverNick = some (irccase newnick)
    → client.irc.monitor.isSome
      ∧ ¬ Refused (lit "MONITOR")
          (textsOf env.numeral (monitorArgs newnick : List (Argument Num)))

/-- The change of the client's own nick ends as in the model without messages, and neither users
nor channels change.
-/
theorem changeOwnNick_ends (canRetract : CanRetract env client oldnick newnick)
    : ∃ after sent messages,
        changeOwnNick env oldnick newnick client
          = .ok () { client with irc := after, sent, messages }
        ∧ (client.hasNick = true → ownNick client.irc oldnick newnick = some after)
        ∧ after.users = client.irc.users
        ∧ after.channels = client.irc.channels := by
  by_cases own : client.nick = some oldnick
  · obtain ⟨has, isNick⟩ : client.hasNick = true ∧ oldnick = client.irc.nick := by
      rw [Client.nick] at own
      split at own
      · next has => exact ⟨has, (Option.some.inj own).symm⟩
      · cases own
    by_cases recovers : client.irc.recoverNick = some (irccase newnick)
    · obtain ⟨hasMonitor, accepted⟩ := canRetract own recovers
      obtain ⟨monitor, monitors⟩ := Option.isSome_iff_exists.mp hasMonitor
      let handed := client.handOver (lineOf (lit "MONITOR")
          (textsOf env.numeral (monitorArgs newnick : List (Argument Num))))
        (sentMsg env (lit "MONITOR") (monitorArgs newnick))
      refine ⟨{ client.irc with
          nick := newnick, recoverNick := none
          monitor := some (Function.update monitor (irccase newnick) none) },
        handed.sent, handed.messages, ?_, ?_, rfl, rfl⟩
      · unfold changeOwnNick
        rw [get_bind, if_pos own, modify_bind, if_pos recovers, modify_bind,
          bind_of_ok (send_of_other (by decide) accepted), get_bind]
        simp only [Client.handOver, IrcState.delMonitor, monitors, Option.map_some]
        rfl
      · intro _
        rw [ownNick, if_pos isNick]
        simp only [recovers, if_true, IrcState.delMonitor, monitors, Option.map_some]
    · refine ⟨{ client.irc with nick := newnick }, client.sent, client.messages, ?_, ?_, rfl, rfl⟩
      · unfold changeOwnNick
        rw [get_bind, if_pos own, modify_bind, if_neg recovers]
        rfl
      · intro _
        rw [ownNick, if_pos isNick]
        exact if_neg recovers
  · refine ⟨client.irc, client.sent, client.messages, ?_, ?_, rfl, rfl⟩
    · unfold changeOwnNick
      rw [get_bind, if_neg own]
      rfl
    · intro has
      have other : oldnick ≠ client.irc.nick := by
        rintro rfl
        exact own (by rw [Client.nick, if_pos has])
      rw [ownNick, if_neg other]

/-- A channel that the user is in. -/
def sharedChannel (channels : Bytes → Option Channel) (oldkey key : Bytes) : Option Channel :=
  (channels key).filter fun channel => (channel.members oldkey).isSome

/-- A channel without the user is as it was once its member has moved. -/
theorem map_moveMember_of_unshared {channels : Bytes → Option Channel} {key : Bytes}
    (unshared : sharedChannel channels oldkey key = none)
    : (channels key).map (fun channel =>
        { channel with members := moveMember oldkey newkey channel.members })
      = channels key := by
  rw [sharedChannel] at unshared
  cases found : channels key with
  | none => rfl
  | some channel =>
      rw [found, Option.filter_eq_none_iff] at unshared
      have absent : channel.members oldkey = none := by
        simpa using unshared channel rfl
      simp only [Option.map_some, moveMember, absent]

/-- A channel without the user is left alone. -/
theorem changeMember_of_unshared {key : Bytes}
    (unshared : sharedChannel client.irc.channels oldkey key = none)
    : changeMember env irc oldkey newkey key client = .ok () client := by
  unfold changeMember
  rw [get_bind]
  rw [sharedChannel] at unshared
  cases found : client.irc.channels key with
  | none => rfl
  | some channel =>
      rw [found, Option.filter_eq_none_iff] at unshared
      simp only
      rw [if_neg (unshared channel rfl)]
      rfl

/-- The client once a member has moved and its channel has been told. -/
def Client.tell (client : Client Num) (irc : Received) (oldkey newkey key : Bytes)
    (channel : Channel)
    : Client Num :=
  { client with
    irc := { client.irc with
      channels := Function.update client.irc.channels key
        (some { channel with members := moveMember oldkey newkey channel.members }) }
    buffers := Function.update client.buffers (irccase channel.name)
      (some (noticed (client.buffers (irccase channel.name)) channel.name irc)) }

/-- In a channel with the user, the member moves and the channel is told. -/
theorem changeMember_of_shared {key : Bytes} {channel : Channel}
    (shared : sharedChannel client.irc.channels oldkey key = some channel)
    (canOpen : CanOpen env client channel.name irc)
    : ∃ sent messages, changeMember env irc oldkey newkey key client
        = .ok () { client.tell irc oldkey newkey key channel with sent, messages } := by
  obtain ⟨found, isMember⟩ := Option.filter_eq_some_iff.mp shared
  unfold changeMember
  rw [get_bind, found]
  simp only [if_pos isMember]
  rw [modify_bind]
  let moved : Client Num := { client with
    irc := { client.irc with
      channels := Function.update client.irc.channels key
        (some { channel with members := moveMember oldkey newkey channel.members }) } }
  exact @addToBuffer_ends _ env moved _ _ canOpen

/-- A buffer that can be opened, or does not have to be, stays so once a channel is told. -/
theorem canOpen_tell {key name : Bytes} {channel : Channel} (canOpen : CanOpen env client name irc)
    : CanOpen env (client.tell irc oldkey newkey key channel) name irc := by
  intro closed
  change Function.update client.buffers (irccase channel.name) _ (irccase name) = none at closed
  have notTold : irccase name ≠ irccase channel.name := by
    intro same
    rw [same, Function.update_self] at closed
    cases closed
  rw [Function.update_of_ne notTold] at closed
  exact canOpen closed

/-- The buffers once the notice is in those of the channels with the user. -/
def announce (channels : Bytes → Option Channel) (oldkey : Bytes) (irc : Received)
    : List Bytes → Buffers → Buffers
  | [], buffers => buffers
  | key :: order, buffers =>
      announce channels oldkey irc order
        (match sharedChannel channels oldkey key with
        | none => buffers
        | some channel =>
            Function.update buffers (irccase channel.name)
              (some (noticed (buffers (irccase channel.name)) channel.name irc)))

/-- Only the channels that are visited matter, by induction on the visits. -/
theorem announce_congr {channels others : Bytes → Option Channel} {order : List Bytes}
    (same : ∀ key ∈ order, channels key = others key) (buffers : Buffers)
    : announce channels oldkey irc order buffers = announce others oldkey irc order buffers := by
  induction order generalizing buffers with
  | nil => rfl
  | cons key order ih =>
      have here : sharedChannel channels oldkey key = sharedChannel others oldkey key := by
        rw [sharedChannel, same key List.mem_cons_self, sharedChannel]
      rw [announce, announce, here]
      exact ih (fun other isIn => same other (List.mem_cons_of_mem key isIn)) _

/-- The channels once the members in those that were visited have moved. -/
def moveIn (channels : Bytes → Option Channel) (oldkey newkey : Bytes) (order : List Bytes)
    (key : Bytes)
    : Option Channel :=
  if key ∈ order then
    (channels key).map fun channel =>
      { channel with members := moveMember oldkey newkey channel.members }
  else channels key

/-- A visit to a channel without the user changes nothing. -/
theorem moveIn_of_unshared {channels : Bytes → Option Channel} {key : Bytes} {order : List Bytes}
    (unshared : sharedChannel channels oldkey key = none)
    : moveIn channels oldkey newkey (key :: order) = moveIn channels oldkey newkey order := by
  funext other
  rw [moveIn, moveIn]
  by_cases here : other = key
  · rw [here, if_pos List.mem_cons_self, map_moveMember_of_unshared unshared]
    split <;> rfl
  · simp only [List.mem_cons, here, false_or]

/-- The channels move one after the other. -/
theorem moveIn_of_shared {channels : Bytes → Option Channel} {key : Bytes} {order : List Bytes}
    {channel : Channel} (isNew : key ∉ order)
    (shared : sharedChannel channels oldkey key = some channel)
    : moveIn (Function.update channels key
          (some { channel with members := moveMember oldkey newkey channel.members }))
        oldkey newkey order
      = moveIn channels oldkey newkey (key :: order) := by
  obtain ⟨found, _⟩ := Option.filter_eq_some_iff.mp shared
  funext other
  rw [moveIn, moveIn]
  by_cases here : other = key
  · rw [here, if_neg isNew, if_pos List.mem_cons_self, Function.update_self, found, Option.map_some]
  · simp only [List.mem_cons, here, false_or, Function.update_of_ne here]

/-- The loop over the channels: every member has moved and every channel with the user has been
told, by induction on the channels that are still to come.
-/
theorem changeMembers_ends {order : List Bytes} (once : order.Nodup)
    (canOpen : ∀ key ∈ order, ∀ channel,
      sharedChannel client.irc.channels oldkey key = some channel
      → CanOpen env client channel.name irc)
    : ∃ sent messages, order.forM (changeMember env irc oldkey newkey) client
        = .ok () { client with
            sent, messages
            irc := { client.irc with
              channels := moveIn client.irc.channels oldkey newkey order }
            buffers := announce client.irc.channels oldkey irc order client.buffers } := by
  induction order generalizing client with
  | nil => exact ⟨client.sent, client.messages, rfl⟩
  | cons key order ih =>
      obtain ⟨isNew, once⟩ := List.nodup_cons.mp once
      cases shared : sharedChannel client.irc.channels oldkey key with
      | none =>
          obtain ⟨sent, messages, ends⟩ := ih once
            (fun other isIn => canOpen other (List.mem_cons_of_mem key isIn))
          refine ⟨sent, messages, (bind_of_ok (changeMember_of_unshared shared)).trans
            (ends.trans ?_)⟩
          rw [moveIn_of_unshared shared, announce, shared]
      | some channel =>
          obtain ⟨sent, messages, told⟩ := @changeMember_of_shared _ _ _ _ _ newkey _ _ shared
            (canOpen key List.mem_cons_self channel shared)
          have others : ∀ other ∈ order,
              Function.update client.irc.channels key
                  (some { channel with members := moveMember oldkey newkey channel.members }) other
                = client.irc.channels other :=
            fun other isIn => Function.update_of_ne (ne_of_mem_of_not_mem isIn isNew) _ _
          have canOpenLater : ∀ other ∈ order, ∀ otherChannel,
              sharedChannel (client.tell irc oldkey newkey key channel).irc.channels oldkey other
                = some otherChannel
              → CanOpen env (client.tell irc oldkey newkey key channel) otherChannel.name irc := by
            intro other isIn otherChannel shares
            have before := canOpen other (List.mem_cons_of_mem key isIn) otherChannel
            rw [sharedChannel, ← others other isIn] at before
            exact canOpen_tell (before shares)
          let toldClient : Client Num :=
            { client.tell irc oldkey newkey key channel with sent, messages }
          obtain ⟨sent', messages', ends⟩ := @ih toldClient once canOpenLater
          refine ⟨sent', messages', (bind_of_ok told).trans (ends.trans ?_)⟩
          rw [announce, shared]
          simp only [toldClient, Client.tell]
          rw [moveIn_of_shared isNew shared, announce_congr others]

/-- The buffers once the query buffer, if it is open, has moved and has the notice. -/
def moveQuery (buffers : Buffers) (oldkey newnick : Bytes) (irc : Received) : Buffers :=
  match buffers oldkey with
  | none => buffers
  | some buffer =>
      Function.update (Function.update buffers oldkey none) (irccase newnick)
        (some (noticed (some buffer) newnick irc))

/-- The query buffer moves; it is open, so nothing is sent for the notice. -/
theorem changeQuery_ends
    : ∃ sent messages, changeQuery env irc oldkey newnick client
        = .ok () { client with
            sent, messages
            buffers := moveQuery client.buffers oldkey newnick irc } := by
  unfold changeQuery
  rw [get_bind]
  cases found : client.buffers oldkey with
  | none =>
      refine ⟨client.sent, client.messages, ?_⟩
      rw [moveQuery, found]
      rfl
  | some buffer =>
      simp only
      have moved : (if oldkey ≠ irccase newnick then
            Function.update (Function.update client.buffers oldkey none) (irccase newnick)
              (some { buffer with name := newnick })
          else Function.update client.buffers oldkey (some { buffer with name := newnick }))
          = Function.update (Function.update client.buffers oldkey none) (irccase newnick)
              (some { buffer with name := newnick }) := by
        split
        · rfl
        · next same => rw [not_not.mp same, Function.update_idem]
      rw [modify_bind, moved]
      have isOpen : CanOpen env { client with
          buffers := Function.update (Function.update client.buffers oldkey none) (irccase newnick)
            (some { buffer with name := newnick }) } newnick irc := by
        intro closed
        simp only [Function.update_self] at closed
        cases closed
      obtain ⟨sent, messages, ends⟩ := addToBuffer_ends isOpen
      refine ⟨sent, messages, ends.trans ?_⟩
      rw [moveQuery, found]
      simp only [Function.update_self, Function.update_idem]
      rfl

/-- `pairs` goes through the channels in this order: every channel once. -/
structure VisitsChannels (channels : Bytes → Option Channel) (order : List Bytes) : Prop where
  once : order.Nodup
  all : ∀ key, key ∈ order ↔ (channels key).isSome

/-- Once every channel was visited, all members have moved. -/
theorem moveIn_of_visits {state : IrcState} {order : List Bytes}
    (visits : VisitsChannels state.channels order)
    : { state with channels := moveIn state.channels oldkey newkey order }
      = state.editAllMembers (moveMember oldkey newkey) := by
  have same : moveIn state.channels oldkey newkey order
      = fun key => (state.channels key).map fun channel =>
          { channel with members := moveMember oldkey newkey channel.members } := by
    funext key
    rw [moveIn]
    split
    · rfl
    · next unvisited =>
      rw [visits.all, Option.not_isSome_iff_eq_none] at unvisited
      rw [unvisited]
      rfl
  rw [same]
  rfl

/-- What the requests that are sent on the way need. -/
structure CanSend (env : Environment Num) (client : Client Num) (irc : Received)
    (order : List Bytes) (oldnick newnick : Bytes)
    : Prop where
  retract : CanRetract env client oldnick newnick
  opens : ∀ key ∈ order, ∀ channel,
    sharedChannel client.irc.channels (irccase oldnick) key = some channel
    → CanOpen env client channel.name irc

/-- What the handler does to `irc_state` once the client's own nick was looked at. -/
def renameState (state : IrcState) (oldnick newnick : Bytes) : IrcState :=
  let (state, user) := state.getUser oldnick
  { state with
    users := renameUser state.users user (irccase oldnick) (irccase newnick) newnick
    }.editAllMembers (moveMember (irccase oldnick) (irccase newnick))

/-- If its requests can be sent, the handler ends: one part after the other is done. -/
theorem nick_ends {order : List Bytes} (isFrom : irc.nick = some oldnick)
    (isTo : irc.args.head? = some newnick) (visits : VisitsChannels client.irc.channels order)
    (canSend : CanSend env client irc order oldnick newnick)
    : ∃ own sent messages,
        nick env irc order client
          = .ok () { client with
              sent, messages
              irc := renameState own oldnick newnick
              buffers := moveQuery
                (announce client.irc.channels (irccase oldnick) irc order client.buffers)
                (irccase oldnick) newnick irc
              talkTarget :=
                if client.talkTarget = some (irccase oldnick) then some (irccase newnick)
                else client.talkTarget }
        ∧ (client.hasNick = true → ownNick client.irc oldnick newnick = some own)
        ∧ own.users = client.irc.users
        ∧ own.channels = client.irc.channels := by
  obtain ⟨own, sent, messages, owned, isOwn, sameUsers, sameChannels⟩ :=
    changeOwnNick_ends canSend.retract
  have channels : (own.getUser oldnick).1.channels = client.irc.channels := sameChannels
  let renamed : Client Num := { client with
    sent, messages
    irc := { (own.getUser oldnick).1 with
      users := renameUser (own.getUser oldnick).1.users (own.getUser oldnick).2 (irccase oldnick)
        (irccase newnick) newnick } }
  have changed : changeUser oldnick newnick { client with irc := own, sent, messages }
      = .ok () renamed := rfl
  obtain ⟨sent', messages', members⟩ :=
    @changeMembers_ends _ env renamed irc (irccase oldnick) (irccase newnick) _ visits.once
      (by rw [show renamed.irc.channels = client.irc.channels from channels]; exact canSend.opens)
  let told : Client Num := { renamed with
    sent := sent', messages := messages'
    irc := { renamed.irc with
      channels := moveIn renamed.irc.channels (irccase oldnick) (irccase newnick) order }
    buffers := announce renamed.irc.channels (irccase oldnick) irc order renamed.buffers }
  obtain ⟨sent'', messages'', query⟩ :=
    @changeQuery_ends _ env told irc newnick (irccase oldnick)
  refine ⟨own, sent'', messages'', ?_, isOwn, sameUsers, sameChannels⟩
  unfold nick
  simp only [isFrom, isTo]
  refine (bind_of_ok owned).trans ((bind_of_ok changed).trans ((bind_of_ok members).trans
    ((bind_of_ok query).trans ?_)))
  have visitsRenamed : VisitsChannels renamed.irc.channels order := channels ▸ visits
  have moved := @moveIn_of_visits (irccase oldnick) (irccase newnick) _ _ visitsRenamed
  change EStateM.Result.ok () _ = _
  simp only [told, moved]
  rw [show renamed.irc.channels = client.irc.channels from channels]
  rfl

/-- The handler stops where the request for the history of a channel is refused. -/
theorem nick_stops_of_refused {key : Bytes} {order : List Bytes} {channel : Channel}
    (isFrom : irc.nick = some oldnick) (isTo : irc.args.head? = some newnick)
    (canRetract : CanRetract env client oldnick newnick)
    (shared : sharedChannel client.irc.channels (irccase oldnick) key = some channel)
    (closed : client.buffers (irccase channel.name) = none) (asks : client.hasChathistory = true)
    (refused : Refused (lit "CHATHISTORY")
      (textsOf env.numeral (historyRequest env client (irccase channel.name) irc.timeTag)))
    : ∃ text after, nick env irc (key :: order) client = .error (.raises text) after := by
  obtain ⟨own, sent, messages, owned, _, _, sameChannels⟩ := changeOwnNick_ends canRetract
  let renamed : Client Num := { client with
    sent, messages
    irc := { (own.getUser oldnick).1 with
      users := renameUser (own.getUser oldnick).1.users (own.getUser oldnick).2 (irccase oldnick)
        (irccase newnick) newnick } }
  have changed : changeUser oldnick newnick { client with irc := own, sent, messages }
      = .ok () renamed := rfl
  have there : sharedChannel renamed.irc.channels (irccase oldnick) key = some channel := by
    rw [← shared, ← sameChannels]
    rfl
  obtain ⟨found, isMember⟩ := Option.filter_eq_some_iff.mp there
  let moved : Client Num := { renamed with
    irc := { renamed.irc with
      channels := Function.update renamed.irc.channels key
        (some { channel with
          members := moveMember (irccase oldnick) (irccase newnick) channel.members }) } }
  obtain ⟨text, after, raises⟩ :=
    @addToBuffer_stops _ env moved channel.name irc closed asks refused
  have stops : changeMember env irc (irccase oldnick) (irccase newnick) key renamed
      = .error (.raises text) after := by
    unfold changeMember
    rw [get_bind, found]
    simp only [if_pos isMember]
    rw [modify_bind]
    exact raises
  refine ⟨text, after, ?_⟩
  unfold nick
  simp only [isFrom, isTo]
  exact (bind_of_ok owned).trans ((bind_of_ok changed).trans
    (bind_of_error (bind_of_error stops)))

/-- When the client has the nick back that it wants, but the server has no `MONITOR`, the handler
raises: the client's own nick is changed already, but its user, its members and its buffers are
still under the old one.
-/
theorem nick_stops_of_unmonitored {order : List Bytes} (isFrom : irc.nick = some oldnick)
    (isTo : irc.args.head? = some newnick) (own : client.nick = some oldnick)
    (recovers : client.irc.recoverNick = some (irccase newnick))
    (unmonitored : client.irc.monitor = none)
    (accepted : ¬ Refused (lit "MONITOR")
      (textsOf env.numeral (monitorArgs newnick : List (Argument Num))))
    : ∃ after,
        nick env irc order client
          = .error (.raises "attempt to index a nil value (field 'monitor')") after
        ∧ after.irc.nick = newnick
        ∧ after.irc.users = client.irc.users
        ∧ after.irc.channels = client.irc.channels
        ∧ after.buffers = client.buffers := by
  let handed := client.handOver (lineOf (lit "MONITOR")
      (textsOf env.numeral (monitorArgs newnick : List (Argument Num))))
    (sentMsg env (lit "MONITOR") (monitorArgs newnick))
  have stops : changeOwnNick env oldnick newnick client
      = .error (.raises "attempt to index a nil value (field 'monitor')")
        { handed with irc := { client.irc with nick := newnick, recoverNick := none } } := by
    unfold changeOwnNick
    rw [get_bind, if_pos own, modify_bind, if_pos recovers, modify_bind,
      bind_of_ok (send_of_other (by decide) accepted), get_bind]
    simp only [Client.handOver, IrcState.delMonitor, unmonitored, Option.map_none]
    rfl
  refine ⟨{ handed with irc := { client.irc with nick := newnick, recoverNick := none } }, ?_, rfl,
    rfl, rfl, rfl⟩
  unfold nick
  simp only [isFrom, isTo]
  exact bind_of_error stops

/-- The handler does to `irc_state` what it does in the model without messages and buffers. -/
theorem nick_renameState {state own : IrcState} {args : List Bytes}
    (isTo : args.head? = some newnick) (isOwn : ownNick state oldnick newnick = some own)
    : Membership.nick state { nick := some oldnick, args }
      = some (renameState own oldnick newnick) := by
  have first : ({ nick := some oldnick, args } : Message).arg 1 = some newnick := by
    rw [Message.arg, ← isTo, List.head?_eq_getElem?]
  rw [Membership.nick, first]
  change (ownNick state oldnick newnick).bind _ = _
  rw [isOwn]
  rfl

/-- The handler refines the one of the model without messages and buffers. -/
theorem nick_refines {order : List Bytes} (hasNick : client.hasNick = true)
    (isFrom : irc.nick = some oldnick) (isTo : irc.args.head? = some newnick)
    (visits : VisitsChannels client.irc.channels order)
    (canSend : CanSend env client irc order oldnick newnick)
    : ∃ after,
        nick env irc order client = .ok () after
        ∧ Membership.nick client.irc { nick := irc.nick, args := irc.args } = some after.irc := by
  obtain ⟨own, sent, messages, ends, isOwn, _, _⟩ := nick_ends isFrom isTo visits canSend
  refine ⟨_, ends, ?_⟩
  rw [isFrom]
  exact nick_renameState isTo (isOwn hasNick)

end Snowcone.Chat
