import Snowcone.Foundations.LuaPattern
import Snowcone.Foundations.WeakTable
import Snowcone.Sending.Send

/-! The channels, their members and the users that `irc_state` keeps, and the handlers that
change them. A handler that raises an error, or does not end, has no result.
-/

namespace Snowcone.Membership

open Bytes LuaPattern
open Sending (irccase TokenValue)

/-- `User`. -/
structure User where
  nick : Bytes
  away : Option Bytes

/-- `Member`: a user, known by address, with the status modes it has in a channel. -/
structure Member where
  user : Nat
  modes : Bytes → Bool

/-- `Member(user)`. -/
def Member.new (user : Nat) : Member := { user, modes := fun _ => false }

/-- The members of a channel, under their nicks in IRC case. -/
abbrev Members := Bytes → Option Member

/-- `Channel`. -/
structure Channel where
  name : Bytes
  members : Members

/-- `Channel(name)`. -/
def Channel.new (name : Bytes) : Channel := { name, members := fun _ => none }

/-- An entry of the monitor table: a nick that is online comes with its user. -/
structure Monitored where
  user : Option Nat

/-- The part of `irc_state` that the handlers below read and change. -/
structure IrcState where
  nick : Bytes
  channels : Bytes → Option Channel
  users : WeakTable Bytes User
  prefixToMode : Bytes → Option Bytes
  recoverNick : Option Bytes
  monitor : Option (Bytes → Option Monitored)

/-- `M:_init`, with the nick that the welcome message names. -/
def IrcState.new (nick : Bytes) : IrcState :=
  { nick
    channels := fun _ => none
    users := WeakTable.empty { nick := [], away := none }
    prefixToMode :=
      Function.update (Function.update (fun _ => none) (lit "@") (some (lit "o")))
        (lit "+") (some (lit "v"))
    recoverNick := none
    monitor := none }

/-- The part of a message that the handlers below read. -/
structure Message where
  nick : Option Bytes
  args : List Bytes

/-- `irc[i]`. -/
def Message.arg (irc : Message) (i : Nat) : Option Bytes := irc.args[i - 1]?

/-- `Irc:get_user(nick)`, with the address of the user. -/
def IrcState.getUser (state : IrcState) (nick : Bytes) : IrcState × Nat :=
  let found := state.users.intern (irccase nick) { nick, away := none }
  ({ state with users := found.1 }, found.2)

/-- Change the members of `Irc:get_channel(name)`, which has to be there. -/
def IrcState.editMembers (state : IrcState) (name : Bytes) (edit : Members → Members)
    : Option IrcState :=
  (state.channels (irccase name)).map (fun channel =>
    { state with
      channels := Function.update state.channels (irccase name)
        (some { channel with members := edit channel.members }) })

/-- Change the members of every channel. -/
def IrcState.editAllMembers (state : IrcState) (edit : Members → Members) : IrcState :=
  { state with
    channels := fun key => (state.channels key).map (fun channel =>
      { channel with members := edit channel.members }) }

/-- `Irc:add_monitor(nick, online)`. -/
def IrcState.addMonitor (state : IrcState) (nick : Bytes) (online : Bool) : Option IrcState :=
  state.monitor.map (fun monitor =>
    if online then
      let (state, user) := state.getUser nick
      { state with
        monitor := some (Function.update monitor (irccase nick) (some { user := some user })) }
    else
      { state with
        monitor := some (Function.update monitor (irccase nick) (some { user := none })) })

/-- `Irc:del_monitor(nick)`. -/
def IrcState.delMonitor (state : IrcState) (nick : Bytes) : Option IrcState :=
  state.monitor.map (fun monitor =>
    { state with monitor := some (Function.update monitor (irccase nick) none) })

/-- The pattern `^%((.*)%)(.*)$` of a `PREFIX` token. -/
def prefixPattern : List (Item Byte) :=
  literal (lit "(") ++ [.openCapture, .single (fun _ => true) .many, .closeCapture]
    ++ literal (lit ")") ++ [.openCapture, .single (fun _ => true) .many, .closeCapture,
      .endOfSubject]

/-- The loop over the modes of a `PREFIX` token: each stands for the prefix at its place. -/
def prefixTable : Bytes → Bytes → (Bytes → Option Bytes) → Bytes → Option Bytes
  | [], _, table => table
  | mode :: modes, prefixes, table =>
      prefixTable modes prefixes.tail
        (Function.update table (prefixes.take 1) (some [mode]))

/-- `isupport_logic.PREFIX`. -/
def isupportPrefix (state : IrcState) : Option TokenValue → Option IrcState
  | some (.text arg) =>
      match stringMatch prefixPattern arg with
      | some [modes, prefixes] =>
          some { state with prefixToMode := prefixTable modes prefixes (fun _ => none) }
      | _ => none
  | _ => none

/-- `isupport_logic.MONITOR`. -/
def isupportMonitor (state : IrcState) (arg : Option TokenValue) : IrcState :=
  { state with monitor := if arg.isSome then some (fun _ => none) else none }

-----------------------------------------------------------------------------------------
-- The handlers
-----------------------------------------------------------------------------------------

/-- `M.JOIN`. -/
def join (state : IrcState) (irc : Message) : Option IrcState := do
  let state ←
    if irc.nick = some state.nick then do
      let channel ← irc.arg 1
      some { state with
        channels :=
          Function.update state.channels (irccase channel) (some (Channel.new channel)) }
    else some state
  let who ← irc.nick
  let (state, user) := state.getUser who
  let channel ← irc.arg 1
  state.editMembers channel (fun members =>
    Function.update members (irccase who) (some (Member.new user)))

/-- The pattern `([^!@ ]+)[^ ]*` of an entry; what a user has behind the nick is left out. -/
def entryPattern : List (Item Byte) :=
  [.openCapture, .single (fun c => c != chr '!' && c != chr '@' && c != chr ' ') .plus,
    .closeCapture, .single (· != chr ' ') .many]

/-- The loop that takes the status prefixes off an entry. It does not end when the empty
string is a status prefix and the entry has nothing else.
-/
def stripPrefixes (prefixToMode : Bytes → Option Bytes)
    : Bytes → (Bytes → Bool) → Option (Bytes × (Bytes → Bool))
  | [], modes => if (prefixToMode []).isSome then none else some ([], modes)
  | c :: entry, modes =>
      match prefixToMode [c] with
      | some mode => stripPrefixes prefixToMode entry (Function.update modes mode true)
      | none => some (c :: entry, modes)

/-- The body of the loop over the entries. -/
def nameEntry (name : Bytes) (state : IrcState) (entry : Bytes) : Option IrcState := do
  let (entry, modes) ← stripPrefixes state.prefixToMode entry (fun _ => false)
  let (state, user) := state.getUser entry
  state.editMembers name (fun members =>
    Function.update members (irccase entry) (some { user, modes }))

/-- `M[N.RPL_NAMREPLY]`. -/
def rplNamreply (state : IrcState) (irc : Message) : Option IrcState := do
  let name ← irc.arg 3
  let nicks ← irc.arg 4
  (gmatch entryPattern nicks).flatten.foldlM (nameEntry name) state

/-- `M.PART`. -/
def part (state : IrcState) (irc : Message) : Option IrcState := do
  let channel ← irc.arg 1
  if irc.nick = some state.nick then
    some { state with channels := Function.update state.channels (irccase channel) none }
  else do
    let who ← irc.nick
    state.editMembers channel (fun members => Function.update members (irccase who) none)

/-- `M.KICK`. -/
def kick (state : IrcState) (irc : Message) : Option IrcState := do
  let channel ← irc.arg 1
  let target ← irc.arg 2
  if target = state.nick then
    some { state with channels := Function.update state.channels (irccase channel) none }
  else
    state.editMembers channel (fun members => Function.update members (irccase target) none)

/-- `M.QUIT`. -/
def quit (state : IrcState) (irc : Message) : Option IrcState := do
  let nick ← irc.nick
  let key := irccase nick
  let state := state.editAllMembers (fun members => Function.update members key none)
  some { state with users := state.users.assign key none }

/-- The part of `M.NICK` that is about the client's own nick; what it sends is left out. -/
def ownNick (state : IrcState) (oldnick newnick : Bytes) : Option IrcState :=
  if oldnick = state.nick then
    let state := { state with nick := newnick }
    if state.recoverNick = some (irccase newnick) then
      { state with recoverNick := none }.delMonitor newnick
    else some state
  else some state

/-- The part of `M.NICK` that is about the users table: the user moves to its new key. -/
def renameUser (users : WeakTable Bytes User) (user : Nat) (oldkey newkey newnick : Bytes)
    : WeakTable Bytes User :=
  let users := users.modify user (fun object => { object with nick := newnick })
  if oldkey ≠ newkey then (users.assign oldkey none).assign newkey (some user) else users

/-- The part of `M.NICK` that is about one channel: the member moves to its new key. -/
def moveMember (oldkey newkey : Bytes) (members : Members) : Members :=
  match members oldkey with
  | none => members
  | some member =>
      if oldkey ≠ newkey then
        Function.update (Function.update members oldkey none) newkey (some member)
      else members

/-- `M.NICK`. -/
def nick (state : IrcState) (irc : Message) : Option IrcState := do
  let oldnick ← irc.nick
  let newnick ← irc.arg 1
  let oldkey := irccase oldnick
  let newkey := irccase newnick
  let state ← ownNick state oldnick newnick
  let (state, user) := state.getUser oldnick
  let users := renameUser state.users user oldkey newkey newnick
  some ({ state with users }.editAllMembers (moveMember oldkey newkey))

/-- Set what `Irc:get_user(nick)` is away with. -/
def setAway (state : IrcState) (nick : Bytes) (away : Option Bytes) : IrcState :=
  let (state, user) := state.getUser nick
  { state with users := state.users.modify user (fun object => { object with away }) }

/-- `M.AWAY`. -/
def away (state : IrcState) (irc : Message) : Option IrcState := do
  let nick ← irc.nick
  some (setAway state nick (irc.arg 1))

/-- `M[N.RPL_AWAY]`. -/
def rplAway (state : IrcState) (irc : Message) : Option IrcState := do
  let nick ← irc.arg 2
  some (setAway state nick (irc.arg 3))

/-- The pattern `([^!,]+)[^,]*,?` of an entry in a monitor list. -/
def monitorPattern : List (Item Byte) :=
  [.openCapture, .single (fun c => c != chr '!' && c != chr ',') .plus, .closeCapture,
    .single (· != chr ',') .many, .single (· == chr ',') .optional]

/-- `M[N.RPL_MONONLINE]`. -/
def rplMononline (state : IrcState) (irc : Message) : Option IrcState := do
  let list ← irc.arg 2
  (gmatch monitorPattern list).flatten.foldlM (fun state nick => state.addMonitor nick true)
    state

/-- `M[N.RPL_MONOFFLINE]`; the nick that it may ask for is left out. -/
def rplMonoffline (state : IrcState) (irc : Message) : Option IrcState := do
  let list ← irc.arg 2
  (gmatch monitorPattern list).flatten.foldlM (fun state nick => state.addMonitor nick false)
    state

end Snowcone.Membership
