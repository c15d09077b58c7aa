import Mathlib.Data.Set.Insert
import Snowcone.Membership.Handlers

/-! What a server announces of who is in which channel, and the runs of the client that is
told so. What the announcements say is kept apart from the tables of the client.
-/

namespace Snowcone.Membership

open Bytes LuaPattern
open Sending (irccase TokenValue)

/-- An entry of a names reply: at most one status mark, a nick, and what servers may send
behind it.
-/
structure NamesEntry where
  status : Option Byte
  nick : Bytes
  userhost : Bytes

/-- An entry as it is sent. -/
def NamesEntry.text (entry : NamesEntry) : Bytes :=
  entry.status.toList ++ entry.nick ++ entry.userhost

/-- A names reply as it is sent: its entries with single spaces between them, and some more
spaces at its end.
-/
def namesText (spaces : Nat) : List NamesEntry → Bytes
  | [] => List.replicate spaces (chr ' ')
  | [entry] => entry.text ++ List.replicate spaces (chr ' ')
  | entry :: entries => entry.text ++ chr ' ' :: namesText spaces entries

/-- What a server tells a client about channels and users. The arguments `more` are not read
by the handlers.
-/
inductive Announcement where
  | join (who channel : Bytes) (more : List Bytes)
  | names (client symbol channel : Bytes) (entries : List NamesEntry) (spaces : Nat)
  | part (who channel : Bytes) (more : List Bytes)
  | kick (kicker : Option Bytes) (channel target : Bytes) (more : List Bytes)
  | quit (who : Bytes) (more : List Bytes)
  | nick (old new : Bytes)
  | away (who : Bytes) (message : Option Bytes)
  | isAway (client who message : Bytes)
  | online (client list : Bytes)
  | offline (client list : Bytes)
  | statusMarks (modes marks : Bytes)
  | monitoring (value : Option TokenValue)

/-- The handler for an announcement, called with the message that makes it. -/
def deliver (state : IrcState) : Announcement → Option IrcState
  | .join who channel more => join state { nick := some who, args := channel :: more }
  | .names client symbol channel entries spaces =>
      rplNamreply state
        { nick := none, args := [client, symbol, channel, namesText spaces entries] }
  | .part who channel more => part state { nick := some who, args := channel :: more }
  | .kick kicker channel target more =>
      kick state { nick := kicker, args := channel :: target :: more }
  | .quit who more => quit state { nick := some who, args := more }
  | .nick old new => nick state { nick := some old, args := [new] }
  | .away who message => away state { nick := some who, args := message.toList }
  | .isAway client who message =>
      rplAway state { nick := none, args := [client, who, message] }
  | .online client list => rplMononline state { nick := none, args := [client, list] }
  | .offline client list => rplMonoffline state { nick := none, args := [client, list] }
  | .statusMarks modes marks =>
      isupportPrefix state (some (.text (lit "(" ++ modes ++ lit ")" ++ marks)))
  | .monitoring value => some (isupportMonitor state value)

/-- Who is in which channel: the client's nick as it was last announced, the channels that
the client is in, and the nicks that are present in each, names and nicks in IRC case; and
the status marks of the server, and whether it lets the client monitor nicks.
-/
structure Presence where
  own : Bytes
  joined : Set Bytes
  present : Bytes → Set Bytes
  marks : Bytes
  monitors : Bool

/-- At the start the client is in no channel. -/
def Presence.new (nick : Bytes) : Presence :=
  { own := nick, joined := ∅, present := fun _ => ∅, marks := lit "@+", monitors := false }

/-- Someone is present in a channel from now on. -/
def Presence.enter (presence : Presence) (channel who : Bytes) : Presence :=
  { presence with
    present := Function.update presence.present channel
      (insert who (presence.present channel)) }

/-- Someone is no longer present in a channel. -/
def Presence.leave (presence : Presence) (channel who : Bytes) : Presence :=
  { presence with
    present := Function.update presence.present channel
      (presence.present channel \ {who}) }

/-- The client comes into a channel, where it knows of nobody yet. -/
def Presence.comeIn (presence : Presence) (channel : Bytes) : Presence :=
  { presence with
    joined := insert channel presence.joined
    present := Function.update presence.present channel ∅ }

/-- The client goes out of a channel. -/
def Presence.goOut (presence : Presence) (channel : Bytes) : Presence :=
  { presence with joined := presence.joined \ {channel} }

/-- Someone leaves a channel, be it the client or another. -/
def Presence.removed (presence : Presence) (who channel : Bytes) : Presence :=
  if who = presence.own then presence.goOut (irccase channel)
  else presence.leave (irccase channel) (irccase who)

/-- What an announcement changes. -/
def Presence.after (presence : Presence) : Announcement → Presence
  | .join who channel _ =>
      let before :=
        if who = presence.own then presence.comeIn (irccase channel) else presence
      before.enter (irccase channel) (irccase who)
  | .names _ _ channel entries _ =>
      entries.foldl (fun presence entry =>
        presence.enter (irccase channel) (irccase entry.nick)) presence
  | .part who channel _ => presence.removed who channel
  | .kick _ channel target _ => presence.removed target channel
  | .quit who _ =>
      { presence with present := fun channel => presence.present channel \ {irccase who} }
  | .nick old new =>
      { presence with
        own := if old = presence.own then new else presence.own
        present := fun channel =>
          (fun who => if who = irccase old then irccase new else who)
            '' presence.present channel }
  | .statusMarks _ marks => { presence with marks }
  | .monitoring value => { presence with monitors := value.isSome }
  | .away .. | .isAway .. | .online .. | .offline .. => presence

/-- What a run of announcements says. -/
def presenceAfter (nick : Bytes) (announced : List Announcement) : Presence :=
  announced.foldl Presence.after (Presence.new nick)

/-- An entry of a names reply has at most one mark, and its nick has no character that a
nick cannot have.
-/
structure NamesEntry.WellFormed (marks : Bytes) (entry : NamesEntry) : Prop where
  status : ∀ mark ∈ entry.status, mark ∈ marks ∧ mark ≠ chr ' '
  nonempty : entry.nick ≠ []
  plain : ∀ c ∈ entry.nick, c ≠ chr '!' ∧ c ≠ chr '@' ∧ c ≠ chr ' '
  unmarked : ∀ c ∈ entry.nick.head?, c ∉ marks
  userhost : entry.userhost = [] ∨ ∃ text, entry.userhost = chr '!' :: text ∧ chr ' ' ∉ text

/-- The client's own nick is spelled as it was last announced. -/
def Presence.Spelled (presence : Presence) (who : Bytes) : Prop :=
  irccase who = irccase presence.own → who = presence.own

/-- An announcement that a server can make: it is about channels that the client is in, a
nick that someone takes is not visible there, and nobody is told of the own `QUIT`.
-/
def Presence.Consistent (presence : Presence) : Announcement → Prop
  | .join who channel _ =>
      presence.Spelled who ∧ (who = presence.own ↔ irccase channel ∉ presence.joined)
  | .names _ _ channel entries _ =>
      irccase channel ∈ presence.joined
      ∧ ∀ entry ∈ entries, entry.WellFormed presence.marks
  | .part who channel _ => presence.Spelled who ∧ irccase channel ∈ presence.joined
  | .kick _ channel target _ => presence.Spelled target ∧ irccase channel ∈ presence.joined
  | .quit who _ => irccase who ≠ irccase presence.own
  | .nick old new =>
      presence.Spelled old
      ∧ (irccase new ≠ irccase old →
        ∀ channel ∈ presence.joined, irccase new ∉ presence.present channel)
  | .statusMarks modes marks =>
      modes.length = marks.length ∧ chr ')' ∉ modes ∧ chr ')' ∉ marks
  | .online .. | .offline .. => presence.monitors = true
  | .monitoring _ | .away .. | .isAway .. => True

/-- The client refers to a user: a member does, or an entry of the monitor table. -/
def IrcState.Refers (state : IrcState) (address : Nat) : Prop :=
  (∃ key channel who member, state.channels key = some channel
    ∧ channel.members who = some member ∧ member.user = address)
  ∨ ∃ monitor key entry, state.monitor = some monitor
    ∧ monitor key = some entry ∧ entry.user = some address

/-- The runs of a client: announcements are handled one after the other, and between them
users that the client does not refer to may be collected.
-/
inductive Run (nick : Bytes) : List Announcement → IrcState → Prop
  | start : Run nick [] (IrcState.new nick)
  | announced {announced state announcement state'} (earlier : Run nick announced state)
    (consistent : (presenceAfter nick announced).Consistent announcement)
    (handled : deliver state announcement = some state')
    : Run nick (announced ++ [announcement]) state'
  | collected {announced state users} (earlier : Run nick announced state)
    (collects : WeakTable.Collects state.Refers state.users users)
    : Run nick announced { state with users }

/-- The tables agree with the announcements: their keys are the channels that the client is
in and the nicks that are present there, and every member has the user that stands in the
users table under its key.
-/
structure Agrees (presence : Presence) (state : IrcState) : Prop where
  channels : ∀ key, (state.channels key).isSome ↔ key ∈ presence.joined
  members : ∀ key channel, state.channels key = some channel →
    ∀ who, (channel.members who).isSome ↔ who ∈ presence.present key
  users : ∀ key channel who member, state.channels key = some channel →
    channel.members who = some member →
    irccase (state.users.heap member.user).nick = who
    ∧ state.users.entries who = some member.user

/-- The user of every membership that someone has. -/
def IrcState.EachMembership (state : IrcState) (who : Bytes) (holds : User → Prop) : Prop :=
  ∀ key channel member, state.channels key = some channel →
    channel.members (irccase who) = some member → holds (state.users.heap member.user)

/-- An update of a user has reached every channel that the user is in. -/
def Reached (state : IrcState) : Announcement → Prop
  | .nick _ new => state.EachMembership new (fun user => user.nick = new)
  | .away who message => state.EachMembership who (fun user => user.away = message)
  | .isAway _ who message => state.EachMembership who (fun user => user.away = some message)
  | _ => True

end Snowcone.Membership
