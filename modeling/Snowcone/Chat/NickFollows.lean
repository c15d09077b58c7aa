import Snowcone.Chat.Messages
import Snowcone.Chat.Renaming
import Snowcone.Foundations.Decimal

/-! Where users, members, buffers and the talk target are found after a change of nick, and what
the histories still hold.
-/

namespace Snowcone.Chat

open Bytes Action Snowcone.Membership
open Sending (Argument Refused BadTexts textsOf irccase)

variable {Num : Type} {env : Environment Num} {client : Client Num} {irc : Received}
  {oldnick newnick oldkey newkey : Bytes}

/-- The user under the new key is the one that was under the old key, with the new nick. -/
structure UserMoved (oldkey newkey newnick : Bytes) (before after : WeakTable Bytes User)
    (address : Nat)
    : Prop where
  found : after.entries newkey = some address
  named : (after.heap address).nick = newnick
  same : ∀ known, before.entries oldkey = some known →
    known = address ∧ after.heap address = { before.heap known with nick := newnick }
  left : oldkey ≠ newkey → after.entries oldkey = none
  others : ∀ key, key ≠ oldkey → key ≠ newkey → after.entries key = before.entries key
  objects : ∀ other, other ≠ address → after.heap other = before.heap other

/-- A member moves with all it has, and the other members stay. -/
structure MemberMoved (oldkey newkey : Bytes) (before after : Members) : Prop where
  found : ∀ member, before oldkey = some member → after newkey = some member
  left : oldkey ≠ newkey → after oldkey = none
  others : ∀ key, key ≠ oldkey → key ≠ newkey → after key = before key
  absent : before oldkey = none → after = before

/-- The objects of a user that is renamed. -/
theorem heap_renameUser (users : WeakTable Bytes User) (user : Nat)
    : (renameUser users user oldkey newkey newnick).heap
      = (users.modify user (fun object => { object with nick := newnick })).heap := by
  by_cases rename : oldkey = newkey
  · simp [renameUser, rename]
  · simp [renameUser, rename]

/-- The handler moves the user. -/
theorem userMoved_renameState (own : IrcState)
    : UserMoved (irccase oldnick) (irccase newnick) newnick own.users
        (renameState own oldnick newnick).users (own.getUser oldnick).2 := by
  have isEntry := entries_getUser own oldnick
  have users : (renameState own oldnick newnick).users
      = renameUser (own.getUser oldnick).1.users (own.getUser oldnick).2 (irccase oldnick)
          (irccase newnick) newnick := rfl
  rw [users]
  refine {
    found := entries_renameUser_new isEntry
    named := nick_renameUser ..
    same := fun known isKnown => ?_
    left := fun rename => ?_
    others := fun key notOld notNew => ?_
    objects := fun other isOther => ?_
  }
  · have asked : own.getUser oldnick = (own, known) := by
      rw [IrcState.getUser, WeakTable.intern_of_some isKnown]
    rw [asked, heap_renameUser, WeakTable.heap_modify_self]
    exact ⟨rfl, rfl⟩
  · simp only [renameUser, ne_eq, rename, not_false_eq_true, if_true]
    rw [WeakTable.entries_assign_of_ne rename, WeakTable.entries_assign_self]
  · rw [entries_renameUser_of_ne notOld notNew, IrcState.getUser]
    cases known : own.users.entries (irccase oldnick) with
    | some address => rw [WeakTable.intern_of_some known]
    | none =>
        rw [WeakTable.intern_of_none _ known]
        exact WeakTable.entries_assign_of_ne notOld _
  · rw [heap_renameUser, WeakTable.heap_modify_of_ne isOther]
    rw [IrcState.getUser] at isOther ⊢
    cases known : own.users.entries (irccase oldnick) with
    | some address => rw [WeakTable.intern_of_some known]
    | none =>
        rw [WeakTable.intern_of_none _ known] at isOther ⊢
        exact Function.update_of_ne isOther _ _

/-- The handler moves the members. -/
theorem memberMoved_moveMember (oldkey newkey : Bytes) (members : Members)
    : MemberMoved oldkey newkey members (moveMember oldkey newkey members) := by
  cases isMember : members oldkey with
  | none =>
      rw [moveMember_of_none isMember]
      exact {
        found := fun member found => by rw [isMember] at found; cases found
        left := fun _ => isMember
        others := fun _ _ _ => rfl
        absent := fun _ => rfl
      }
  | some member =>
      by_cases rename : oldkey = newkey
      · subst rename
        rw [moveMember_self]
        exact ⟨fun _ found => found, fun moves => absurd rfl moves, fun _ _ _ => rfl, fun _ => rfl⟩
      · rw [moveMember_of_some rename isMember]
        refine ⟨fun other found => ?_, fun _ => ?_, fun key notOld notNew => ?_, fun absent => ?_⟩
        · rw [Function.update_self, ← isMember, found]
        · rw [Function.update_of_ne rename, Function.update_self]
        · rw [Function.update_of_ne notNew, Function.update_of_ne notOld]
        · rw [isMember] at absent
          cases absent

/-- Whether the buffer under a key is that of a channel with the user. -/
def tells (channels : Bytes → Option Channel) (oldkey bufferKey key : Bytes) : Bool :=
  match sharedChannel channels oldkey key with
  | none => false
  | some channel => irccase channel.name = bufferKey

/-- How often the notice is put into the buffer that is under a key before the handler runs: once
for every channel it belongs to, and once more into the query buffer.
-/
def notices (channels : Bytes → Option Channel) (order : List Bytes) (oldkey key : Bytes) : Nat :=
  order.countP (tells channels oldkey key) + if key = oldkey then 1 else 0

/-- A buffer with a notice. -/
theorem holdsAfter_noticed {buffer before : Buffer} {count : Nat}
    (holdsAfter : buffer.HoldsAfter irc count before) (name : Bytes)
    : (noticed (some buffer) name irc).HoldsAfter irc (count + 1) before :=
  holdsAfter.log name

/-- The buffers of the channels stay, with their notices, by induction on the channels. -/
theorem announce_holdsAfter {channels : Bytes → Option Channel} {order : List Bytes}
    {buffers : Buffers} {key : Bytes} {buffer before : Buffer} {count : Nat}
    (found : buffers key = some buffer) (holdsAfter : buffer.HoldsAfter irc count before)
    : ∃ later, announce channels oldkey irc order buffers key = some later
        ∧ later.HoldsAfter irc (count + order.countP (tells channels oldkey key)) before := by
  induction order generalizing buffers buffer count with
  | nil => exact ⟨buffer, found, holdsAfter⟩
  | cons visited order ih =>
      rw [announce]
      cases shared : sharedChannel channels oldkey visited with
      | none =>
          have silent : tells channels oldkey key visited = false := by rw [tells, shared]
          rw [List.countP_cons_of_neg (by rw [silent]; exact Bool.false_ne_true)]
          exact ih found holdsAfter
      | some channel =>
          by_cases here : irccase channel.name = key
          · have told : tells channels oldkey key visited = true := by
              rw [tells, shared]
              exact decide_eq_true here
            rw [List.countP_cons_of_pos told, Nat.add_comm _ 1, ← Nat.add_assoc]
            refine @ih _ (noticed (buffers (irccase channel.name)) channel.name irc) _ ?_ ?_
            · simp only [here, Function.update_self]
            · rw [here, found]
              exact holdsAfter_noticed holdsAfter channel.name
          · have silent : tells channels oldkey key visited = false := by
              rw [tells, shared]
              exact decide_eq_false here
            rw [List.countP_cons_of_neg (by rw [silent]; exact Bool.false_ne_true)]
            refine ih ?_ holdsAfter
            simp only [Function.update_of_ne (Ne.symm here), found]

/-- A buffer that is not open and not that of a channel with the user stays closed. -/
theorem announce_of_closed {channels : Bytes → Option Channel} {order : List Bytes}
    {buffers : Buffers} {key : Bytes} (closed : buffers key = none)
    (silent : ∀ visited ∈ order, tells channels oldkey key visited = false)
    : announce channels oldkey irc order buffers key = none := by
  induction order generalizing buffers with
  | nil => exact closed
  | cons visited order ih =>
      rw [announce]
      have here := silent visited List.mem_cons_self
      refine ih ?_ (fun other isIn => silent other (List.mem_cons_of_mem visited isIn))
      rw [tells] at here
      cases shared : sharedChannel channels oldkey visited with
      | none => exact closed
      | some channel =>
          rw [shared] at here
          have other : key ≠ irccase channel.name := fun same => of_decide_eq_false here same.symm
          simp only [Function.update_of_ne other, closed]

/-- Other buffers than the query buffer stay where they are. -/
theorem moveQuery_of_ne {buffers : Buffers} {key : Bytes} (notOld : key ≠ oldkey)
    (notNew : key = irccase newnick → buffers oldkey = none)
    : moveQuery buffers oldkey newnick irc key = buffers key := by
  rw [moveQuery]
  cases found : buffers oldkey with
  | none => rfl
  | some buffer =>
      have other : key ≠ irccase newnick := by
        intro same
        rw [notNew same] at found
        cases found
      simp only [Function.update_of_ne other, Function.update_of_ne notOld]

/-- The query buffer is under the new key. -/
theorem moveQuery_of_some {buffers : Buffers} {buffer : Buffer}
    (found : buffers oldkey = some buffer)
    : moveQuery buffers oldkey newnick irc (irccase newnick)
      = some (noticed (some buffer) newnick irc) := by
  rw [moveQuery, found]
  exact Function.update_self _ _ _

/-- No buffer is left under the old key. -/
theorem moveQuery_left {buffers : Buffers} (rename : oldkey ≠ irccase newnick)
    : moveQuery buffers oldkey newnick irc oldkey = none := by
  rw [moveQuery]
  cases found : buffers oldkey with
  | none => exact found
  | some buffer => simp only [Function.update_of_ne rename, Function.update_self]

/-- A buffer is open under a key when the query buffer is about to move. -/
def IsOpen (client : Client Num) (order : List Bytes) (oldkey key : Bytes) : Prop :=
  (client.buffers key).isSome
  ∨ ∃ visited ∈ order, tells client.irc.channels oldkey key visited = true

/-- The query buffer does not move onto another buffer, which would be gone with all it holds. -/
def Apart (client : Client Num) (order : List Bytes) (oldkey newkey : Bytes) : Prop :=
  oldkey ≠ newkey → IsOpen client order oldkey oldkey → ¬ IsOpen client order oldkey newkey

/-- Everything that was under the old nick is under the new one. -/
structure Follows (irc : Received) (order : List Bytes) (oldnick newnick : Bytes)
    (before after : Client Num)
    : Prop where
  user : ∃ address, UserMoved (irccase oldnick) (irccase newnick) newnick before.irc.users
    after.irc.users address
  members : ∀ key channel, before.irc.channels key = some channel →
    ∃ members, after.irc.channels key = some { channel with members }
      ∧ MemberMoved (irccase oldnick) (irccase newnick) channel.members members
  query : ∀ buffer, before.buffers (irccase oldnick) = some buffer →
    ∃ moved, after.buffers (irccase newnick) = some moved
      ∧ moved.name = newnick
      ∧ moved.HoldsAfter irc (notices before.irc.channels order (irccase oldnick) (irccase oldnick))
        buffer
  queryLeft : irccase oldnick ≠ irccase newnick → after.buffers (irccase oldnick) = none
  talkTarget : after.talkTarget
    = if before.talkTarget = some (irccase oldnick) then some (irccase newnick)
      else before.talkTarget

/-- Every other buffer is still there, and its history only makes room for its notices. -/
def Keeps (irc : Received) (order : List Bytes) (oldkey : Bytes) (before after : Client Num)
    : Prop :=
  ∀ key buffer, key ≠ oldkey → before.buffers key = some buffer →
    ∃ later, after.buffers key = some later
      ∧ later.HoldsAfter irc (notices before.irc.channels order oldkey key) buffer

/-- If its requests can be sent, the handler ends and everything follows the nick; if moreover
the query buffer does not move onto another one, the other buffers are kept.
-/
theorem nick_follows {order : List Bytes} (isFrom : irc.nick = some oldnick)
    (isTo : irc.args.head? = some newnick) (visits : VisitsChannels client.irc.channels order)
    (canSend : CanSend env client irc order oldnick newnick)
    : ∃ after, nick env irc order client = .ok () after
        ∧ Follows irc order oldnick newnick client after
        ∧ (Apart client order (irccase oldnick) (irccase newnick)
            → Keeps irc order (irccase oldnick) client after) := by
  obtain ⟨own, sent, messages, ends, _, sameUsers, sameChannels⟩ :=
    nick_ends isFrom isTo visits canSend
  have announced : ∀ key buffer, client.buffers key = some buffer →
      ∃ later, announce client.irc.channels (irccase oldnick) irc order client.buffers key
          = some later
        ∧ later.HoldsAfter irc (order.countP (tells client.irc.channels (irccase oldnick) key))
          buffer := by
    intro key buffer found
    have later := @announce_holdsAfter irc (irccase oldnick) client.irc.channels order _ _ _ _ _
      found (holdsAfter_zero irc buffer)
    rwa [Nat.zero_add] at later
  refine ⟨_, ends, {
    user := ⟨_, sameUsers ▸ userMoved_renameState own⟩
    members := fun key channel found => ?_
    query := fun buffer found => ?_
    queryLeft := fun rename => moveQuery_left rename
    talkTarget := rfl
  }, fun apart key buffer notOld found => ?_⟩
  · refine ⟨moveMember (irccase oldnick) (irccase newnick) channel.members, ?_,
      memberMoved_moveMember _ _ _⟩
    change ((own.getUser oldnick).1.channels key).map _ = _
    rw [show (own.getUser oldnick).1.channels = client.irc.channels from sameChannels, found]
    rfl
  · obtain ⟨later, there, holdsAfter⟩ := announced _ buffer found
    refine ⟨_, moveQuery_of_some there, rfl, ?_⟩
    rw [notices, if_pos rfl]
    exact holdsAfter_noticed holdsAfter newnick
  · obtain ⟨later, there, holdsAfter⟩ := announced key buffer found
    refine ⟨later, (moveQuery_of_ne notOld ?_).trans there, ?_⟩
    · rintro rfl
      have openThere : IsOpen client order (irccase oldnick) (irccase newnick) :=
        Or.inl (by rw [found]; rfl)
      have closed : ¬ IsOpen client order (irccase oldnick) (irccase oldnick) :=
        fun isOpen => apart (Ne.symm notOld) isOpen openThere
      rw [IsOpen, not_or] at closed
      refine announce_of_closed (Option.not_isSome_iff_eq_none.mp closed.1) ?_
      intro visited isIn
      exact Bool.eq_false_iff.mpr fun told => closed.2 ⟨visited, isIn, told⟩
    · rw [notices, if_neg notOld]
      exact holdsAfter

/-- If the requests that are sent on the way can be sent and the query buffer does not move onto
another one, the handler of a change of nick ends; everything that was under the old nick is under
the new one, all other entries stay, and a history only makes room for the notices.
-/
theorem nick_keeps_everything (env : Environment Num) (client : Client Num) {order : List Bytes}
    (isFrom : irc.nick = some oldnick) (isTo : irc.args.head? = some newnick)
    (visits : VisitsChannels client.irc.channels order)
    (canSend : CanSend env client irc order oldnick newnick)
    (apart : Apart client order (irccase oldnick) (irccase newnick))
    : ∃ after, nick env irc order client = .ok () after
        ∧ Follows irc order oldnick newnick client after
        ∧ Keeps irc order (irccase oldnick) client after := by
  obtain ⟨after, ends, follows, keeps⟩ := nick_follows isFrom isTo visits canSend
  exact ⟨after, ends, follows, keeps apart⟩

-----------------------------------------------------------------------------------------
-- Runs on given clients
-----------------------------------------------------------------------------------------

/-- The change of a nick from `bob` to `rob`. -/
def bobsNick (timeTag : Option Bytes) : Received :=
  { nick := some (lit "bob"), args := [lit "rob"], timeTag, fromOper := false, statusmsg := none }

/-- A channel with `bob` as its member. -/
def bobsChannel : Channel :=
  {
    name := lit "#c"
    members := Function.update (fun _ => none) (irccase (lit "bob")) (some (Member.new 0))
  }

/-- A client that is in a channel with `bob`, with the given buffers. -/
def sharingClient (hasChathistory : Bool) (buffers : Buffers) : Client Nat :=
  { welcomedClient with
    irc := { IrcState.new (lit "me") with
      users := ((WeakTable.empty { nick := [], away := none }).intern (irccase (lit "bob"))
        { nick := lit "bob", away := none }).1
      channels := Function.update (fun _ => none) (irccase (lit "#c")) (some bobsChannel) }
    hasChathistory
    buffers }

/-- The buffers of the channel and of a query with `bob`. -/
def openBuffers (query : Buffer) : Buffers :=
  Function.update (Function.update (fun _ => none) (irccase (lit "#c")) (some (.new (lit "#c"))))
    (irccase (lit "bob")) (some query)

/-- The client is in one channel. -/
theorem visits_sharing (hasChathistory : Bool) (buffers : Buffers)
    : VisitsChannels (sharingClient hasChathistory buffers).irc.channels [irccase (lit "#c")] := by
  refine ⟨List.nodup_cons.mpr ⟨List.not_mem_nil, List.nodup_nil⟩, fun key => ?_⟩
  rw [List.mem_singleton]
  by_cases here : key = irccase (lit "#c")
  · rw [here]
    exact iff_of_true rfl rfl
  · refine iff_of_false here ?_
    change ¬ (Function.update (fun _ => none) (irccase (lit "#c")) (some bobsChannel) key).isSome
    rw [Function.update_of_ne here]
    exact Bool.false_ne_true

/-- `bob` is in it. -/
theorem shared_sharing (hasChathistory : Bool) (buffers : Buffers)
    : sharedChannel (sharingClient hasChathistory buffers).irc.channels (irccase (lit "bob"))
        (irccase (lit "#c"))
      = some bobsChannel :=
  rfl

/-- Nothing has to be sent when `bob` changes the nick. -/
theorem canSend_sharing (timeTag : Option Bytes) (buffers : Buffers)
    : CanSend plainEnvironment (sharingClient false buffers) (bobsNick timeTag)
        [irccase (lit "#c")] (lit "bob") (lit "rob") := by
  refine ⟨?_, ?_⟩
  · intro own
    change some (lit "me") = some (lit "bob") at own
    cases own
  · rintro key isIn channel shared closed ⟨⟩

/-- No buffer is in the way of the query buffer. -/
theorem apart_sharing (query : Buffer)
    : Apart (sharingClient false (openBuffers query)) [irccase (lit "#c")] (irccase (lit "bob"))
        (irccase (lit "rob")) := by
  rintro _ _ (isOpen | ⟨visited, isIn, told⟩)
  · cases isOpen
  · rw [List.mem_singleton] at isIn
    subst isIn
    cases told

/-- A user in a channel, with whom there is a query, changes the nick. -/
theorem nick_keeps_everything_witness
    : ∃ after,
        nick plainEnvironment (bobsNick none) [irccase (lit "#c")]
            (sharingClient false (openBuffers (.new (lit "bob"))))
          = .ok () after
        ∧ Follows (bobsNick none) [irccase (lit "#c")] (lit "bob") (lit "rob")
            (sharingClient false (openBuffers (.new (lit "bob")))) after
        ∧ Keeps (bobsNick none) [irccase (lit "#c")] (irccase (lit "bob"))
            (sharingClient false (openBuffers (.new (lit "bob")))) after :=
  nick_keeps_everything plainEnvironment (sharingClient false (openBuffers (.new (lit "bob"))))
    rfl rfl (visits_sharing _ _) (canSend_sharing _ _) (apart_sharing _)

/-- Messages that fit into a history are all held, by induction on the messages. -/
theorem Buffer.Holds.logAll {buffer : Buffer} {entries : List Entry}
    (holds : buffer.Holds entries) {messages : List Received} (mention activity : Bool)
    (fits : entries.length + messages.length ≤ buffer.messages.max)
    : (messages.foldl (fun buffer irc => buffer.log irc mention activity) buffer).Holds
          ((messages.map Entry.received).reverse ++ entries)
        ∧ (messages.foldl (fun buffer irc => buffer.log irc mention activity) buffer).messages.max
          = buffer.messages.max := by
  induction messages generalizing buffer entries with
  | nil => exact ⟨holds, rfl⟩
  | cons irc messages ih =>
      rw [List.length_cons] at fits
      have logged := holds.log irc mention activity
      rw [List.take_of_length_le (by omega)] at logged
      have room := log_max buffer irc mention activity
      obtain ⟨later, sameRoom⟩ := ih logged (by rw [List.length_cons, room]; omega)
      rw [List.map_cons, List.reverse_cons, List.append_assoc, List.singleton_append]
      exact ⟨later, sameRoom.trans room⟩

/-- A message from `bob` with a number in it. -/
def said (i : Nat) : Received :=
  {
    nick := some (lit "bob")
    args := [lit "me", Decimal.digitsOf i]
    timeTag := none
    fromOper := false
    statusmsg := none
  }

/-- Different numbers make different messages. -/
theorem said_injective : Function.Injective said := by
  intro i j same
  have digits : Decimal.digitsOf i = Decimal.digitsOf j :=
    (List.cons.inj (List.cons.inj (congrArg Received.args same)).2).1
  rw [← Decimal.value_digitsOf i, digits, Decimal.value_digitsOf]

/-- A query with a full history: the messages `0` to `999`. -/
def fullQuery : Buffer :=
  ((List.range 1000).map said).foldl (fun buffer irc => buffer.log irc true true)
    (.new (lit "bob"))

/-- The history of the query, with its oldest message apart. -/
theorem holds_fullQuery
    : fullQuery.Holds
          ((((List.range 999).map fun i => Entry.received (said (i + 1))).reverse)
            ++ [.received (said 0)])
        ∧ fullQuery.messages.max = 1000 := by
  have isNew : (Buffer.new (lit "bob")).messages.max = 1000 := rfl
  have fits : ([] : List Entry).length + ((List.range 1000).map said).length
      ≤ (Buffer.new (lit "bob")).messages.max := by
    rw [List.length_nil, List.length_map, List.length_range, isNew]
  obtain ⟨holds, room⟩ := (holds_new (lit "bob")).logAll true true fits
  have split : List.range 1000 = 0 :: (List.range 999).map Nat.succ := List.range_succ_eq_map
  rw [fullQuery]
  refine ⟨?_, room.trans isNew⟩
  rw [List.append_nil] at holds
  refine Eq.mp (congrArg _ ?_) holds
  rw [List.map_map, split, List.map_cons, List.map_map, List.reverse_cons]
  rfl

/-- No message that was held in a buffer is lost. -/
def LosesNothing (before after : Client Num) : Prop :=
  ∀ key buffer entries entry,
    before.buffers key = some buffer
    → buffer.Holds entries
    → entry ∈ entries
    → ∃ key' buffer' entries',
        after.buffers key' = some buffer' ∧ buffer'.Holds entries' ∧ entry ∈ entries'

/-- The notice is not one of the messages. -/
theorem said_ne_bobsNick (i : Nat) (timeTag : Option Bytes)
    : Entry.received (said i) ≠ .received (bobsNick timeTag) := by
  intro same
  have sizes := congrArg List.length (congrArg Received.args (Entry.received.inj same))
  cases sizes

/-- A notice pushes the oldest message out of a full history. -/
theorem Buffer.Holds.pushOut {buffer : Buffer} {newer : List Entry} {oldest : Entry}
    (holds : buffer.Holds (newer ++ [oldest])) (full : newer.length + 1 = buffer.messages.max)
    (name : Bytes)
    : (noticed (some buffer) name irc).Holds (.received irc :: newer) := by
  have renamed : ({ buffer with name } : Buffer).Holds (newer ++ [oldest]) := holds
  have logged := renamed.log irc false false
  rw [show ({ buffer with name } : Buffer).messages.max = newer.length + 1 from full.symm,
    Nat.add_sub_cancel, List.take_left] at logged
  exact logged

/-- The buffers that are open afterwards. -/
theorem opened_sharing {query : Buffer} {key : Bytes} {buffer : Buffer}
    (found : moveQuery (announce (sharingClient false (openBuffers query)).irc.channels
        (irccase (lit "bob")) (bobsNick none) [irccase (lit "#c")] (openBuffers query))
      (irccase (lit "bob")) (lit "rob") (bobsNick none) key = some buffer)
    : buffer = noticed (some query) (lit "rob") (bobsNick none)
      ∨ buffer = noticed (some (.new (lit "#c"))) (lit "#c") (bobsNick none) := by
  have told : announce (sharingClient false (openBuffers query)).irc.channels
        (irccase (lit "bob")) (bobsNick none) [irccase (lit "#c")] (openBuffers query)
      = Function.update (openBuffers query) (irccase (lit "#c"))
          (some (noticed (some (.new (lit "#c"))) (lit "#c") (bobsNick none))) := rfl
  rw [told] at found
  by_cases isNew : key = irccase (lit "rob")
  · rw [isNew, @moveQuery_of_some _ _ _ _ query rfl] at found
    exact Or.inl (Option.some.inj found).symm
  · by_cases isChannel : key = irccase (lit "#c")
    · rw [isChannel, moveQuery_of_ne (by decide) (fun same => absurd same (by decide)),
        Function.update_self] at found
      exact Or.inr (Option.some.inj found).symm
    · by_cases isOld : key = irccase (lit "bob")
      · rw [isOld, moveQuery_left (by decide)] at found
        cases found
      · rw [moveQuery_of_ne isOld (fun same => absurd same isNew),
          Function.update_of_ne isChannel, openBuffers, Function.update_of_ne isOld,
          Function.update_of_ne isChannel] at found
        cases found

/-- The handler does not do all that is asked for: the notice pushes the oldest message out of the
full history of a query, and a request that `send` refuses, here for the closed buffer of a channel
and a time with a space in it, stops it.
-/
theorem nick_counterexample
    : (∃ after,
          nick plainEnvironment (bobsNick none) [irccase (lit "#c")]
              (sharingClient false (openBuffers fullQuery))
            = .ok () after
          ∧ ¬ LosesNothing (sharingClient false (openBuffers fullQuery)) after)
      ∧ ∃ text after,
          nick plainEnvironment (bobsNick (some (lit "a b"))) [irccase (lit "#c")]
              (sharingClient true (fun _ => none))
            = .error (.raises text) after := by
  constructor
  · obtain ⟨own, sent, messages, ends, _⟩ := @nick_ends _ _ _ (bobsNick none) _ _ _ rfl rfl
      (visits_sharing false (openBuffers fullQuery))
      (canSend_sharing none (openBuffers fullQuery))
    refine ⟨_, ends, fun losesNothing => ?_⟩
    obtain ⟨key, buffer, entries, found, holds, isIn⟩ := losesNothing (irccase (lit "bob"))
      fullQuery _ (.received (said 0)) rfl holds_fullQuery.1
      (List.mem_append_right _ (List.mem_singleton.mpr rfl))
    rcases opened_sharing found with rfl | rfl
    · have full : (((List.range 999).map fun i => Entry.received (said (i + 1))).reverse).length
          + 1 = fullQuery.messages.max := by
        rw [holds_fullQuery.2, List.length_reverse, List.length_map, List.length_range]
      rw [holds.unique (holds_fullQuery.1.pushOut full (lit "rob")), List.mem_cons] at isIn
      rcases isIn with notice | earlier
      · exact said_ne_bobsNick 0 none notice
      · obtain ⟨i, _, same⟩ := List.mem_map.mp (List.mem_reverse.mp earlier)
        exact Nat.succ_ne_zero i (said_injective (Entry.received.inj same))
    · have logged := Buffer.Holds.log (holds_new (lit "#c")) (bobsNick none) false false
      rw [holds.unique logged, List.take_nil, List.mem_singleton] at isIn
      exact said_ne_bobsNick 0 none isIn
  · refine nick_stops_of_refused rfl rfl ?_ (shared_sharing true _) rfl rfl (Or.inl (Or.inr ?_))
    · intro own
      change some (lit "me") = some (lit "bob") at own
      cases own
    · exact ⟨lit "timestamp=a b", by decide, Or.inr (Or.inl (by decide))⟩

end Snowcone.Chat
