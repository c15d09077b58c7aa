import Snowcone.Membership.Tables

/-! The state of the client follows what the server announces: the invariant, and the handlers
that keep it.
-/

namespace Snowcone.Membership

open Bytes
open Sending (irccase TokenValue)

/-- The invariant: the state of the client is what the announcements make it, and every user
stands under its nick in the users table.
-/
structure Tracks (presence : Presence) (state : IrcState) : Prop where
  own : state.nick = presence.own
  recovers : state.recoverNick = none
  marks : ∀ c, (state.prefixToMode [c]).isSome ↔ c ∈ presence.marks
  monitors : state.monitor.isSome = presence.monitors
  keyed : state.users.Keyed (fun user => irccase user.nick)
  tables : Tables state.users presence.joined presence.present state.channels

/-- A client that has just been welcomed. -/
theorem tracks_new (nick : Bytes) : Tracks (Presence.new nick) (IrcState.new nick) where
  own := rfl
  recovers := rfl
  marks := by
    intro c
    have marks : (Presence.new nick).marks = [chr '@', chr '+'] := rfl
    rw [marks]
    simp only [IrcState.new, Function.update_apply]
    by_cases isVoice : c = chr '+'
    · simp [isVoice, lit]
    · by_cases isOp : c = chr '@'
      · simp [isOp, lit, apply_ite]
      · simp [isVoice, isOp, lit]
  monitors := rfl
  keyed := WeakTable.keyed_empty _
  tables := ⟨by simp [IrcState.new, Presence.new], by rintro key channel ⟨⟩⟩

/-- What the invariant says of the tables. -/
theorem Tracks.agrees {presence : Presence} {state : IrcState} (tracks : Tracks presence state)
    : Agrees presence state where
  channels := tracks.tables.keys
  members := fun key channel isChannel => (tracks.tables.lists key channel isChannel).keys
  users := by
    intro key channel who member isChannel isMember
    have isEntry := (tracks.tables.lists key channel isChannel).shared who member isMember
    exact ⟨(tracks.keyed who member.user isEntry).1, isEntry⟩

/-- The user of a nick meets a condition. -/
def IrcState.UserIs (state : IrcState) (who : Bytes) (holds : User → Prop) : Prop :=
  ∃ user, state.users.entries (irccase who) = some user ∧ holds (state.users.heap user)

section Changes

variable {presence : Presence} {state : IrcState}

/-- What holds of the user of a nick holds of all the memberships that it has. -/
theorem Tracks.eachMembership (tracks : Tracks presence state) {who : Bytes}
    {holds : User → Prop} (userIs : state.UserIs who holds)
    : state.EachMembership who holds := by
  obtain ⟨user, isEntry, isSo⟩ := userIs
  intro key channel member isChannel isMember
  have shared := (tracks.tables.lists key channel isChannel).shared _ member isMember
  obtain rfl : user = member.user := Option.some.inj (isEntry.symm.trans shared)
  exact isSo

/-- A change of the users that keeps the entries of the members. -/
theorem Tracks.withUsers (tracks : Tracks presence state) {users : WeakTable Bytes User}
    (keyed : users.Keyed (fun user => irccase user.nick))
    (stays : ∀ key channel who member, state.channels key = some channel →
      channel.members who = some member → state.users.entries who = some member.user →
      users.entries who = some member.user)
    : Tracks presence { state with users } :=
  { tracks with
    keyed
    tables := ⟨tracks.tables.keys, fun key channel isChannel =>
      (tracks.tables.lists key channel isChannel).of_entries
        (fun who member isMember => stays key channel who member isChannel isMember)⟩ }

/-- Asking for a user keeps the invariant. -/
theorem Tracks.getUser (tracks : Tracks presence state) (nick : Bytes)
    : Tracks presence (state.getUser nick).1 :=
  tracks.withUsers (tracks.keyed.intern rfl)
    (fun _ _ _ _ _ _ isEntry => WeakTable.entries_intern_of_some isEntry)

/-- The user that was asked for stands in the table. -/
theorem entries_getUser (state : IrcState) (nick : Bytes)
    : (state.getUser nick).1.users.entries (irccase nick) = some (state.getUser nick).2 :=
  WeakTable.entries_intern_self ..

/-- Changing a user without its nick keeps the invariant. -/
theorem Tracks.modify (tracks : Tracks presence state) {user : Nat} {change : User → User}
    (keepsNick : (change (state.users.heap user)).nick = (state.users.heap user).nick)
    : Tracks presence { state with users := state.users.modify user change } :=
  tracks.withUsers (tracks.keyed.modify (congrArg irccase keepsNick))
    (fun _ _ _ _ _ _ isEntry => isEntry)

/-- Changing the members of a channel that is joined. -/
theorem Tracks.editMembers (tracks : Tracks presence state) {name : Bytes}
    {edit : Members → Members} {present : Set Bytes}
    (isJoined : irccase name ∈ presence.joined)
    (edits : ∀ members, Lists state.users (presence.present (irccase name)) members →
      Lists state.users present (edit members))
    : ∃ state', state.editMembers name edit = some state'
      ∧ Tracks { presence with
          present := Function.update presence.present (irccase name) present } state' := by
  obtain ⟨channel, isChannel⟩ := tracks.tables.channel_of_joined isJoined
  have tables := tracks.tables.put (irccase name)
    { channel with members := edit channel.members }
    (edits _ (tracks.tables.lists _ channel isChannel))
  rw [Set.insert_eq_of_mem isJoined] at tables
  exact ⟨_, congrArg (Option.map _) isChannel, { tracks with tables }⟩

/-- Someone comes into a channel that is joined, with the user of that nick. -/
theorem Tracks.enter (tracks : Tracks presence state) {name : Bytes}
    (isJoined : irccase name ∈ presence.joined) (who : Bytes) (modes : Bytes → Bool)
    : ∃ state', (state.getUser who).1.editMembers name (fun members =>
        Function.update members (irccase who) (some { user := (state.getUser who).2, modes }))
        = some state'
      ∧ Tracks (presence.enter (irccase name) (irccase who)) state' :=
  (tracks.getUser who).editMembers isJoined
    (fun _ lists => lists.enter (entries_getUser state who))

/-- Someone leaves a channel that is joined. -/
theorem Tracks.leave (tracks : Tracks presence state) {name : Bytes} (who : Bytes)
    (isJoined : irccase name ∈ presence.joined)
    : ∃ state', state.editMembers name (fun members => Function.update members who none)
        = some state'
      ∧ Tracks (presence.leave (irccase name) who) state' :=
  tracks.editMembers isJoined (fun _ lists => lists.leave who (fun _ _ => rfl))

/-- The client comes into a channel. -/
theorem Tracks.comeIn (tracks : Tracks presence state) (name : Bytes)
    : Tracks (presence.comeIn (irccase name)) { state with
        channels := Function.update state.channels (irccase name) (some (Channel.new name)) } :=
  { tracks with tables := tracks.tables.put (irccase name) (Channel.new name) (lists_empty _) }

/-- The client goes out of a channel. -/
theorem Tracks.goOut (tracks : Tracks presence state) (key : Bytes)
    : Tracks (presence.goOut key) { state with
        channels := Function.update state.channels key none } :=
  { tracks with tables := tracks.tables.remove key }

end Changes

-----------------------------------------------------------------------------------------
-- The handlers
-----------------------------------------------------------------------------------------

section Handlers

variable {presence : Presence} {state : IrcState}

/-- `JOIN`, of the client or of someone else. -/
theorem tracks_join (tracks : Tracks presence state) {who channel : Bytes} {more : List Bytes}
    (consistent : presence.Consistent (.join who channel more))
    : ∃ state', deliver state (.join who channel more) = some state'
      ∧ Tracks (presence.after (.join who channel more)) state' := by
  obtain ⟨-, isOwn⟩ := consistent
  by_cases own : who = presence.own
  · obtain ⟨state', edited, after⟩ :=
      (tracks.comeIn channel).enter (Set.mem_insert _ _) who (fun _ => false)
    refine ⟨state', ?_, ?_⟩
    · simpa [deliver, join, Message.arg, Member.new, own, tracks.own] using edited
    · simpa [Presence.after, own] using after
  · have isJoined : irccase channel ∈ presence.joined := by
      by_contra notJoined
      exact own (isOwn.mpr notJoined)
    obtain ⟨state', edited, after⟩ := tracks.enter isJoined who (fun _ => false)
    refine ⟨state', ?_, ?_⟩
    · simpa [deliver, join, Message.arg, Member.new, own, tracks.own] using edited
    · simpa [Presence.after, own] using after

/-- `PART`, of the client or of someone else. -/
theorem tracks_part (tracks : Tracks presence state) {who channel : Bytes} {more : List Bytes}
    (consistent : presence.Consistent (.part who channel more))
    : ∃ state', deliver state (.part who channel more) = some state'
      ∧ Tracks (presence.after (.part who channel more)) state' := by
  obtain ⟨-, isJoined⟩ := consistent
  by_cases own : who = presence.own
  · refine ⟨_, ?_, by simpa [Presence.after, Presence.removed, own] using tracks.goOut _⟩
    simp [deliver, part, Message.arg, own, tracks.own]
  · obtain ⟨state', edited, after⟩ := tracks.leave (irccase who) isJoined
    refine ⟨state', ?_, by simpa [Presence.after, Presence.removed, own] using after⟩
    simpa [deliver, part, Message.arg, own, tracks.own] using edited

/-- `KICK`, of the client or of someone else. -/
theorem tracks_kick (tracks : Tracks presence state) {kicker : Option Bytes}
    {channel target : Bytes} {more : List Bytes}
    (consistent : presence.Consistent (.kick kicker channel target more))
    : ∃ state', deliver state (.kick kicker channel target more) = some state'
      ∧ Tracks (presence.after (.kick kicker channel target more)) state' := by
  obtain ⟨-, isJoined⟩ := consistent
  by_cases own : target = presence.own
  · refine ⟨_, ?_, by simpa [Presence.after, Presence.removed, own] using tracks.goOut _⟩
    simp [deliver, kick, Message.arg, own, tracks.own]
  · obtain ⟨state', edited, after⟩ := tracks.leave (irccase target) isJoined
    refine ⟨state', ?_, by simpa [Presence.after, Presence.removed, own] using after⟩
    simpa [deliver, kick, Message.arg, own, tracks.own] using edited

/-- `QUIT`. -/
theorem tracks_quit (tracks : Tracks presence state) (who : Bytes) (more : List Bytes)
    : ∃ state', deliver state (.quit who more) = some state'
      ∧ Tracks (presence.after (.quit who more)) state' := by
  refine ⟨_, rfl, { tracks with keyed := tracks.keyed.remove _, tables := ?_ }⟩
  exact tracks.tables.map (fun members => Function.update members (irccase who) none)
    (fun _ _ _ lists => lists.leave (irccase who)
      (fun other isOther => WeakTable.entries_assign_of_ne isOther none))

/-- `AWAY` and `RPL_AWAY`. -/
theorem tracks_setAway (tracks : Tracks presence state) (who : Bytes) (message : Option Bytes)
    : Tracks presence (setAway state who message) :=
  (tracks.getUser who).modify rfl

/-- Whoever is said to be away is away. -/
theorem userIs_setAway (state : IrcState) (who : Bytes) (message : Option Bytes)
    : (setAway state who message).UserIs who (fun user => user.away = message) := by
  refine ⟨_, entries_getUser state who, ?_⟩
  simp only [setAway, WeakTable.heap_modify_self]

/-- An entry of a monitor list. -/
theorem tracks_addMonitor (tracks : Tracks presence state) (monitors : presence.monitors = true)
    (nick : Bytes) (online : Bool)
    : ∃ state', state.addMonitor nick online = some state' ∧ Tracks presence state' := by
  obtain ⟨monitor, isMonitor⟩ :=
    Option.isSome_iff_exists.mp (tracks.monitors.trans monitors)
  cases online with
  | false =>
      exact ⟨_, congrArg (Option.map _) isMonitor, { tracks with monitors := monitors.symm }⟩
  | true =>
      exact ⟨_, congrArg (Option.map _) isMonitor,
        { tracks.getUser nick with monitors := monitors.symm }⟩

/-- A monitor list, by induction on its entries. -/
theorem tracks_monitorList (tracks : Tracks presence state)
    (monitors : presence.monitors = true) (nicks : List Bytes) (online : Bool)
    : ∃ state', nicks.foldlM (fun state nick => state.addMonitor nick online) state
        = some state'
      ∧ Tracks presence state' := by
  induction nicks generalizing state with
  | nil => exact ⟨state, rfl, tracks⟩
  | cons nick nicks ih =>
      obtain ⟨middle, added, between⟩ := tracks_addMonitor tracks monitors nick online
      obtain ⟨state', later, after⟩ := ih between
      exact ⟨state', by rw [List.foldlM_cons, added]; exact later, after⟩

/-- `MONITOR` in the server's features. -/
theorem tracks_monitoring (tracks : Tracks presence state) (value : Option TokenValue)
    : Tracks (presence.after (.monitoring value)) (isupportMonitor state value) :=
  { tracks with
    monitors := by cases value <;> rfl }

/-- The client's own nick changes. -/
theorem tracks_ownNick (tracks : Tracks presence state) (old new : Bytes)
    : ∃ state', ownNick state old new = some state'
      ∧ Tracks { presence with own := if old = presence.own then new else presence.own } state'
      := by
  rw [ownNick, tracks.own]
  by_cases own : old = presence.own
  · refine ⟨{ state with nick := new }, ?_, { tracks with own := (if_pos own).symm }⟩
    simp [own, tracks.recovers]
  · refine ⟨state, if_neg own, ?_⟩
    rw [if_neg own]
    exact tracks

/-- A user that is renamed stands under its new nick. -/
theorem renameUser_keyed {users : WeakTable Bytes User}
    (keyed : users.Keyed (fun user => irccase user.nick)) {user : Nat} {oldkey newnick : Bytes}
    (isEntry : users.entries oldkey = some user)
    : (renameUser users user oldkey (irccase newnick) newnick).Keyed
      (fun user => irccase user.nick) := by
  by_cases rename : oldkey = irccase newnick
  · have sameKey : irccase newnick = irccase (users.heap user).nick :=
      rename.symm.trans (keyed _ _ isEntry).1.symm
    simp only [renameUser, ne_eq, rename, not_true_eq_false, if_false]
    exact keyed.modify sameKey
  · simp only [renameUser, ne_eq, rename, not_false_eq_true, if_true]
    exact keyed.rekey isEntry rfl

/-- A user that is renamed is found under its new key. -/
theorem entries_renameUser_new {users : WeakTable Bytes User} {user : Nat}
    {oldkey newkey newnick : Bytes} (isEntry : users.entries oldkey = some user)
    : (renameUser users user oldkey newkey newnick).entries newkey = some user := by
  by_cases rename : oldkey = newkey
  · simp [renameUser, ← rename, isEntry]
  · simp [renameUser, rename]

/-- A user that is renamed has its new nick. -/
theorem nick_renameUser (users : WeakTable Bytes User) (user : Nat)
    (oldkey newkey newnick : Bytes)
    : ((renameUser users user oldkey newkey newnick).heap user).nick = newnick := by
  by_cases rename : oldkey = newkey
  · simp [renameUser, rename]
  · simp [renameUser, rename]

/-- The other users stay where they are. -/
theorem entries_renameUser_of_ne {users : WeakTable Bytes User} {user : Nat}
    {oldkey newkey newnick other : Bytes} (notOld : other ≠ oldkey) (notNew : other ≠ newkey)
    : (renameUser users user oldkey newkey newnick).entries other = users.entries other := by
  by_cases rename : oldkey = newkey
  · simp [renameUser, rename]
  · simp [renameUser, rename, WeakTable.entries_assign_of_ne, notOld, notNew]

/-- A user is renamed, and its member moves. If only letter case changes, the keys stay. -/
theorem Lists.rename {users : WeakTable Bytes User} {present : Set Bytes} {members : Members}
    (lists : Lists users present members) {oldkey newkey newnick : Bytes} {user : Nat}
    (isEntry : users.entries oldkey = some user) (isFree : newkey ≠ oldkey → newkey ∉ present)
    : Lists (renameUser users user oldkey newkey newnick)
      ((fun who => if who = oldkey then newkey else who) '' present)
      (moveMember oldkey newkey members) := by
  by_cases rename : oldkey = newkey
  · subst rename
    have unchanged : (fun who => if who = oldkey then oldkey else who) = id := by
      funext who
      by_cases same : who = oldkey
      · exact (if_pos same).trans same.symm
      · exact if_neg same
    rw [unchanged, Set.image_id, moveMember_self]
    refine lists.of_entries ?_
    intro who member _ holds
    by_cases same : who = oldkey
    · subst same
      obtain rfl : user = member.user := Option.some.inj (isEntry.symm.trans holds)
      exact entries_renameUser_new isEntry
    · rwa [entries_renameUser_of_ne same same]
  · exact lists.move rename isEntry (isFree (Ne.symm rename)) (entries_renameUser_new isEntry)
      (fun other notOld notNew => entries_renameUser_of_ne notOld notNew)

/-- `NICK`, of the client or of someone else: the user has the new nick afterwards. -/
theorem tracks_nick (tracks : Tracks presence state) {old new : Bytes}
    (consistent : presence.Consistent (.nick old new))
    : ∃ state', deliver state (.nick old new) = some state'
      ∧ Tracks (presence.after (.nick old new)) state'
      ∧ state'.UserIs new (fun user => user.nick = new) := by
  obtain ⟨-, isFree⟩ := consistent
  obtain ⟨named, isNamed, between⟩ := tracks_ownNick tracks old new
  have asked := between.getUser old
  have isEntry := entries_getUser named old
  have handled : deliver state (.nick old new)
      = some ({ (named.getUser old).1 with
          users := renameUser (named.getUser old).1.users (named.getUser old).2 (irccase old)
            (irccase new) new }.editAllMembers (moveMember (irccase old) (irccase new))) := by
    change (ownNick state old new).bind _ = _
    rw [isNamed]
    rfl
  refine ⟨_, handled, { asked with
    keyed := renameUser_keyed asked.keyed isEntry
    tables := ?_ }, ⟨_, entries_renameUser_new isEntry, nick_renameUser ..⟩⟩
  exact asked.tables.map (moveMember (irccase old) (irccase new))
    (fun key isJoined _ lists =>
      lists.rename isEntry (fun rename => isFree rename key isJoined))

end Handlers

end Snowcone.Membership
