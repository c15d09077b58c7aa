import Mathlib.Data.Set.Image
import Snowcone.Membership.Presence

/-! What the members tables and the channels table should hold, and what changes them. -/

namespace Snowcone.Membership

section Keys

variable {Value : Type} {table : Bytes → Option Value} {keys : Set Bytes}

/-- The keys of a table that gets an entry. -/
theorem isSome_update_some (agree : ∀ key, (table key).isSome ↔ key ∈ keys) (new : Bytes)
    (value : Value)
    : ∀ key, (Function.update table new (some value) key).isSome ↔ key ∈ insert new keys := by
  apply (Function.forall_update_iff table
    (fun key entry => entry.isSome ↔ key ∈ insert new keys)).mpr
  refine ⟨by simp, fun key isOther => ?_⟩
  rw [agree, Set.mem_insert_iff, or_iff_right isOther]

/-- The keys of a table that loses an entry. -/
theorem isSome_update_none (agree : ∀ key, (table key).isSome ↔ key ∈ keys) (old : Bytes)
    : ∀ key, (Function.update table old none key).isSome ↔ key ∈ keys \ {old} := by
  apply (Function.forall_update_iff table
    (fun key entry => entry.isSome ↔ key ∈ keys \ {old})).mpr
  refine ⟨by simp, fun key isOther => ?_⟩
  rw [agree, Set.mem_sdiff, Set.mem_singleton_iff, and_iff_left isOther]

end Keys

/-- A members table has the keys that it should have, and shares its users with the users
table.
-/
structure Lists (users : WeakTable Bytes User) (present : Set Bytes) (members : Members)
    : Prop where
  keys : ∀ who, (members who).isSome ↔ who ∈ present
  shared : ∀ who member, members who = some member → users.entries who = some member.user

section Members

variable {users users' : WeakTable Bytes User} {present : Set Bytes} {members : Members}

/-- A new channel has no members. -/
theorem lists_empty (users : WeakTable Bytes User) : Lists users ∅ (fun _ => none) :=
  ⟨by simp, by rintro who member ⟨⟩⟩

/-- A change of the users table that keeps the entries of the members. -/
theorem Lists.of_entries (lists : Lists users present members)
    (stays : ∀ who member, members who = some member →
      users.entries who = some member.user → users'.entries who = some member.user)
    : Lists users' present members :=
  ⟨lists.keys, fun who member isMember => stays who member isMember
    (lists.shared who member isMember)⟩

/-- A member comes in with its user. -/
theorem Lists.enter (lists : Lists users present members) {who : Bytes} {member : Member}
    (isEntry : users.entries who = some member.user)
    : Lists users (insert who present) (Function.update members who (some member)) := by
  refine ⟨isSome_update_some lists.keys who member, ?_⟩
  apply (Function.forall_update_iff members (fun who entry =>
    ∀ member, entry = some member → users.entries who = some member.user)).mpr
  refine ⟨?_, fun other _ => lists.shared other⟩
  rintro _ ⟨⟩
  exact isEntry

/-- A member goes; its entry in the users table may go as well. -/
theorem Lists.leave (lists : Lists users present members) (who : Bytes)
    (stays : ∀ other, other ≠ who → users'.entries other = users.entries other)
    : Lists users' (present \ {who}) (Function.update members who none) := by
  refine ⟨isSome_update_none lists.keys who, ?_⟩
  apply (Function.forall_update_iff members (fun who entry =>
    ∀ member, entry = some member → users'.entries who = some member.user)).mpr
  refine ⟨by rintro _ ⟨⟩, fun other isOther member isMember => ?_⟩
  rw [stays other isOther]
  exact lists.shared other member isMember

/-- A nick that is not there moves nobody. -/
theorem moveMember_of_none {oldkey newkey : Bytes} (isAbsent : members oldkey = none)
    : moveMember oldkey newkey members = members := by
  simp only [moveMember, isAbsent]

/-- A member moves to its new key. -/
theorem moveMember_of_some {oldkey newkey : Bytes} {member : Member} (rename : oldkey ≠ newkey)
    (isMember : members oldkey = some member)
    : moveMember oldkey newkey members
      = Function.update (Function.update members oldkey none) newkey (some member) := by
  simp only [moveMember, isMember, if_pos rename]

/-- A change of letter case alone moves nobody. -/
theorem moveMember_self (key : Bytes) (members : Members)
    : moveMember key key members = members := by
  rw [moveMember]
  cases members key with
  | none => rfl
  | some member => simp

/-- Replacing a nick that is not there changes nothing. -/
theorem image_of_not_mem {oldkey newkey : Bytes} (isAbsent : oldkey ∉ present)
    : (fun who => if who = oldkey then newkey else who) '' present = present := by
  have same : ∀ who ∈ present, (if who = oldkey then newkey else who) = who := by
    intro who isIn
    rw [if_neg (by rintro rfl; exact isAbsent isIn)]
  rw [Set.image_congr same, Set.image_id']

/-- Replacing a nick that is there. -/
theorem image_of_mem {oldkey newkey : Bytes} (isThere : oldkey ∈ present)
    : (fun who => if who = oldkey then newkey else who) '' present
      = insert newkey (present \ {oldkey}) := by
  ext who
  constructor
  · rintro ⟨other, isIn, rfl⟩
    by_cases same : other = oldkey
    · exact Or.inl (if_pos same)
    · simp only [if_neg same]
      exact Or.inr ⟨isIn, same⟩
  · rintro (rfl | ⟨isIn, differs⟩)
    · exact ⟨oldkey, isThere, if_pos rfl⟩
    · exact ⟨who, isIn, if_neg differs⟩

/-- A member moves with its user, where the new nick is not taken. -/
theorem Lists.move (lists : Lists users present members) {oldkey newkey : Bytes} {user : Nat}
    (rename : oldkey ≠ newkey) (isEntry : users.entries oldkey = some user)
    (isFree : newkey ∉ present)
    (hasMoved : users'.entries newkey = some user)
    (stays : ∀ other, other ≠ oldkey → other ≠ newkey →
      users'.entries other = users.entries other)
    : Lists users' ((fun who => if who = oldkey then newkey else who) '' present)
      (moveMember oldkey newkey members) := by
  have free : members newkey = none := by
    rw [← Option.not_isSome_iff_eq_none, lists.keys]
    exact isFree
  cases isMember : members oldkey with
  | none =>
      have isAbsent : oldkey ∉ present := by
        rw [← lists.keys, isMember]
        simp
      rw [moveMember_of_none isMember, image_of_not_mem isAbsent]
      refine lists.of_entries ?_
      intro who member found holds
      rw [stays who (by rintro rfl; rw [isMember] at found; cases found)
        (by rintro rfl; rw [free] at found; cases found), holds]
  | some member =>
      have isThere : oldkey ∈ present := by
        rw [← lists.keys, isMember]
        rfl
      obtain rfl : user = member.user :=
        Option.some.inj (isEntry.symm.trans (lists.shared oldkey member isMember))
      rw [moveMember_of_some rename isMember, image_of_mem isThere]
      have gone : Lists users' (present \ {oldkey}) (Function.update members oldkey none) := by
        have left : Lists users (present \ {oldkey}) (Function.update members oldkey none) :=
          lists.leave oldkey (fun _ _ => rfl)
        refine left.of_entries ?_
        intro who found isFound holds
        rw [stays who ?_ ?_, holds]
        · rintro rfl
          rw [Function.update_self] at isFound
          cases isFound
        · rintro rfl
          rw [Function.update_of_ne rename.symm, free] at isFound
          cases isFound
      exact gone.enter hasMoved

end Members

-----------------------------------------------------------------------------------------
-- The channels table
-----------------------------------------------------------------------------------------

/-- The channels table has the keys that it should have, and so has each members table. -/
structure Tables (users : WeakTable Bytes User) (joined : Set Bytes)
    (present : Bytes → Set Bytes) (channels : Bytes → Option Channel)
    : Prop where
  keys : ∀ key, (channels key).isSome ↔ key ∈ joined
  lists : ∀ key channel, channels key = some channel →
    Lists users (present key) channel.members

section Channels

variable {users users' : WeakTable Bytes User} {joined : Set Bytes}
  {present : Bytes → Set Bytes} {channels : Bytes → Option Channel}

/-- A channel that is joined is in the table. -/
theorem Tables.channel_of_joined (tables : Tables users joined present channels) {key : Bytes}
    (isJoined : key ∈ joined)
    : ∃ channel, channels key = some channel :=
  Option.isSome_iff_exists.mp ((tables.keys key).mpr isJoined)

/-- A channel that is in the table is joined. -/
theorem Tables.joined_of_channel (tables : Tables users joined present channels) {key : Bytes}
    {channel : Channel} (isChannel : channels key = some channel)
    : key ∈ joined := by
  rw [← tables.keys, isChannel]
  rfl

/-- A channel comes into the table, or takes the place of one that is there. -/
theorem Tables.put (tables : Tables users joined present channels) (key : Bytes)
    (channel : Channel) {present' : Set Bytes} (lists : Lists users present' channel.members)
    : Tables users (insert key joined) (Function.update present key present')
      (Function.update channels key (some channel)) := by
  refine ⟨isSome_update_some tables.keys key channel, ?_⟩
  apply (Function.forall_update_iff channels (fun other entry => ∀ found, entry = some found →
    Lists users (Function.update present key present' other) found.members)).mpr
  constructor
  · rintro _ ⟨⟩
    rwa [Function.update_self]
  · intro other isOther found isFound
    rw [Function.update_of_ne isOther]
    exact tables.lists other found isFound

/-- A channel goes from the table. -/
theorem Tables.remove (tables : Tables users joined present channels) (key : Bytes)
    : Tables users (joined \ {key}) present (Function.update channels key none) := by
  refine ⟨isSome_update_none tables.keys key, ?_⟩
  apply (Function.forall_update_iff channels (fun other entry => ∀ found, entry = some found →
    Lists users (present other) found.members)).mpr
  exact ⟨by rintro _ ⟨⟩, fun other _ => tables.lists other⟩

/-- The members of all the channels change, and the users with them. -/
theorem Tables.map (tables : Tables users joined present channels) (edit : Members → Members)
    {present' : Bytes → Set Bytes}
    (edits : ∀ key ∈ joined, ∀ members, Lists users (present key) members →
      Lists users' (present' key) (edit members))
    : Tables users' joined present' (fun key => (channels key).map (fun channel =>
      { channel with members := edit channel.members })) := by
  constructor
  · intro key
    rw [Option.isSome_map, tables.keys]
  · intro key found isFound
    obtain ⟨channel, isChannel, rfl⟩ := Option.map_eq_some_iff.mp isFound
    exact edits key (tables.joined_of_channel isChannel) _ (tables.lists key channel isChannel)

end Channels

end Snowcone.Membership
