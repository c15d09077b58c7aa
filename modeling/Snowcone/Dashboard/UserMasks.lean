import Snowcone.Dashboard.Users
import Snowcone.Foundations.Runs

/-! The masks of the clients: connecting makes them of nick, user, host and gecos, and a change of
the nick leaves the gecos out. Every client is found under its nick.
-/

namespace Snowcone.Dashboard

open Bytes Components Runs Sending

/-- A byte that was moved down is out of the range. -/
theorem not_lower_of_moved {b : Byte} (lower : 0x61 ≤ b ∧ b ≤ 0x7e)
    : ¬ (0x61 ≤ b - 0x20 ∧ b - 0x20 ≤ 0x7e) := by
  rintro ⟨low, -⟩
  rw [UInt8.le_iff_toNat_le] at low
  rw [UInt8.le_iff_toNat_le, UInt8.le_iff_toNat_le] at lower
  have small : (0x20 : Byte) ≤ b := UInt8.le_iff_toNat_le.mpr (Nat.le_trans (by decide) lower.1)
  have moved := UInt8.toNat_sub_of_le b 0x20 small
  have values : (0x61 : Byte).toNat = 97 ∧ (0x7e : Byte).toNat = 126 ∧ (0x20 : Byte).toNat = 32 :=
    ⟨rfl, rfl, rfl⟩
  omega

/-- Uppercase stays as it is. -/
theorem irccase_irccase (text : Bytes) : irccase (irccase text) = irccase text := by
  rw [irccase, irccase, List.map_map]
  refine List.map_congr_left fun b _ => ?_
  rw [Function.comp_apply]
  by_cases lower : 0x61 ≤ b ∧ b ≤ 0x7e
  · rw [if_pos lower, if_neg (not_lower_of_moved lower)]
  · rw [if_neg lower, if_neg lower]

/-- The mask of a client is made of its nick, user, host and gecos. -/
def FullMask (user : User) : Prop := user.mask = fullMask user.nick user.user user.host user.gecos

/-- The entries of `users` have keys that are their nicks, and some property. -/
structure Keyed (holds : User → Prop) (users : OrderedMap Bytes User)
    (h : History Bytes User) : Prop where
  rep : Represents users h
  positive : 0 < users.max
  keyfn : users.keyfn = some irccase
  nicks : ∀ entry ∈ h.entries, entry.key = some entry.val.nick
  holds : ∀ entry ∈ h.entries, holds entry.val

section Keeping

variable {holds : User → Prop} {users : OrderedMap Bytes User} {h : History Bytes User}

/-- The index key of a nick. -/
theorem Keyed.norm (keyed : Keyed holds users h) (name : Bytes)
    : users.norm name = irccase name := by
  rw [OrderedMap.norm, keyed.keyfn]

/-- What is found has the property, and its nick. -/
theorem Keyed.found (keyed : Keyed holds users h) {key : Bytes} {user : User}
    (found : users.lookup (some key) = some user)
    : holds user ∧ irccase user.nick = irccase key := by
  obtain ⟨entry, member, rfl, -, same⟩ := keyed.rep.lookup_sound found
  refine ⟨keyed.holds entry member, ?_⟩
  rw [keyed.nicks entry member, Option.map_some, Option.map_some, keyed.norm, keyed.norm] at same
  exact Option.some.inj same

/-- A client is found under every name that is its nick but for the case. -/
theorem Keyed.lookup (keyed : Keyed holds users h) {key name : Bytes} {user : User}
    (found : users.lookup (some key) = some user) (same : irccase name = irccase user.nick)
    : users.lookup (some name) = some user := by
  have isKey : users.norm name = users.norm key := by
    rw [keyed.norm, keyed.norm, same, (keyed.found found).2]
  rw [users.lookup_congr isKey]
  exact found

/-- A new entry comes in under its nick. -/
theorem Keyed.insert (keyed : Keyed holds users h) {user : User} (isGood : holds user)
    : ∃ h', Keyed holds (users.insert (some user.nick) user) h' := by
  have step := users.insert_inserted (some user.nick) user
  refine ⟨_, keyed.rep.insert keyed.positive (some user.nick) user, step.max ▸ keyed.positive,
    step.keyfn.trans keyed.keyfn, ?_, ?_⟩
  · intro entry member
    rcases List.mem_cons.mp member with rfl | older
    · rfl
    · exact keyed.nicks entry (List.mem_of_mem_take older)
  · intro entry member
    rcases List.mem_cons.mp member with rfl | older
    · exact isGood
    · exact keyed.holds entry (List.mem_of_mem_take older)

/-- An entry of a history that was changed in place. -/
theorem mem_mutate {norm : Bytes → Bytes} {key : Bytes} {change : User → User}
    {entry : Components.Entry Bytes User}
    (member : entry ∈ (h.mutate norm (some key) change).entries)
    : ∃ old ∈ h.entries, entry.id = old.id ∧ entry.key = old.key
      ∧ (entry.val = if h.bound (norm key) = some old.id then change old.val else old.val) := by
  simp only [History.mutate] at member
  cases bound : h.bound (norm key) with
  | none =>
      rw [bound] at member
      exact ⟨entry, member, rfl, rfl, by simp⟩
  | some id =>
      rw [bound] at member
      obtain ⟨old, isOld, rfl⟩ := List.mem_map.mp member
      refine ⟨old, isOld, ?_⟩
      by_cases same : old.id = id
      · simp [same]
      · simp [same, Ne.symm same]

/-- A change in place that keeps nick and property. -/
theorem Keyed.mutate (keyed : Keyed holds users h) (key : Bytes) {change : User → User}
    (nick : ∀ user, (change user).nick = user.nick)
    (kept : ∀ user, holds user → holds (change user))
    : ∃ h', Keyed holds (users.mutate (some key) change) h' := by
  obtain ⟨isMax, isKeyfn, -⟩ := users.mutate_fields (some key) change
  refine ⟨_, keyed.rep.mutate (some key) change, isMax ▸ keyed.positive,
    isKeyfn.trans keyed.keyfn, ?_, ?_⟩
  · intro entry member
    obtain ⟨old, isOld, -, sameKey, isVal⟩ := mem_mutate member
    have oldKey := keyed.nicks old isOld
    rw [sameKey, oldKey, isVal]
    split
    · rw [nick]
    · rfl
  · intro entry member
    obtain ⟨old, isOld, -, -, isVal⟩ := mem_mutate member
    rw [isVal]
    split
    · exact kept _ (keyed.holds old isOld)
    · exact keyed.holds old isOld

/-- A change of the nick together with the key. -/
theorem Keyed.rename (keyed : Keyed holds users h) (old : Bytes) {new : Bytes}
    {change : User → User} (nick : ∀ user, (change user).nick = new)
    (kept : ∀ user, holds user → holds (change user))
    : ∃ h', Keyed holds ((users.mutate (some old) change).rekey (some old) new) h' := by
  have isMutated := users.mutate_fields (some old) change
  have isRekeyed := (users.mutate (some old) change).rekey_fields (some old) new
  have norm : (users.mutate (some old) change).norm = users.norm := by
    funext key
    simp only [OrderedMap.norm, isMutated.2.1]
  have rep := (keyed.rep.mutate (some old) change).rekey (some old) new
  rw [norm] at rep
  have both : ∀ entry ∈
      ((h.mutate users.norm (some old) change).rekey users.norm (some old) new).entries,
      entry.key = some entry.val.nick ∧ holds entry.val := by
    intro entry member
    simp only [History.mutate, History.rekey] at member
    cases bound : h.bound (users.norm old) with
    | none =>
        simp only [bound] at member
        exact ⟨keyed.nicks entry member, keyed.holds entry member⟩
    | some id =>
        simp only [bound, List.map_map] at member
        obtain ⟨before, isBefore, rfl⟩ := List.mem_map.mp member
        have isKey := keyed.nicks before isBefore
        have isGood := keyed.holds before isBefore
        by_cases same : before.id = id
        · simp [same, nick, kept _ isGood]
        · simp [same, isKey, isGood]
  exact ⟨_, rep, by rw [isRekeyed.1, isMutated.1]; exact keyed.positive,
    by rw [isRekeyed.2, isMutated.2.1]; exact keyed.keyfn,
    fun entry member => (both entry member).1, fun entry member => (both entry member).2⟩

end Keeping

-----------------------------------------------------------------------------------------
-- The handlers
-----------------------------------------------------------------------------------------

section Handlers

variable {Regexp : Type} {lookups : Lookups Regexp} {state : Clients Regexp}
  {holds : User → Prop} {h : History Bytes User}

/-- The population has no effect on `users`. -/
@[simp] theorem populate_users (server : Bytes) (delta : Int)
    : (state.populate server delta).users = state.users := by
  rw [Clients.populate]
  split <;> rfl

/-- An effect has none on `users`. -/
@[simp] theorem note_users (effects : List Effect)
    : (state.note effects).users = state.users := rfl

/-- Asking for the own nick has no effect on `users`. -/
@[simp] theorem reclaim_users (nick : Bytes) : (state.reclaim nick).users = state.users := by
  rw [Clients.reclaim]
  split <;> rfl

/-- The watches mark the new entry, and nothing else. By induction on those that are hit. -/
theorem Keyed.marked {users : OrderedMap Bytes User} (keyed : Keyed holds users h) (key : Bytes)
    (hits : List (Watch Regexp))
    (kept : ∀ (watch : Watch Regexp) user, holds user → holds (watch.marked user))
    : ∃ h', Keyed holds
        (hits.foldl (fun users watch => users.mutate (some key) watch.marked) users) h' := by
  induction hits generalizing users h with
  | nil => exact ⟨h, keyed⟩
  | cons watch hits ih =>
      have nick (user : User) : (watch.marked user).nick = user.nick := rfl
      obtain ⟨h', keyed'⟩ := keyed.mutate key nick (kept watch)
      exact ih keyed'

/-- A client that connects. -/
theorem Keyed.connect (keyed : Keyed holds state.users h) (ev : Connect)
    (fresh : ∀ user : User, FullMask user → holds user)
    (kept : ∀ (watch : Watch Regexp) user, holds user → holds (watch.marked user))
    : ∃ h', Keyed holds (state.connect lookups ev).users h' := by
  obtain ⟨h', inserted⟩ := keyed.insert (fresh (state.entryFor lookups ev) rfl)
  refine Keyed.marked (h := h') ?_ ev.nick _ kept
  rw [populate_users]
  exact inserted

/-- What an exit changes in `users`. -/
theorem disconnect_users (state : Clients Regexp) (ev : Disconnect)
    : (state.disconnect lookups ev).users
      = state.users.mutate (some ev.nick) ({ · with reason := some ev.reason }) := by
  rw [Clients.disconnect, reclaim_users]
  dsimp only
  split
  · rw [note_users, note_users, populate_users, note_users]
  · rw [note_users, populate_users, note_users]

/-- A client that exits. -/
theorem Keyed.disconnect (keyed : Keyed holds state.users h) (ev : Disconnect)
    (kept : ∀ user reason, holds user → holds { user with reason })
    : ∃ h', Keyed holds (state.disconnect lookups ev).users h' := by
  have nick (user : User) : ({ user with reason := some ev.reason } : User).nick = user.nick := rfl
  rw [disconnect_users]
  exact keyed.mutate ev.nick nick (fun user => kept user (some ev.reason))

/-- The entry of a client with another nick. -/
def User.renamed (new : Bytes) (user : User) : User :=
  { user with nick := new, mask := nickUserHost new user.user user.host }

/-- What a change of a nick that is not there changes in `users`. -/
theorem nick_users_of_none {ev : NickChange} (missing : state.users.lookup (some ev.old) = none)
    : (state.nick ev).users = state.users := by
  rw [Clients.nick, missing, reclaim_users]

/-- What a change of a nick that is there changes in `users`. -/
theorem nick_users_of_some {ev : NickChange} {user : User}
    (found : state.users.lookup (some ev.old) = some user)
    : (state.nick ev).users
      = (state.users.mutate (some ev.old) (User.renamed ev.new)).rekey (some ev.old) ev.new := by
  rw [Clients.nick, found, reclaim_users]
  rfl

/-- A client that changes its nick. -/
theorem Keyed.nick (keyed : Keyed holds state.users h) (ev : NickChange)
    (kept : ∀ user, state.users.lookup (some ev.old) ≠ none → holds user
      → holds (user.renamed ev.new))
    : ∃ h', Keyed holds (state.nick ev).users h' := by
  cases found : state.users.lookup (some ev.old) with
  | none =>
      rw [nick_users_of_none found]
      exact ⟨h, keyed⟩
  | some user =>
      rw [nick_users_of_some found]
      refine keyed.rename ev.old (fun _ => rfl) (fun user => kept user ?_)
      rw [found]
      nofun

-----------------------------------------------------------------------------------------
-- Runs
-----------------------------------------------------------------------------------------

/-- A step of the dashboard. -/
def stepClient (lookups : Lookups Regexp) (state : Clients Regexp) (event : ClientEvent)
    : Option (Clients Regexp) :=
  some (state.handle lookups event)

/-- Every client that is found is found under its nick, in any case. -/
def FoundUnderNick (users : OrderedMap Bytes User) : Prop :=
  ∀ key user, users.lookup (some key) = some user →
    users.lookup (some user.nick) = some user
    ∧ users.lookup (some (irccase user.nick)) = some user

/-- After a change to a different nick no client is found under the old one. -/
def OldNickGone (before : Clients Regexp) (event : ClientEvent) (after : Clients Regexp) : Prop :=
  ∀ ev, event = .nick ev → before.users.lookup (some ev.old) ≠ none →
    irccase ev.old ≠ irccase ev.new → after.users.lookup (some ev.old) = none

/-- What is asked of `users` after an event. -/
structure MasksMeet (before : Clients Regexp) (event : ClientEvent) (after : Clients Regexp)
    : Prop where
  masks : ∀ key user, after.users.lookup (some key) = some user → FullMask user
  found : FoundUnderNick after.users
  gone : OldNickGone before event after

/-- No client that is found changes its nick. -/
def RenamesNobody (state : Clients Regexp) (event : ClientEvent) : Prop :=
  ∀ ev, event = .nick ev → state.users.lookup (some ev.old) = none

/-- A client is found under its nick. -/
theorem Keyed.foundUnderNick {users : OrderedMap Bytes User} (keyed : Keyed holds users h)
    : FoundUnderNick users :=
  fun _ user found => ⟨keyed.lookup found rfl, keyed.lookup found (irccase_irccase user.nick)⟩

/-- Every event keeps the keys, whatever the masks are. -/
theorem Keyed.handle (lookups : Lookups Regexp) (keyed : Keyed (fun _ => True) state.users h)
    (event : ClientEvent)
    : ∃ h', Keyed (fun _ => True) (state.handle lookups event).users h' := by
  cases event with
  | connect ev => exact keyed.connect ev (fun _ _ => trivial) (fun _ _ _ => trivial)
  | disconnect ev => exact keyed.disconnect ev (fun _ _ _ => trivial)
  | nick ev => exact keyed.nick ev (fun _ _ _ => trivial)

/-- The entry of a client that changed its nick, which is found under the new one only. -/
theorem Keyed.lookup_nick (keyed : Keyed holds state.users h) {ev : NickChange} {user : User}
    (found : state.users.lookup (some ev.old) = some user) (name : Bytes)
    : (state.nick ev).users.lookup (some name)
      = if irccase name = irccase ev.new then some (user.renamed ev.new)
        else if irccase name = irccase ev.old then none
        else state.users.lookup (some name) := by
  have norm (name : Bytes)
    : (state.users.mutate (some ev.old) (User.renamed ev.new)).norm name = irccase name := by
    rw [OrderedMap.norm, (state.users.mutate_fields _ _).2.1, keyed.keyfn]
  have mutated (name : Bytes) := keyed.rep.lookup_mutate ev.old name (User.renamed ev.new)
  have isRenamed
    : (state.users.mutate (some ev.old) (User.renamed ev.new)).lookup (some ev.old)
      = some (user.renamed ev.new) := by
    rw [mutated, if_pos rfl, found, Option.map_some]
  rw [nick_users_of_some found, OrderedMap.lookup_rekey isRenamed, norm, norm, norm, mutated,
    keyed.norm, keyed.norm]
  split
  · rfl
  · split <;> rfl

/-- No client is found under the nick that it gave up. -/
theorem Keyed.oldNickGone (keyed : Keyed holds state.users h) (event : ClientEvent)
    : OldNickGone state event (state.handle lookups event) := by
  rintro ev rfl isFound differs
  obtain ⟨user, found⟩ := Option.ne_none_iff_exists'.mp isFound
  exact (keyed.lookup_nick found ev.old).trans (by rw [if_neg differs, if_pos rfl])

/-- The mask that a change of the nick makes is not the full one: it lacks the gecos. -/
theorem not_fullMask_renamed (user : User) (new : Bytes) : ¬ FullMask (user.renamed new) := by
  intro full
  have lengths := congrArg List.length full
  simp only [User.renamed, fullMask, List.length_append] at lengths
  have sign : (lit "#").length = 1 := rfl
  omega

/-- An event that renames nobody keeps the masks full. -/
theorem Keyed.handle_full (lookups : Lookups Regexp) (keyed : Keyed FullMask state.users h)
    {event : ClientEvent} (nobody : RenamesNobody state event)
    : ∃ h', Keyed FullMask (state.handle lookups event).users h' := by
  cases event with
  | connect ev => exact keyed.connect ev (fun _ full => full) (fun _ _ full => full)
  | disconnect ev => exact keyed.disconnect ev (fun _ _ full => full)
  | nick ev => exact keyed.nick ev (fun _ isFound _ => absurd (nobody ev rfl) isFound)

/-- A change of the nick that finds a client breaks its mask, and nothing else does. -/
theorem masksMeet_iff {event : ClientEvent} (keyed : Keyed FullMask state.users h)
    : MasksMeet state event (state.handle lookups event) ↔ RenamesNobody state event := by
  constructor
  · rintro meets ev rfl
    by_contra isFound
    obtain ⟨user, found⟩ := Option.ne_none_iff_exists'.mp isFound
    have renamed := (keyed.lookup_nick found ev.new).trans (if_pos rfl)
    exact not_fullMask_renamed user ev.new (meets.masks ev.new _ renamed)
  · intro nobody
    obtain ⟨h', keyed'⟩ := keyed.handle_full lookups nobody
    exact ⟨fun _ _ found => (keyed'.found found).1, keyed'.foundUnderNick, keyed.oldNickGone event⟩

/-- Before any event there are no clients. -/
theorem keyed_new (holds : User → Prop) {capacity : Nat} (positive : 0 < capacity)
    : Keyed holds (.new capacity (some irccase) none) .empty where
  rep := new_represents capacity (some irccase) none
  positive := positive
  keyfn := rfl
  nicks := nofun
  holds := nofun

/-- Throughout a run every client that is found has its full mask and is found under its nick,
and under no nick it gave up, exactly if no client that is found changes its nick in the run. In
every run clients are found under their nicks, and not under those they gave up.
-/
theorem masks_full_iff (lookups : Lookups Regexp) {capacity : Nat} (positive : 0 < capacity)
    (start : Clients Regexp) (isNew : start.users = .new capacity (some irccase) none)
    (events : List ClientEvent)
    : (Along (stepClient lookups) MasksMeet start events
        ↔ Along (stepClient lookups) (fun state event _ => RenamesNobody state event) start events)
      ∧ Along (stepClient lookups)
          (fun before event after => FoundUnderNick after.users ∧ OldNickGone before event after)
          start events := by
  constructor
  · have atStart : ∃ h, Keyed FullMask start.users h := ⟨.empty, isNew ▸ keyed_new _ positive⟩
    apply @along_iff _ _ _ _ _ (fun state => ∃ h, Keyed FullMask state.users h) _ events atStart
    · rintro state event _ ⟨h, keyed⟩ ⟨⟩ meets
      exact keyed.handle_full lookups ((masksMeet_iff keyed).mp meets)
    · rintro state event _ ⟨h, keyed⟩ ⟨⟩
      exact masksMeet_iff keyed
  · have atStart : ∃ h, Keyed (fun _ => True) start.users h :=
      ⟨.empty, isNew ▸ keyed_new _ positive⟩
    apply @along_of _ _ _ _ (fun state => ∃ h, Keyed (fun _ => True) state.users h) _ events atStart
    · rintro state event _ ⟨h, keyed⟩ ⟨⟩
      exact keyed.handle lookups event
    · rintro state event _ ⟨h, keyed⟩ ⟨⟩
      obtain ⟨h', keyed'⟩ := keyed.handle lookups event
      exact ⟨keyed'.foundUnderNick, keyed.oldNickGone event⟩

end Handlers

/-- No address has an organisation, and no expression matches. -/
def noLookups : Lookups Unit where
  ipOrg _ := (none, none)
  safematch _ _ := false

/-- The dashboard before any event. -/
def newClients : Clients Unit where
  users := .new 1000 (some irccase) none
  exits := .new 1000 (some irccase) none
  watches := []
  population _ := none
  uptime := 0
  targetNick := none
  effects := []

/-- Alice connects. -/
def aliceConnects : Connect where
  server := lit "irc.example"
  time := lit "12:00:00"
  nick := lit "alice"
  user := lit "al"
  host := lit "home"
  ip := none
  gecos := lit "Alice"
  class_ := lit "users"
  account := lit "*"

/-- Alice changes her nick. -/
def aliceIsBob : NickChange where
  server := lit "irc.example"
  time := lit "12:01:00"
  old := lit "alice"
  new := lit "bob"
  user := lit "al"
  host := lit "home"

/-- Witness: when nobody changes the nick, the mask is the full one. -/
theorem masks_full_iff_witness
    : Along (stepClient noLookups) MasksMeet newClients [.connect aliceConnects] := by
  refine (masks_full_iff noLookups (by decide) newClients rfl [.connect aliceConnects]).1.mpr ?_
  refine (along_cons rfl).mpr ⟨?_, trivial⟩
  rintro ev ⟨⟩

/-- Counterexample: the mask of a client that changed its nick lacks the gecos. -/
theorem masks_full_counterexample
    : (run (stepClient noLookups) newClients [.connect aliceConnects, .nick aliceIsBob]).bind
        (fun after => (after.users.lookup (some (lit "bob"))).map (·.mask))
        = some (lit "bob!al@home")
      ∧ ¬ Along (stepClient noLookups) MasksMeet newClients
        [.connect aliceConnects, .nick aliceIsBob] := by
  have broken : ∃ user,
      ((newClients.handle noLookups (.connect aliceConnects)).handle noLookups
        (.nick aliceIsBob)).users.lookup (some (lit "bob")) = some user
      ∧ user.mask = lit "bob!al@home"
      ∧ fullMask user.nick user.user user.host user.gecos = lit "bob!al@home#Alice" :=
    ⟨_, rfl, rfl, rfl⟩
  refine ⟨rfl, fun along => ?_⟩
  obtain ⟨user, found, isMask, isFull⟩ := broken
  obtain ⟨-, along⟩ := (along_cons rfl).mp along
  obtain ⟨meets, -⟩ := (along_cons rfl).mp along
  have full := meets.masks _ _ found
  rw [FullMask, isMask, isFull] at full
  exact absurd full (by decide)

end Snowcone.Dashboard
