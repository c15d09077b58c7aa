import Snowcone.Membership.NamesReply

/-! The tables of the client agree with what the server announced, in every run. -/

namespace Snowcone.Membership

open Bytes

section Runs

variable {presence : Presence} {state : IrcState}

/-- One step: the handler of a consistent announcement does not fail, and it keeps the
invariant, by cases on the announcement.
-/
theorem tracks_deliver (tracks : Tracks presence state) {announcement : Announcement}
    (consistent : presence.Consistent announcement)
    : ∃ state', deliver state announcement = some state'
      ∧ Tracks (presence.after announcement) state' := by
  cases announcement with
  | join who channel more => exact tracks_join tracks consistent
  | names client symbol channel entries spaces => exact tracks_names tracks consistent
  | part who channel more => exact tracks_part tracks consistent
  | kick kicker channel target more => exact tracks_kick tracks consistent
  | quit who more => exact tracks_quit tracks who more
  | nick old new =>
      obtain ⟨state', handled, after, -⟩ := tracks_nick tracks consistent
      exact ⟨state', handled, after⟩
  | away who message => exact ⟨_, rfl, tracks_setAway tracks who _⟩
  | isAway client who message => exact ⟨_, rfl, tracks_setAway tracks who (some message)⟩
  | online client list => exact tracks_monitorList tracks consistent _ true
  | offline client list => exact tracks_monitorList tracks consistent _ false
  | statusMarks modes marks => exact tracks_statusMarks tracks consistent
  | monitoring value => exact ⟨_, rfl, tracks_monitoring tracks value⟩

/-- The collector keeps the invariant: it takes no user of a member. -/
theorem tracks_collected (tracks : Tracks presence state) {users : WeakTable Bytes User}
    (collects : WeakTable.Collects state.Refers state.users users)
    : Tracks presence { state with users } := by
  refine tracks.withUsers (tracks.keyed.collects collects) ?_
  intro key channel who member isChannel isMember isEntry
  exact collects.stays who member.user isEntry
    (Or.inl ⟨key, channel, who, member, isChannel, isMember, rfl⟩)

/-- The invariant holds in every run, by induction on the run. -/
theorem tracks_of_run {nick : Bytes} {announced : List Announcement} {state : IrcState}
    (run : Run nick announced state)
    : Tracks (presenceAfter nick announced) state := by
  induction run with
  | start => exact tracks_new nick
  | announced _ consistent handled ih =>
      obtain ⟨state', handled', after⟩ := tracks_deliver ih consistent
      obtain rfl := Option.some.inj (handled.symm.trans handled')
      rwa [presenceAfter, List.foldl_append, List.foldl_cons, List.foldl_nil]
  | collected _ collects ih => exact tracks_collected ih collects

/-- An update of a user reaches every channel that the user is in. -/
theorem reached_of_deliver (tracks : Tracks presence state) {announcement : Announcement}
    {state' : IrcState} (consistent : presence.Consistent announcement)
    (handled : deliver state announcement = some state')
    : Reached state' announcement := by
  cases announcement with
  | nick old new =>
      obtain ⟨_, handled', after, userIs⟩ := tracks_nick tracks consistent
      obtain rfl := Option.some.inj (handled.symm.trans handled')
      exact after.eachMembership userIs
  | away who message =>
      obtain rfl := Option.some.inj handled
      have after := tracks_setAway tracks who message
      cases message with
      | none => exact after.eachMembership (userIs_setAway state who none)
      | some text => exact after.eachMembership (userIs_setAway state who (some text))
  | isAway client who message =>
      obtain rfl := Option.some.inj handled
      exact (tracks_setAway tracks who _).eachMembership (userIs_setAway state who _)
  | _ => trivial

/-- In every run, with the collector at work at any time, the tables agree with what was
announced; and no handler fails on an announcement that may follow, and what it changes of a
user is then seen in every channel that the user is in.
-/
theorem membership_tracked {nick : Bytes} {announced : List Announcement} {state : IrcState}
    (run : Run nick announced state)
    : Agrees (presenceAfter nick announced) state
      ∧ ∀ announcement, (presenceAfter nick announced).Consistent announcement →
        ∃ state', deliver state announcement = some state'
          ∧ Agrees ((presenceAfter nick announced).after announcement) state'
          ∧ Reached state' announcement := by
  have tracks := tracks_of_run run
  refine ⟨tracks.agrees, ?_⟩
  intro announcement consistent
  obtain ⟨state', handled, after⟩ := tracks_deliver tracks consistent
  exact ⟨state', handled, after.agrees, reached_of_deliver tracks consistent handled⟩

/-- The client joins a channel, is told of an operator there, and the operator changes the
letter case of its nick.
-/
theorem membership_tracked_witness
    : ∃ state, Agrees
        (presenceAfter (lit "me") [.join (lit "me") (lit "#c") [],
          .names (lit "me") (lit "=") (lit "#c")
            [{ status := some (chr '@'), nick := lit "al", userhost := [] }] 0,
          .nick (lit "al") (lit "Al")]) state
      ∧ Reached state (.nick (lit "al") (lit "Al")) := by
  have joins : (presenceAfter (lit "me") []).Consistent (.join (lit "me") (lit "#c") []) :=
    ⟨fun _ => rfl, iff_of_true rfl (Set.notMem_empty _)⟩
  obtain ⟨inChannel, isIn, -⟩ := (membership_tracked .start).2 _ joins
  have inRun := Run.announced .start joins isIn
  have names : (presenceAfter (lit "me") [.join (lit "me") (lit "#c") []]).Consistent
      (.names (lit "me") (lit "=") (lit "#c")
        [{ status := some (chr '@'), nick := lit "al", userhost := [] }] 0) := by
    refine ⟨?_, ?_⟩
    · simp [presenceAfter, Presence.after, Presence.new, Presence.comeIn, Presence.enter]
    · intro entry isEntry
      obtain rfl := List.mem_singleton.mp isEntry
      refine ⟨?_, by decide, by decide +kernel, ?_, Or.inl rfl⟩
      · rintro mark ⟨⟩
        decide
      · rintro c ⟨⟩
        decide
  obtain ⟨named, isNamed, -⟩ := (membership_tracked inRun).2 _ names
  have namedRun := Run.announced inRun names isNamed
  have renames : (presenceAfter (lit "me") [.join (lit "me") (lit "#c") [],
      .names (lit "me") (lit "=") (lit "#c")
        [{ status := some (chr '@'), nick := lit "al", userhost := [] }] 0]).Consistent
      (.nick (lit "al") (lit "Al")) := by
    refine ⟨fun same => absurd same (by decide), fun differs => absurd ?_ differs⟩
    decide
  obtain ⟨state, -, agrees, reached⟩ := (membership_tracked namedRun).2 _ renames
  exact ⟨state, agrees, reached⟩

end Runs

end Snowcone.Membership
