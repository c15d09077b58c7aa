import Snowcone.Dashboard.Bans
import Snowcone.Foundations.Runs

/-! Whether a ban stands: the entry of a ban follows the last event about it, but for D-lines that
expire, which the handler leaves as they are.
-/

namespace Snowcone.Dashboard

open Bytes Components Runs

/-- The kinds of bans that `klines` keeps track of. -/
inductive BanKind where
  | kline
  | dline
  deriving DecidableEq

/-- The mark of an entry while its ban stands. -/
def BanKind.mark : BanKind → BanMark
  | .kline => .kline
  | .dline => .dline

/-- The key of a ban. -/
def BanKind.key (kind : BanKind) (mask : Bytes) : Bytes :=
  match kind with
  | .kline => lit "kline " ++ mask
  | .dline => lit "dline " ++ mask

/-- The kind of bans that an event names. -/
def banKind (kind : Bytes) : Option BanKind :=
  if kind = lit "k-line" then some .kline
  else if kind = lit "d-line" then some .dline
  else none

/-- The ban that an event is about, and whether it was added. -/
def BanEvent.about : BanEvent → Option (BanKind × Bytes × Bool)
  | .kline event => some (.kline, event.mask, true)
  | .dline event => some (.dline, event.mask, true)
  | .expired event => (banKind event.kind).map (·, event.mask, false)
  | .removed event => (banKind event.kind).map (·, event.mask, false)

/-- The standing of a ban after one more event: none as long as the ban was never added. -/
def standingAfter (kind : BanKind) (mask : Bytes) (standing : Option Bool) (event : BanEvent)
    : Option Bool :=
  match event.about with
  | none => standing
  | some (kind', mask', added) =>
      if kind' = kind ∧ mask' = mask then
        if added then some true else standing.map (fun _ => false)
      else standing

/-- The standing of a ban after some events: none if it was never added, otherwise whether the
last event about it was an addition.
-/
def standing (events : List BanEvent) (kind : BanKind) (mask : Bytes) : Option Bool :=
  events.foldl (standingAfter kind mask) none

/-- The bans together with the events so far. -/
structure BanHistory where
  seen : List BanEvent
  bans : Bans

/-- An event is handled. -/
def stepBan (history : BanHistory) (event : BanEvent) : Option BanHistory :=
  some { seen := history.seen ++ [event], bans := history.bans.handle event }

/-- Before any event. -/
def BanHistory.start (capacity uptime : Nat) : BanHistory where
  seen := []
  bans := { klines := .new capacity none none, uptime, tracked := [] }

/-- The mark that an entry has to have. -/
def BanKind.marked (kind : BanKind) (active : Bool) : BanMark :=
  if active then kind.mark else .inactive

/-- A ban that was added before and ended is added anew with this event. -/
def AddedAnew (before : BanHistory) (event : BanEvent) (kind : BanKind) (ev : Added) : Prop :=
  (event = .kline ev ∧ kind = .kline ∨ event = .dline ev ∧ kind = .dline)
    ∧ standing before.seen kind ev.mask = some false

/-- What is asked of an event: every ban that was ever added has an entry that is marked active
if the last event about it was an addition, and inactive otherwise; and an addition of a ban that
ended is recorded as a new entry.
-/
structure BansMeet (before : BanHistory) (event : BanEvent) (after : BanHistory) : Prop where
  marked : ∀ kind mask active, standing after.seen kind mask = some active →
    ∃ entry, after.bans.klines.lookup (some (kind.key mask)) = some entry
      ∧ entry.kind = kind.marked active
  recorded : ∀ kind ev, AddedAnew before event kind ev →
    after.bans.klines.n = before.bans.klines.n + 1
    ∧ after.bans.klines.lookup (some (kind.key ev.mask))
      = some (before.bans.entryFor ev kind.mark)

/-- A D-line that stands expires. -/
def DlineExpires (before : BanHistory) (event : BanEvent) : Prop :=
  ∃ ev, event = .expired ev ∧ ev.kind = lit "d-line"
    ∧ standing before.seen .dline ev.mask = some true

/-- Different bans have different keys. -/
theorem BanKind.key_inj {kind kind' : BanKind} {mask mask' : Bytes}
    : kind.key mask = kind'.key mask' ↔ kind = kind' ∧ mask = mask' := by
  constructor
  · intro same
    cases kind <;> cases kind' <;> simp_all [BanKind.key, lit, chr]
  · rintro ⟨rfl, rfl⟩
    rfl

-----------------------------------------------------------------------------------------
-- The marks of the entries
-----------------------------------------------------------------------------------------

/-- The marks of the entries that the keys of bans find. -/
structure Marks (klines : OrderedMap Bytes BanEntry) (marks : BanKind → Bytes → Option BanMark)
    : Prop where
  represents : ∃ h, Represents klines h
  keyfn : klines.keyfn = none
  found : ∀ kind mask,
    (klines.lookup (some (kind.key mask))).map (·.kind) = marks kind mask

section Marking

variable {klines : OrderedMap Bytes BanEntry} {marks : BanKind → Bytes → Option BanMark}

/-- The index knows a key as it is. -/
theorem Marks.norm (holds : Marks klines marks) (key : Bytes) : klines.norm key = key := by
  rw [OrderedMap.norm, holds.keyfn]

/-- What a key finds after an insertion. -/
theorem Marks.lookup_insert (holds : Marks klines marks) (room : klines.n < klines.max)
    (key other : Bytes) (entry : BanEntry)
    : (klines.insert (some key) entry).lookup (some other)
      = if other = key then some entry else klines.lookup (some other) := by
  obtain ⟨h, rep⟩ := holds.represents
  rw [rep.lookup_insert room, holds.norm, holds.norm]

/-- A new entry has a mark of its own. -/
theorem Marks.insert (holds : Marks klines marks) (room : klines.n < klines.max) (key : Bytes)
    (entry : BanEntry)
    : Marks (klines.insert (some key) entry)
        (fun kind mask => if kind.key mask = key then some entry.kind else marks kind mask) where
  represents := by
    obtain ⟨h, rep⟩ := holds.represents
    exact ⟨_, rep.insert (Nat.zero_lt_of_lt room) (some key) entry⟩
  keyfn := (klines.insert_inserted (some key) entry).keyfn.trans holds.keyfn
  found kind mask := by
    rw [holds.lookup_insert room, ← holds.found]
    split <;> rfl

/-- The entry that a key finds becomes inactive. -/
theorem Marks.deactivated (holds : Marks klines marks) (key : Bytes)
    : Marks (deactivate klines key)
        (fun kind mask =>
          if kind.key mask = key then (marks kind mask).map (fun _ => .inactive)
          else marks kind mask) where
  represents := by
    obtain ⟨h, rep⟩ := holds.represents
    exact ⟨_, rep.mutate (some key) _⟩
  keyfn := (klines.mutate_fields (some key) _).2.1.trans holds.keyfn
  found kind mask := by
    obtain ⟨h, rep⟩ := holds.represents
    rw [deactivate, rep.lookup_mutate, holds.norm, holds.norm, ← holds.found]
    split
    · rw [Option.map_map, Option.map_map]
      rfl
    · rfl

/-- Marks are those they are shown to be. -/
theorem Marks.congr (holds : Marks klines marks) {marks' : BanKind → Bytes → Option BanMark}
    (same : ∀ kind mask, marks kind mask = marks' kind mask)
    : Marks klines marks' :=
  ⟨holds.represents, holds.keyfn, fun kind mask => (holds.found kind mask).trans (same kind mask)⟩

end Marking

/-- The marks that bans have after some events. -/
def marksOf (seen : List BanEvent) (kind : BanKind) (mask : Bytes) : Option BanMark :=
  (standing seen kind mask).map kind.marked

/-- One more event changes the standing of what it is about. -/
theorem standing_append (seen : List BanEvent) (event : BanEvent) (kind : BanKind) (mask : Bytes)
    : standing (seen ++ [event]) kind mask
      = standingAfter kind mask (standing seen kind mask) event := by
  rw [standing, List.foldl_append]
  rfl

/-- An event that adds a ban. -/
theorem marksOf_added {seen : List BanEvent} {event : BanEvent} {kind : BanKind} {mask : Bytes}
    (isAdded : event.about = some (kind, mask, true)) (kind' : BanKind) (mask' : Bytes)
    : marksOf (seen ++ [event]) kind' mask'
      = if kind'.key mask' = kind.key mask then some kind.mark else marksOf seen kind' mask' := by
  rw [marksOf, standing_append, standingAfter, isAdded]
  by_cases same : kind = kind' ∧ mask = mask'
  · obtain ⟨rfl, rfl⟩ := same
    simp [BanKind.marked]
  · have apart : ¬ kind'.key mask' = kind.key mask := by
      rw [BanKind.key_inj]
      exact fun equal => same ⟨equal.1.symm, equal.2.symm⟩
    simp [same, apart, marksOf]

/-- An event that ends a ban. -/
theorem marksOf_ended {seen : List BanEvent} {event : BanEvent} {kind : BanKind} {mask : Bytes}
    (isEnded : event.about = some (kind, mask, false)) (kind' : BanKind) (mask' : Bytes)
    : marksOf (seen ++ [event]) kind' mask'
      = if kind'.key mask' = kind.key mask then (marksOf seen kind' mask').map (fun _ => .inactive)
        else marksOf seen kind' mask' := by
  rw [marksOf, standing_append, standingAfter, isEnded]
  by_cases same : kind = kind' ∧ mask = mask'
  · obtain ⟨rfl, rfl⟩ := same
    simp [BanKind.marked, marksOf, Function.comp_def]
  · have apart : ¬ kind'.key mask' = kind.key mask := by
      rw [BanKind.key_inj]
      exact fun equal => same ⟨equal.1.symm, equal.2.symm⟩
    simp [same, apart, marksOf]

/-- An event that is about no ban. -/
theorem marksOf_other {seen : List BanEvent} {event : BanEvent} (isOther : event.about = none)
    (kind : BanKind) (mask : Bytes)
    : marksOf (seen ++ [event]) kind mask = marksOf seen kind mask := by
  rw [marksOf, standing_append, standingAfter, isOther, marksOf]

-----------------------------------------------------------------------------------------
-- The handlers
-----------------------------------------------------------------------------------------

/-- What a handler makes of `klines`: it adds one entry at most, and the entries have some marks. -/
structure Handled (klines : OrderedMap Bytes BanEntry) (after : OrderedMap Bytes BanEntry)
    (marks : BanKind → Bytes → Option BanMark) : Prop where
  marks : Marks after marks
  few : after.n ≤ klines.n + 1
  capacity : after.max = klines.max

section Handlers

variable {bans : Bans} {seen : List BanEvent}

/-- A ban that is inserted under its key. -/
theorem Marks.added (holds : Marks bans.klines (marksOf seen))
    (room : bans.klines.n < bans.klines.max) {event : BanEvent} {kind : BanKind} {ev : Added}
    (isAdded : event.about = some (kind, ev.mask, true))
    : Handled bans.klines
        (bans.klines.insert (some (kind.key ev.mask)) (bans.entryFor ev kind.mark))
        (marksOf (seen ++ [event])) where
  marks :=
    (holds.insert room _ _).congr (fun kind' mask' => (marksOf_added isAdded kind' mask').symm)
  few := Nat.le_of_eq (bans.klines.insert_inserted _ _).n
  capacity := (bans.klines.insert_inserted _ _).max

/-- A D-line is not inserted again while it stands. -/
theorem Marks.dline (holds : Marks bans.klines (marksOf seen))
    (room : bans.klines.n < bans.klines.max) (ev : Added)
    : Handled bans.klines (bans.dline ev).klines (marksOf (seen ++ [.dline ev])) := by
  have isAbout : (BanEvent.dline ev).about = some (.dline, ev.mask, true) := rfl
  rw [Bans.dline]
  split
  · next active =>
      refine ⟨holds.congr fun kind mask => ?_, Nat.le_succ _, rfl⟩
      rw [marksOf_added isAbout kind mask]
      split
      · next same =>
          obtain ⟨rfl, rfl⟩ := BanKind.key_inj.mp same
          obtain ⟨entry, found, isDline⟩ := (Option.any_eq_true _ _).mp active
          have isMarked := holds.found .dline ev.mask
          rw [BanKind.key, found, Option.map_some, of_decide_eq_true isDline] at isMarked
          exact isMarked.symm
      · rfl
  · exact holds.added room isAbout

/-- A ban that is removed becomes inactive; the entry about the removal has a key of its own. -/
theorem Marks.remove (holds : Marks bans.klines (marksOf seen))
    (room : bans.klines.n < bans.klines.max) {kind : BanKind} {ev : Removed} {gone : Bytes}
    (isEnded : (BanEvent.removed ev).about = some (kind, ev.mask, false))
    (ownKey : ∀ kind mask, BanKind.key kind mask ≠ gone)
    : Handled bans.klines (bans.remove ev (kind.key ev.mask) gone).klines
        (marksOf (seen ++ [.removed ev])) := by
  obtain ⟨isMax, -, isN, -⟩ :=
    bans.klines.mutate_fields (some (kind.key ev.mask)) ({ · with kind := .inactive })
  have ended
    : Marks (deactivate bans.klines (kind.key ev.mask)) (marksOf (seen ++ [.removed ev])) :=
    (holds.deactivated (kind.key ev.mask)).congr
      (fun kind' mask' => (marksOf_ended isEnded kind' mask').symm)
  rw [Bans.remove]
  split
  · exact ⟨ended, Nat.le_succ_of_le (Nat.le_of_eq isN), isMax⟩
  · refine ⟨(ended.insert (by rw [deactivate, isN, isMax]; exact room) gone _).congr ?_, ?_, ?_⟩
    · intro kind' mask'
      rw [if_neg (ownKey kind' mask')]
    · rw [(OrderedMap.insert_inserted _ _ _).n]
      exact Nat.le_of_eq (congrArg (· + 1) isN)
    · exact (OrderedMap.insert_inserted _ _ _).max.trans isMax

/-- The key of a K-line. -/
theorem key_kline (mask : Bytes) : BanKind.kline.key mask = lit "kline " ++ mask := rfl

/-- The key of a D-line. -/
theorem key_dline (mask : Bytes) : BanKind.dline.key mask = lit "dline " ++ mask := rfl

/-- No ban has a key of a removal. -/
theorem key_ne_gone (kind : BanKind) (mask mask' : Bytes)
    : kind.key mask ≠ lit "unkline " ++ mask' ∧ kind.key mask ≠ lit "undline " ++ mask' := by
  cases kind <;> simp [BanKind.key, lit, chr]

/-- The kinds that notices name. -/
theorem banKind_cases (kind : Bytes)
    : kind = lit "k-line" ∧ banKind kind = some .kline
      ∨ kind ≠ lit "k-line" ∧ kind = lit "d-line" ∧ banKind kind = some .dline
      ∨ kind ≠ lit "k-line" ∧ kind ≠ lit "d-line" ∧ banKind kind = none := by
  rw [banKind]
  split
  · next isKline => exact .inl ⟨isKline, rfl⟩
  · next notKline =>
      split
      · next isDline => exact .inr (.inl ⟨notKline, isDline, rfl⟩)
      · next notDline => exact .inr (.inr ⟨notKline, notDline, rfl⟩)

/-- An event that is about no ban leaves `klines` as it is. -/
theorem Marks.untouched (holds : Marks bans.klines (marksOf seen)) {event : BanEvent}
    (isOther : event.about = none)
    : Handled bans.klines bans.klines (marksOf (seen ++ [event])) where
  marks := holds.congr (fun kind mask => (marksOf_other isOther kind mask).symm)
  few := Nat.le_succ _
  capacity := rfl

/-- A removal of a ban of either kind, or of something else. -/
theorem Marks.removed (holds : Marks bans.klines (marksOf seen))
    (room : bans.klines.n < bans.klines.max) (ev : Removed)
    : Handled bans.klines (bans.removed ev).klines (marksOf (seen ++ [.removed ev])) := by
  rw [Bans.removed]
  rcases banKind_cases ev.kind with ⟨isKline, isKind⟩ | ⟨notKline, isDline, isKind⟩
    | ⟨notKline, notDline, isKind⟩
  · have isAbout : (BanEvent.removed ev).about = some (.kline, ev.mask, false) := by
      rw [BanEvent.about, isKind, Option.map_some]
    have ownKey (kind : BanKind) (mask : Bytes) := (key_ne_gone kind mask ev.mask).1
    rw [if_pos isKline, ← key_kline]
    exact holds.remove room isAbout ownKey
  · have isAbout : (BanEvent.removed ev).about = some (.dline, ev.mask, false) := by
      rw [BanEvent.about, isKind, Option.map_some]
    have ownKey (kind : BanKind) (mask : Bytes) := (key_ne_gone kind mask ev.mask).2
    rw [if_neg notKline, if_pos isDline, ← key_dline]
    exact holds.remove room isAbout ownKey
  · rw [if_neg notKline, if_neg notDline]
    exact holds.untouched (by rw [BanEvent.about, isKind, Option.map_none])

/-- An expiry is handled unless it is one of a D-line that stands. -/
theorem Marks.expired (holds : Marks bans.klines (marksOf seen)) {ev : Expired}
    (handled : ¬ (ev.kind = lit "d-line" ∧ standing seen .dline ev.mask = some true))
    : Handled bans.klines (bans.expired ev).klines (marksOf (seen ++ [.expired ev])) := by
  rw [Bans.expired]
  rcases banKind_cases ev.kind with ⟨isKline, isKind⟩ | ⟨notKline, isDline, isKind⟩
    | ⟨notKline, notDline, isKind⟩
  · have isAbout : (BanEvent.expired ev).about = some (.kline, ev.mask, false) := by
      rw [BanEvent.about, isKind, Option.map_some]
    obtain ⟨isMax, -, isN, -⟩ :=
      bans.klines.mutate_fields (some (lit "kline " ++ ev.mask)) ({ · with kind := .inactive })
    rw [if_pos isKline]
    rw [← key_kline] at isMax isN ⊢
    refine ⟨(holds.deactivated (BanKind.kline.key ev.mask)).congr ?_, ?_, isMax⟩
    · exact fun kind mask => (marksOf_ended isAbout kind mask).symm
    · exact Nat.le_succ_of_le (Nat.le_of_eq isN)
  · have isAbout : (BanEvent.expired ev).about = some (.dline, ev.mask, false) := by
      rw [BanEvent.about, isKind, Option.map_some]
    rw [if_neg notKline]
    refine ⟨holds.congr fun kind mask => ?_, Nat.le_succ _, rfl⟩
    rw [marksOf_ended isAbout]
    split
    · next same =>
        obtain ⟨rfl, rfl⟩ := BanKind.key_inj.mp same
        rw [marksOf]
        cases stands : standing seen .dline ev.mask with
        | none => rfl
        | some active =>
            cases active with
            | true => exact absurd ⟨isDline, stands⟩ handled
            | false => rfl
    · rfl
  · rw [if_neg notKline]
    exact holds.untouched (by rw [BanEvent.about, isKind, Option.map_none])

-----------------------------------------------------------------------------------------
-- Runs
-----------------------------------------------------------------------------------------

/-- Every event but an expiry of a D-line that stands is handled. -/
theorem Marks.handle (holds : Marks bans.klines (marksOf seen))
    (room : bans.klines.n < bans.klines.max) {event : BanEvent}
    (handled : ¬ DlineExpires { seen, bans } event)
    : Handled bans.klines (bans.handle event).klines (marksOf (seen ++ [event])) := by
  cases event with
  | kline ev =>
      have isAbout : (BanEvent.kline ev).about = some (.kline, ev.mask, true) := rfl
      exact holds.added room isAbout
  | dline ev => exact holds.dline room ev
  | expired ev => exact holds.expired (fun both => handled ⟨ev, rfl, both⟩)
  | removed ev => exact holds.removed room ev

/-- A ban that is added anew is inserted. -/
theorem Marks.recorded (holds : Marks bans.klines (marksOf seen)) {event : BanEvent}
    {kind : BanKind} {ev : Added} (anew : AddedAnew { seen, bans } event kind ev)
    : (bans.handle event).klines
      = bans.klines.insert (some (kind.key ev.mask)) (bans.entryFor ev kind.mark) := by
  obtain ⟨⟨rfl, rfl⟩ | ⟨rfl, rfl⟩, ended⟩ := anew
  · rfl
  · have isMarked := holds.found .dline ev.mask
    rw [marksOf, ended, Option.map_some] at isMarked
    obtain ⟨entry, found, isInactive⟩ := Option.map_eq_some_iff.mp isMarked
    have notActive : ¬ ((bans.klines.lookup (some (lit "dline " ++ ev.mask))).any
        (·.kind = .dline)) = true := by
      rw [← key_dline, found, Option.any_some, isInactive]
      decide
    rw [Bans.handle, Bans.dline, if_neg notActive, ← key_dline]
    rfl

/-- An expiry of a D-line leaves `klines` as it is. -/
theorem expired_dline {ev : Expired} (isDline : ev.kind = lit "d-line")
    : (bans.expired ev).klines = bans.klines := by
  have notKline : ev.kind ≠ lit "k-line" := by
    rw [isDline]
    decide
  rw [Bans.expired, if_neg notKline]

end Handlers

/-- The entries follow the standings, and there are no more of them than events. -/
structure Follows (capacity : Nat) (history : BanHistory) : Prop where
  marks : Marks history.bans.klines (marksOf history.seen)
  few : history.bans.klines.n ≤ history.seen.length
  capacity : history.bans.klines.max = capacity

section Runs

variable {capacity : Nat} {history : BanHistory} {event : BanEvent}

/-- There is room for one more entry. -/
theorem Follows.room (follows : Follows capacity history) (few : history.seen.length < capacity)
    : history.bans.klines.n < history.bans.klines.max := by
  rw [follows.capacity]
  exact Nat.lt_of_le_of_lt follows.few few

/-- An event that is handled. -/
theorem Follows.next (follows : Follows capacity history) (few : history.seen.length < capacity)
    (handled : ¬ DlineExpires history event)
    : Follows capacity { seen := history.seen ++ [event], bans := history.bans.handle event } := by
  have next := follows.marks.handle (follows.room few) handled
  refine ⟨next.marks, ?_, next.capacity.trans follows.capacity⟩
  rw [List.length_append]
  exact Nat.le_trans next.few (Nat.succ_le_succ follows.few)

/-- The entry of a D-line that expires goes on to stand, and all other events do what is asked. -/
theorem bansMeet_iff (follows : Follows capacity history) (few : history.seen.length < capacity)
    : BansMeet history event
        { seen := history.seen ++ [event], bans := history.bans.handle event }
      ↔ ¬ DlineExpires history event := by
  constructor
  · rintro meets ⟨ev, rfl, isDline, stands⟩
    have isMarked := follows.marks.found .dline ev.mask
    rw [marksOf, stands, Option.map_some] at isMarked
    have isAbout : (BanEvent.expired ev).about = some (.dline, ev.mask, false) := by
      rw [BanEvent.about, isDline]
      rfl
    have ended : standing (history.seen ++ [.expired ev]) .dline ev.mask = some false := by
      rw [standing_append, standingAfter, isAbout]
      simp [stands]
    obtain ⟨entry, found, isInactive⟩ := meets.marked .dline ev.mask false ended
    dsimp only [Bans.handle] at found
    rw [expired_dline isDline] at found
    rw [found, Option.map_some, isInactive] at isMarked
    exact absurd isMarked (by decide)
  · intro handled
    have next := follows.next few handled
    refine ⟨fun kind mask active stands => ?_, fun kind ev anew => ?_⟩
    · have isMarked := next.marks.found kind mask
      dsimp only at isMarked stands
      rw [marksOf, stands, Option.map_some] at isMarked
      exact Option.map_eq_some_iff.mp isMarked
    · dsimp only
      rw [follows.marks.recorded anew]
      refine ⟨(OrderedMap.insert_inserted _ _ _).n, ?_⟩
      rw [follows.marks.lookup_insert (follows.room few), if_pos rfl]

/-- The entries follow the standings throughout a run exactly if no D-line that stands expires in
it, by induction on the events.
-/
theorem along_bansMeet_iff (events : List BanEvent) (follows : Follows capacity history)
    (few : history.seen.length + events.length ≤ capacity)
    : Along stepBan BansMeet history events
      ↔ Along stepBan (fun before event _ => ¬ DlineExpires before event) history events := by
  induction events generalizing history with
  | nil => exact Iff.rfl
  | cons event events ih =>
      rw [List.length_cons] at few
      rw [along_cons rfl, along_cons rfl, bansMeet_iff follows (by omega)]
      refine and_congr_right fun handled => ih (follows.next (by omega) handled) ?_
      rw [List.length_append, List.length_singleton]
      omega

/-- Before any event there are no entries. -/
theorem follows_start (capacity uptime : Nat) : Follows capacity (.start capacity uptime) where
  marks := ⟨⟨_, new_represents capacity none none⟩, rfl, fun _ _ => rfl⟩
  few := Nat.le_refl 0
  capacity := rfl

/-- For fewer events than `klines` has room for, every ban has an entry that is marked as the last
event about it says, and every addition of a ban that ended is recorded, exactly if no D-line
expires whose last event before was its addition.
-/
theorem bans_follow_iff (uptime : Nat) (events : List BanEvent) (few : events.length < capacity)
    : Along stepBan BansMeet (.start capacity uptime) events
      ↔ Along stepBan (fun before event _ => ¬ DlineExpires before event)
        (.start capacity uptime) events := by
  refine along_bansMeet_iff events (follows_start capacity uptime) ?_
  change 0 + events.length ≤ capacity
  omega

end Runs

/-- A notice about a ban, parsed. -/
def parseBan (str : Bytes) : Option BanEvent :=
  (parseSnote (parseLater (fun _ => (none : Option Empty)) (lit "12:00:00") (lit "irc.example"))
    (lit "12:00:00") (lit "irc.example") str).bind banEvent

/-- The notice of a D-line. -/
def dlineNotice : Bytes :=
  lit "op!~op@home\x7bop\x7d added temporary 60 min. D-Line for [192.0.2.1] [abuse]"

/-- The event of a D-line. -/
def dlineAdded : Added where
  server := lit "irc.example"
  time := lit "12:00:00"
  nick := lit "op"
  user := lit "~op"
  host := lit "home"
  oper := lit "op"
  mask := lit "192.0.2.1"
  duration := some 60
  reason := lit "abuse"

/-- The event of its expiry. -/
def dlineExpired : Expired where
  server := lit "irc.example"
  time := lit "12:00:00"
  kind := lit "d-line"
  mask := lit "192.0.2.1"

/-- Witness: a K-line expires and is added again. -/
theorem bans_follow_iff_witness
    : Along stepBan BansMeet (.start 1000 0)
        [.kline dlineAdded, .expired { dlineExpired with kind := lit "k-line" },
          .kline dlineAdded] := by
  refine (bans_follow_iff 0 [.kline dlineAdded,
    .expired { dlineExpired with kind := lit "k-line" }, .kline dlineAdded] (by decide)).mpr ?_
  rw [along_cons rfl, along_cons rfl, along_cons rfl]
  refine ⟨?_, ?_, ?_, trivial⟩
  · rintro ⟨ev, ⟨⟩, -⟩
  · rintro ⟨ev, ⟨⟩, isDline, -⟩
    exact absurd isDline (by decide)
  · rintro ⟨ev, ⟨⟩, -⟩

/-- Counterexample: a D-line that is added after it expired is not recorded. -/
theorem bans_follow_counterexample
    : [dlineNotice, lit "Temporary D-line for [192.0.2.1] expired", dlineNotice].filterMap parseBan
        = [.dline dlineAdded, .expired dlineExpired, .dline dlineAdded]
      ∧ (run stepBan (.start 1000 0)
            [.dline dlineAdded, .expired dlineExpired, .dline dlineAdded]).map
          (fun history => history.bans.klines.n)
        = some 1
      ∧ ¬ Along stepBan BansMeet (.start 1000 0)
        [.dline dlineAdded, .expired dlineExpired, .dline dlineAdded] := by
  refine ⟨by decide +kernel, by decide +kernel, fun along => ?_⟩
  obtain ⟨-, along⟩ := (along_cons rfl).mp along
  obtain ⟨-, along⟩ := (along_cons rfl).mp along
  obtain ⟨meets, -⟩ := (along_cons rfl).mp along
  have anew := (meets.recorded .dline dlineAdded ⟨.inr ⟨rfl, rfl⟩, by decide +kernel⟩).1
  exact absurd anew (by decide +kernel)

end Snowcone.Dashboard
