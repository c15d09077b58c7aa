import Snowcone.Foundations.Runs

/-! Timers: the callback is kept in one slot for each timer, while handlers of several of its
waits can be queued.
-/

namespace Snowcone.EventLoop

open Runs

/-- What becomes of a wait: its handler is queued when it has expired, with a success code,
or when it was cancelled, with an error code.
-/
inductive WaitStatus where
  | outstanding
  | expired
  | cancelled
  | done
  deriving DecidableEq

/-- A wait of a timer, until a time in milliseconds. -/
structure Wait where
  expiry : Int
  status : WaitStatus
  deriving DecidableEq

/-- `cancel` aborts a wait that is outstanding; one that has expired keeps its success code. -/
def Wait.cancel (wait : Wait) : Wait :=
  match wait.status with
  | .outstanding => { wait with status := .cancelled }
  | .expired | .cancelled | .done => wait

/-- A call of a handler: what it found in the slot, and what callback was in force then. -/
structure TimerCall where
  called : Option Nat
  inForce : Option (Nat × Int)
  time : Int
  deriving DecidableEq

/-- A timer. The calls of `start` are numbered, and so are their callbacks and their waits;
`slot` is the registry's entry. `inForce` is the callback of the latest `start`, with the time
at which its delay is over, unless `cancel` came after it.
-/
structure Timer where
  now : Int
  slot : Option Nat
  waits : List Wait
  collected : Bool
  inForce : Option (Nat × Int)
  calls : List TimerCall
  deriving DecidableEq

/-- A new timer. -/
def Timer.new : Timer :=
  { now := 0, slot := none, waits := [], collected := false, inForce := none, calls := [] }

/-- `start`. Times are not bounded here; a delay from 9223372036855 milliseconds on has no 64-bit
number of nanoseconds, which is what the clock counts.
-/
def Timer.start (timer : Timer) (delay : Int) : Timer :=
  let expiry := timer.now + delay
  {
    timer with
    slot := some timer.waits.length
    waits := timer.waits.map Wait.cancel ++ [{ expiry, status := .outstanding }]
    inForce := some (timer.waits.length, expiry)
  }

/-- `cancel`. -/
def Timer.cancel (timer : Timer) : Timer :=
  { timer with slot := none, waits := timer.waits.map Wait.cancel, inForce := none }

/-- `l_gc`; destroying a timer cancels its waits. -/
def Timer.collect (timer : Timer) : Timer := { timer.cancel with collected := true }

/-- The handler of a wait: it takes the callback out of the slot, and calls it. -/
def Timer.handle (timer : Timer) (error : Bool) : Timer :=
  if error then timer
  else
    {
      timer with
      slot := none
      calls := timer.calls
        ++ [{ called := timer.slot, inForce := timer.inForce, time := timer.now }]
    }

/-- What happens to a timer. -/
inductive TimerEvent where
  | start (delay : Int)
  | cancel
  | collect
  | elapse (milliseconds : Nat)
  | expire (wait : Nat)
  | handler (wait : Nat)

/-- One event. A wait expires when its time has come, at some time after that its handler
runs, and a timer that is collected is not used any more.
-/
def Timer.step (timer : Timer) : TimerEvent → Option Timer
  | .start delay => if timer.collected then none else some (timer.start delay)
  | .cancel => if timer.collected then none else some timer.cancel
  | .collect => if timer.collected then none else some timer.collect
  | .elapse milliseconds => some { timer with now := timer.now + milliseconds }
  | .expire number => do
      let wait ← timer.waits[number]?
      if wait.status = .outstanding ∧ wait.expiry ≤ timer.now then
        some { timer with waits := timer.waits.set number { wait with status := .expired } }
      else none
  | .handler number => do
      let wait ← timer.waits[number]?
      let timer := { timer with waits := timer.waits.set number { wait with status := .done } }
      match wait.status with
      | .expired => some (timer.handle false)
      | .cancelled => some (timer.handle true)
      | .outstanding | .done => none

-----------------------------------------------------------------------------------------
-- Callbacks
-----------------------------------------------------------------------------------------

/-- What is asked of a timer's calls: a handler never calls nil, only the callback that is in force
and only when its delay is over, and no callback twice.
-/
structure WellTimed (calls : List TimerCall) : Prop where
  inForce : ∀ call ∈ calls, ∃ number due,
    call.called = some number ∧ call.inForce = some (number, due) ∧ due ≤ call.time
  once : (calls.map (·.called)).Nodup

/-- A timer is used while the handler of an expired wait is still queued. -/
def Overtakes (timer : Timer) : TimerEvent → Prop
  | .start _ => ∃ wait ∈ timer.waits, wait.status = .expired
  | .cancel => ∃ wait ∈ timer.waits, wait.status = .expired
  | .collect => ∃ wait ∈ timer.waits, wait.status = .expired
  | .elapse _ => False
  | .expire _ => False
  | .handler _ => False

/-- A wait whose handler may still run with a success code. -/
def Wait.Live (wait : Wait) : Prop := wait.status = .outstanding ∨ wait.status = .expired

/-- What every run keeps in which no queued handler is overtaken: a live wait is that of the
callback in the slot.
-/
structure TimerInvariant (timer : Timer) : Prop where
  wellTimed : WellTimed timer.calls
  live : ∀ number wait, timer.waits[number]? = some wait → wait.Live →
    timer.slot = some number ∧ timer.inForce = some (number, wait.expiry)
  ripe : ∀ wait ∈ timer.waits, wait.status = .expired → wait.expiry ≤ timer.now
  unused : ∀ number, timer.slot = some number → some number ∉ timer.calls.map (·.called)
  past : ∀ number, some number ∈ timer.calls.map (·.called) → number < timer.waits.length

/-- If no handler is queued with success, cancelling leaves no live wait. -/
theorem cancel_not_live {timer : Timer}
    (noneQueued : ¬ ∃ wait ∈ timer.waits, wait.status = .expired)
    : ∀ wait ∈ timer.waits.map Wait.cancel, ¬ wait.Live := by
  intro wait isIn
  obtain ⟨earlier, wasIn, rfl⟩ := List.mem_map.mp isIn
  have notExpired : earlier.status ≠ .expired :=
    fun expired => noneQueued ⟨earlier, wasIn, expired⟩
  cases status : earlier.status <;> simp_all [Wait.cancel, Wait.Live]

/-- `start` replaces the callback in the slot and its wait. -/
theorem TimerInvariant.start {timer : Timer} (sound : TimerInvariant timer) (delay : Int)
    (noneQueued : ¬ ∃ wait ∈ timer.waits, wait.status = .expired)
    : TimerInvariant (timer.start delay) := by
  have notLive := cancel_not_live noneQueued
  have newest {wait : Wait}
      (isIn : wait ∈ (timer.start delay).waits) (isLive : wait.Live)
      : wait = { expiry := timer.now + delay, status := .outstanding } := by
    rcases List.mem_append.mp isIn with earlier | isLast
    · exact absurd isLive (notLive wait earlier)
    · exact List.mem_singleton.mp isLast
  refine ⟨sound.wellTimed, fun number wait found isLive => ?_, fun wait isIn expired => ?_,
    fun number isSlot isCalled => ?_, fun number isCalled => ?_⟩
  · have isNewest := newest (List.mem_of_getElem? found) isLive
    have isLast : number = timer.waits.length := by
      have bound : number < timer.waits.length + 1 := by
        have inRange := (List.getElem?_eq_some_iff.mp found).1
        simpa [Timer.start] using inRange
      rcases Nat.lt_or_ge number timer.waits.length with early | late
      · have isEarlier : (timer.waits.map Wait.cancel)[number]? = some wait := by
          rw [← found]
          exact (List.getElem?_append_left (by simpa using early)).symm
        exact absurd isLive (notLive wait (List.mem_of_getElem? isEarlier))
      · omega
    subst isNewest isLast
    exact ⟨rfl, rfl⟩
  · have isNewest := newest isIn (.inr expired)
    subst isNewest
    cases expired
  · obtain rfl := Option.some.inj isSlot
    exact absurd (sound.past _ isCalled) (Nat.lt_irrefl _)
  · have inRange := sound.past number isCalled
    simp only [Timer.start, List.length_append, List.length_map, List.length_singleton]
    omega

/-- `cancel` leaves no callback in force. -/
theorem TimerInvariant.cancel {timer : Timer} (sound : TimerInvariant timer)
    (noneQueued : ¬ ∃ wait ∈ timer.waits, wait.status = .expired)
    : TimerInvariant timer.cancel := by
  have notLive := cancel_not_live noneQueued
  refine ⟨sound.wellTimed, fun number wait found isLive => ?_, fun wait isIn expired => ?_,
    fun number isSlot => ?_, fun number isCalled => ?_⟩
  · exact absurd isLive (notLive wait (List.mem_of_getElem? found))
  · exact absurd (.inr expired) (notLive wait isIn)
  · cases isSlot
  · have inRange := sound.past number isCalled
    simpa [Timer.cancel] using inRange

/-- A wait expires when its time has come. -/
theorem TimerInvariant.expire {timer timer' : Timer} {number : Nat}
    (sound : TimerInvariant timer) (moves : timer.step (.expire number) = some timer')
    : TimerInvariant timer' := by
  obtain ⟨wait, found, isNext⟩ := Option.bind_eq_some_iff.mp moves
  split at isNext
  case isFalse => cases isNext
  case isTrue ready =>
    obtain rfl := Option.some.inj isNext
    refine ⟨sound.wellTimed, fun other later foundLater isLive => ?_, fun later isIn expired => ?_,
      sound.unused, fun other isCalled => ?_⟩
    · rw [List.getElem?_set] at foundLater
      split at foundLater
      case isTrue same =>
        subst same
        split at foundLater
        · obtain rfl := Option.some.inj foundLater
          exact sound.live number wait found (.inl ready.1)
        · cases foundLater
      case isFalse => exact sound.live other later foundLater isLive
    · rcases List.mem_or_eq_of_mem_set isIn with wasIn | rfl
      · exact sound.ripe later wasIn expired
      · exact ready.2
    · simpa using sound.past other isCalled

/-- A handler calls the callback of its own wait, if it runs with a success code. -/
theorem TimerInvariant.handler {timer timer' : Timer} {number : Nat}
    (sound : TimerInvariant timer) (moves : timer.step (.handler number) = some timer')
    : TimerInvariant timer' := by
  obtain ⟨wait, found, isNext⟩ := Option.bind_eq_some_iff.mp moves
  -- the wait of the handler is done, the others stay
  have stays {other : Nat} {later : Wait} (isLive : later.Live)
      (foundLater : (timer.waits.set number { wait with status := .done })[other]? = some later)
      : other ≠ number ∧ timer.waits[other]? = some later := by
    rw [List.getElem?_set] at foundLater
    split at foundLater
    · split at foundLater
      · obtain rfl := Option.some.inj foundLater
        rcases isLive with live | live <;> cases live
      · cases foundLater
    · next other => exact ⟨fun same => other same.symm, foundLater⟩
  have ripe (later : Wait) (isIn : later ∈ timer.waits.set number { wait with status := .done })
      (expired : later.status = .expired)
      : later.expiry ≤ timer.now := by
    rcases List.mem_or_eq_of_mem_set isIn with wasIn | rfl
    · exact sound.ripe later wasIn expired
    · cases expired
  cases status : wait.status with
  | outstanding => simp [status] at isNext
  | done => simp [status] at isNext
  | cancelled =>
      simp only [status, Timer.handle, if_true] at isNext
      obtain rfl := Option.some.inj isNext
      refine ⟨sound.wellTimed, fun other later foundLater isLive => ?_, ripe, sound.unused,
        fun other isCalled => ?_⟩
      · exact sound.live other later (stays isLive foundLater).2 isLive
      · simpa using sound.past other isCalled
  | expired =>
      simp only [status, Timer.handle, Bool.false_eq_true, if_false] at isNext
      obtain rfl := Option.some.inj isNext
      obtain ⟨isSlot, isInForce⟩ := sound.live number wait found (.inr status)
      have isRipe := sound.ripe wait (List.mem_of_getElem? found) status
      have isNew := sound.unused number isSlot
      refine ⟨⟨fun call isIn => ?_, ?_⟩, fun other later foundLater isLive => ?_, ripe,
        fun other isSlotNow => ?_, fun other isCalled => ?_⟩
      · rcases List.mem_append.mp isIn with earlier | isLast
        · exact sound.wellTimed.inForce call earlier
        · obtain rfl := List.mem_singleton.mp isLast
          exact ⟨number, wait.expiry, isSlot, isInForce, isRipe⟩
      · rw [List.map_append, List.map_singleton, isSlot]
        refine List.nodup_append.mpr ⟨sound.wellTimed.once, by simp, fun called isCalled last => ?_⟩
        rintro isLast rfl
        rw [List.mem_singleton.mp isLast] at isCalled
        exact isNew isCalled
      · obtain ⟨isOther, wasThere⟩ := stays isLive foundLater
        have isSlot' := (sound.live other later wasThere isLive).1
        exact absurd (Option.some.inj (isSlot'.symm.trans isSlot)) isOther
      · cases isSlotNow
      · rw [List.map_append, List.map_singleton, List.mem_append, List.mem_singleton, isSlot]
          at isCalled
        rw [List.length_set]
        rcases isCalled with earlier | isLast
        · exact sound.past other earlier
        · obtain rfl := Option.some.inj isLast
          exact (List.getElem?_eq_some_iff.mp found).1

/-- A step that overtakes no queued handler keeps the invariant. -/
theorem TimerInvariant.step {timer timer' : Timer} {event : TimerEvent}
    (sound : TimerInvariant timer) (fair : ¬ Overtakes timer event)
    (moves : timer.step event = some timer')
    : TimerInvariant timer' := by
  cases event with
  | start delay =>
      obtain ⟨-, isNext⟩ := Option.ite_none_left_eq_some.mp moves
      obtain rfl := Option.some.inj isNext
      exact sound.start delay fair
  | cancel =>
      obtain ⟨-, isNext⟩ := Option.ite_none_left_eq_some.mp moves
      obtain rfl := Option.some.inj isNext
      exact sound.cancel fair
  | collect =>
      obtain ⟨-, isNext⟩ := Option.ite_none_left_eq_some.mp moves
      obtain rfl := Option.some.inj isNext
      obtain ⟨wellTimed, live, ripe, unused, past⟩ := sound.cancel fair
      exact ⟨wellTimed, live, ripe, unused, past⟩
  | elapse milliseconds =>
      obtain rfl := Option.some.inj moves
      refine ⟨sound.wellTimed, sound.live, fun wait isIn expired => ?_, sound.unused, sound.past⟩
      have isRipe := sound.ripe wait isIn expired
      simp only
      omega
  | expire number => exact sound.expire moves
  | handler number => exact sound.handler moves

-----------------------------------------------------------------------------------------
-- Whole runs
-----------------------------------------------------------------------------------------

/-- The events that are not calls from Lua. -/
def TimerEvent.ofLoop : TimerEvent → Bool
  | .start _ | .cancel | .collect => false
  | .elapse _ | .expire _ | .handler _ => true

/-- The event loop itself overtakes no handler. -/
theorem TimerEvent.fair {timer : Timer} {event : TimerEvent} (ofLoop : event.ofLoop = true)
    : ¬ Overtakes timer event := by
  cases event with
  | start | cancel | collect => cases ofLoop
  | elapse | expire | handler => exact id

/-- The calls so far are well timed, and stay so whatever the event loop does next. -/
def StaysWellTimed (timer : Timer) : Prop :=
  ∀ more later, (∀ event ∈ more, event.ofLoop = true) → run Timer.step timer more = some later
    → WellTimed later.calls

/-- The invariant lasts while only the event loop goes on, by induction on its events. -/
theorem TimerInvariant.stays {timer : Timer} (sound : TimerInvariant timer)
    : StaysWellTimed timer := by
  intro more
  induction more generalizing timer with
  | nil =>
      intro later _ runs
      obtain rfl := Option.some.inj runs
      exact sound.wellTimed
  | cons event more ih =>
      intro later ofLoop runs
      obtain ⟨next, moves, runs⟩ := Option.bind_eq_some_iff.mp runs
      have sound' := sound.step (TimerEvent.fair (ofLoop event List.mem_cons_self)) moves
      exact ih sound' later (fun event isIn => ofLoop event (List.mem_cons_of_mem _ isIn)) runs

/-- What stays well timed does so after the event loop has gone on. -/
theorem StaysWellTimed.run {timer timer' : Timer} (stays : StaysWellTimed timer)
    (events : List TimerEvent) (ofLoop : ∀ event ∈ events, event.ofLoop = true)
    (runs : run Timer.step timer events = some timer')
    : StaysWellTimed timer' := by
  intro more later moreOfLoop moreRuns
  refine stays (events ++ more) later (fun event isIn => ?_) ?_
  · exact (List.mem_append.mp isIn).elim (ofLoop event) (moreOfLoop event)
  · rw [run_append, runs, Option.bind_some, moreRuns]

/-- A handler that runs with a success code, as a run of one event. -/
theorem run_handler {timer : Timer} {number : Nat} {wait : Wait}
    (found : timer.waits[number]? = some wait) (expired : wait.status = .expired)
    (more : List TimerEvent)
    : run Timer.step timer (.handler number :: more)
      = run Timer.step
        (Timer.handle
          { timer with waits := timer.waits.set number { wait with status := .done } } false)
        more := by
  simp [run, Timer.step, found, expired]

/-- A handler that finds nothing in the slot calls nil. -/
theorem not_staysWellTimed_of_empty {timer : Timer} {number : Nat} {wait : Wait}
    (found : timer.waits[number]? = some wait) (expired : wait.status = .expired)
    (empty : timer.slot = none)
    : ¬ StaysWellTimed timer := by
  intro stays
  have wellTimed := stays [.handler number] _ (by simp [TimerEvent.ofLoop])
    (run_handler found expired [])
  obtain ⟨number, due, isCalled, -, -⟩ :=
    wellTimed.inForce { called := timer.slot, inForce := timer.inForce, time := timer.now }
      (List.mem_append_right _ List.mem_cons_self)
  rw [empty] at isCalled
  cases isCalled

/-- The handlers that are queued stay so when the other waits are cancelled. -/
theorem expired_of_cancel {waits : List Wait} {number : Nat} {wait : Wait}
    (found : waits[number]? = some wait) (expired : wait.status = .expired)
    : (waits.map Wait.cancel)[number]? = some wait := by
  rw [List.getElem?_map, found, Option.map_some, Wait.cancel, expired]

/-- A handler that was overtaken calls nil, or the new callback before its time, or leaves
nothing for the new callback's own handler to call.
-/
theorem Overtakes.misfires {timer timer' : Timer} {event : TimerEvent}
    (overtakes : Overtakes timer event) (moves : timer.step event = some timer')
    : ¬ StaysWellTimed timer' := by
  cases event with
  | elapse | expire | handler => cases overtakes
  | cancel | collect =>
      obtain ⟨wait, isIn, expired⟩ := overtakes
      obtain ⟨number, found⟩ := List.mem_iff_getElem?.mp isIn
      obtain ⟨-, isNext⟩ := Option.ite_none_left_eq_some.mp moves
      obtain rfl := Option.some.inj isNext
      exact not_staysWellTimed_of_empty (expired_of_cancel found expired) expired rfl
  | start delay =>
      obtain ⟨wait, isIn, expired⟩ := overtakes
      obtain ⟨number, found⟩ := List.mem_iff_getElem?.mp isIn
      obtain ⟨-, isNext⟩ := Option.ite_none_left_eq_some.mp moves
      obtain rfl := Option.some.inj isNext
      have inRange : number < timer.waits.length := (List.getElem?_eq_some_iff.mp found).1
      have stillFound : (timer.start delay).waits[number]? = some wait := by
        refine (List.getElem?_append_left (by simpa using inRange)).trans ?_
        exact expired_of_cancel found expired
      intro stays
      by_cases early : timer.now < timer.now + delay
      · have wellTimed := stays [.handler number] _ (by simp [TimerEvent.ofLoop])
          (run_handler stillFound expired [])
        obtain ⟨called, due, -, isInForce, isOver⟩ :=
          wellTimed.inForce
            {
              called := some timer.waits.length
              inForce := some (timer.waits.length, timer.now + delay)
              time := timer.now
            }
            (List.mem_append_right _ List.mem_cons_self)
        obtain ⟨-, rfl⟩ := Prod.mk.inj (Option.some.inj isInForce)
        exact absurd early (Int.not_lt.mpr isOver)
      · -- the stale handler empties the slot, and the new wait expires at once
        let stale := Timer.handle {
          timer.start delay with
          waits := (timer.start delay).waits.set number { wait with status := .done }
        } false
        have newest : stale.waits[timer.waits.length]?
            = some { expiry := timer.now + delay, status := .outstanding } := by
          have other : number ≠ timer.waits.length := Nat.ne_of_lt inRange
          simp [stale, Timer.handle, Timer.start, other]
        have expires : stale.step (.expire timer.waits.length) = some {
            stale with
            waits := stale.waits.set timer.waits.length
              { expiry := timer.now + delay, status := .expired }
          } := by
          refine (congrArg (fun found => Option.bind found _) newest).trans ?_
          exact if_pos ⟨rfl, Int.not_lt.mp early⟩
        have later := stays.run [.handler number, .expire timer.waits.length]
          (by simp [TimerEvent.ofLoop])
          ((run_handler stillFound expired _).trans (by rw [run, expires]; rfl))
        exact not_staysWellTimed_of_empty
          (List.getElem?_set_self (List.getElem?_eq_some_iff.mp newest).1) rfl rfl later

/-- In every run of a timer, its calls are well timed in every state, and stay so whatever
the event loop does next, exactly if it is never used while the handler of an expired wait is
still queued. Witness: the invariant, step by step.
-/
theorem timer_wellTimed_iff (events : List TimerEvent)
    : Along Timer.step (fun _ _ after => StaysWellTimed after) .new events
      ↔ Along Timer.step (fun before event _ => ¬ Overtakes before event) .new events := by
  have atStart : TimerInvariant .new := by
    refine ⟨⟨?_, ?_⟩, ?_, ?_, ?_, ?_⟩ <;> simp [Timer.new]
  have agree (before : Timer) (event : TimerEvent) (after : Timer)
      (sound : TimerInvariant before) (moves : before.step event = some after)
      : StaysWellTimed after ↔ ¬ Overtakes before event :=
    ⟨
      fun stays overtakes => overtakes.misfires moves stays,
      fun fair => (sound.step fair moves).stays
    ⟩
  exact along_iff events atStart
    (fun before event after sound moves stays =>
      sound.step ((agree before event after sound moves).mp stays) moves)
    agree

/-- A wait of one second has expired when the timer is started again for a minute: its
handler calls the new callback at once, and a minute later the new handler calls nil.
-/
theorem timer_wellTimed_counterexample
    : ∃ timer,
      run Timer.step .new [
          .start 1000, .elapse 1000, .expire 0, .start 60000, .handler 0, .elapse 60000,
          .expire 1, .handler 1
        ]
        = some timer
      ∧ timer.calls = [
        { called := some 1, inForce := some (1, 61000), time := 1000 },
        { called := none, inForce := some (1, 61000), time := 61000 }
      ]
      ∧ ¬ WellTimed timer.calls
      ∧ ¬ Along Timer.step (fun _ _ after => StaysWellTimed after) .new [
        .start 1000, .elapse 1000, .expire 0, .start 60000, .handler 0, .elapse 60000,
        .expire 1, .handler 1
      ] := by
  have misfires : ¬ WellTimed [
      { called := some 1, inForce := some (1, 61000), time := 1000 },
      { called := none, inForce := some (1, 61000), time := 61000 }
    ] := by
    intro wellTimed
    obtain ⟨number, due, isCalled, -, -⟩ :=
      wellTimed.inForce _ (List.mem_append_right [_] List.mem_cons_self)
    cases isCalled
  exact ⟨_, rfl, rfl, misfires, fun stays => misfires (along_after stays rfl [] _ (by simp) rfl)⟩

end Snowcone.EventLoop
