import Snowcone.Foundations.Runs

/-! The readers of the terminal: coroutines that wait for input and read it, and the counter
of suspensions that stops and starts them.
-/

namespace Snowcone.EventLoop

open Runs

/-- Where a `stdin_thread` coroutine is. It may have been spawned but not begun, its wait may
have completed while its resumption is queued, and that with success or aborted; when it reads
it calls `getch` and the callbacks of keys.
-/
inductive Reader where
  | spawned
  | waiting
  | ready
  | aborted
  | reading
  | ended
  deriving DecidableEq

/-- Whether a reader will go on to call `getch`. An aborted wait throws. -/
def Reader.isAlive : Reader → Bool
  | .spawned | .waiting | .ready | .reading => true
  | .aborted | .ended => false

/-- Cancelling the descriptor aborts a wait that is outstanding. -/
def Reader.cancel : Reader → Reader
  | .waiting => .aborted
  | reader => reader

/-- The readers, in the order they were spawned in, the number of outstanding suspensions,
and whether a callback runs that is not that of a key.
-/
structure Terminal where
  readers : List Reader
  drawingSuspended : Int
  inCallback : Bool
  deriving DecidableEq

/-- `App::start_input`. -/
def Terminal.startInput (terminal : Terminal) : Terminal :=
  { terminal with readers := terminal.readers ++ [.spawned] }

/-- `App::stop_input`. -/
def Terminal.stopInput (terminal : Terminal) : Terminal :=
  { terminal with readers := terminal.readers.map Reader.cancel }

/-- `suspend_tty`. -/
def Terminal.suspendTty (terminal : Terminal) : Terminal :=
  let terminal := if terminal.drawingSuspended = 0 then terminal.stopInput else terminal
  { terminal with drawingSuspended := terminal.drawingSuspended + 1 }

/-- `resume_tty`. -/
def Terminal.resumeTty (terminal : Terminal) : Terminal :=
  let terminal := { terminal with drawingSuspended := terminal.drawingSuspended - 1 }
  if terminal.drawingSuspended = 0 then terminal.startInput else terminal

/-- A suspension is counted. -/
theorem Terminal.suspendTty_drawingSuspended (terminal : Terminal)
    : terminal.suspendTty.drawingSuspended = terminal.drawingSuspended + 1 := by
  rw [Terminal.suspendTty]
  split <;> rfl

/-- A resumption is counted. -/
theorem Terminal.resumeTty_drawingSuspended (terminal : Terminal)
    : terminal.resumeTty.drawingSuspended = terminal.drawingSuspended - 1 := by
  rw [Terminal.resumeTty]
  split <;> rfl

/-- The terminal before the first callback, as `App::startup` leaves it. -/
def Terminal.startup : Terminal :=
  Terminal.startInput { readers := [], drawingSuspended := 0, inCallback := false }

/-- What happens: other callbacks begin and end, a reader begins, its wait completes, it is
resumed, or it has read all input; and callbacks suspend and resume the terminal.
-/
inductive TerminalEvent where
  | callbackBegins
  | callbackEnds
  | begins (reader : Nat)
  | readable (reader : Nat)
  | resumed (reader : Nat)
  | drained (reader : Nat)
  | suspendTty
  | resumeTty

/-- A callback runs, of a key or another one. -/
def Terminal.busy (terminal : Terminal) : Bool :=
  terminal.inCallback || terminal.readers.contains .reading

/-- A reader goes from one place to another. -/
def Terminal.move (terminal : Terminal) (reader : Nat) (source target : Reader)
    : Option Terminal :=
  if terminal.readers[reader]? = some source then
    some { terminal with readers := terminal.readers.set reader target }
  else none

/-- One event. Callbacks run one at a time, and they only resume what they have suspended. -/
def Terminal.step (terminal : Terminal) : TerminalEvent → Option Terminal
  | .callbackBegins => if terminal.busy then none else some { terminal with inCallback := true }
  | .callbackEnds =>
      if terminal.inCallback then some { terminal with inCallback := false } else none
  | .begins reader => terminal.move reader .spawned .waiting
  | .readable reader => if terminal.busy then none else terminal.move reader .waiting .ready
  | .resumed reader =>
      if terminal.busy then none
      else (terminal.move reader .ready .reading).or (terminal.move reader .aborted .ended)
  | .drained reader => terminal.move reader .reading .waiting
  | .suspendTty => if terminal.busy then some terminal.suspendTty else none
  | .resumeTty =>
      if terminal.busy ∧ 0 < terminal.drawingSuspended then some terminal.resumeTty else none

-----------------------------------------------------------------------------------------
-- The number of readers
-----------------------------------------------------------------------------------------

/-- One reader is alive, or none while the terminal is suspended. -/
def Exclusive (terminal : Terminal) : Prop :=
  terminal.readers.countP Reader.isAlive = if terminal.drawingSuspended = 0 then 1 else 0

/-- A suspension takes effect when the reader waits for input; it is not to come from the
reader itself, nor when its wait has just completed or it has not begun.
-/
def FindsWaiting (before : Terminal) : TerminalEvent → Prop
  | .suspendTty =>
      before.drawingSuspended = 0
        → ∀ reader ∈ before.readers, reader.isAlive = true → reader = .waiting
  | _ => True

/-- The suspensions that are outstanding are never negative in number. -/
structure TerminalInvariant (terminal : Terminal) : Prop where
  exclusive : Exclusive terminal
  suspensions : 0 ≤ terminal.drawingSuspended

/-- A reader that moves without ending does not change the number of those alive. -/
theorem countP_move {terminal terminal' : Terminal} {reader : Nat} {source target : Reader}
    (moves : terminal.move reader source target = some terminal')
    (same : target.isAlive = source.isAlive)
    : terminal'.readers.countP Reader.isAlive = terminal.readers.countP Reader.isAlive
      ∧ terminal'.drawingSuspended = terminal.drawingSuspended := by
  rw [Terminal.move] at moves
  obtain ⟨found, isNext⟩ := Option.ite_none_right_eq_some.mp moves
  obtain rfl := Option.some.inj isNext
  obtain ⟨inRange, isSource⟩ := List.getElem?_eq_some_iff.mp found
  have counted := List.boole_getElem_le_countP (p := Reader.isAlive) inRange
  refine ⟨?_, rfl⟩
  rw [List.countP_set inRange, isSource, same]
  rw [isSource] at counted
  omega

/-- After cancelling, those readers are alive that were so and did not wait. -/
theorem countP_cancel_eq_zero {readers : List Reader}
    : (readers.map Reader.cancel).countP Reader.isAlive = 0
      ↔ ∀ reader ∈ readers, reader.isAlive = true → reader = .waiting := by
  rw [List.countP_map, List.countP_eq_zero]
  refine forall_congr' (fun reader => forall_congr' (fun _ => ?_))
  cases reader <;> simp [Reader.cancel, Reader.isAlive]

/-- A step keeps the number of readers right exactly if it does not suspend a reader that is
not waiting, by cases on the event.
-/
theorem TerminalInvariant.exclusive_iff {terminal terminal' : Terminal} {event : TerminalEvent}
    (sound : TerminalInvariant terminal) (moves : terminal.step event = some terminal')
    : Exclusive terminal' ↔ FindsWaiting terminal event := by
  have stays {reader : Nat} {source target : Reader}
      (moves : terminal.move reader source target = some terminal')
      (same : target.isAlive = source.isAlive)
      : Exclusive terminal' := by
    obtain ⟨alive, suspended⟩ := countP_move moves same
    rw [Exclusive, alive, suspended]
    exact sound.exclusive
  cases event with
  | callbackBegins =>
      obtain ⟨-, isNext⟩ := Option.ite_none_left_eq_some.mp moves
      obtain rfl := Option.some.inj isNext
      exact iff_of_true sound.exclusive trivial
  | callbackEnds =>
      obtain ⟨-, isNext⟩ := Option.ite_none_right_eq_some.mp moves
      obtain rfl := Option.some.inj isNext
      exact iff_of_true sound.exclusive trivial
  | begins reader => exact iff_of_true (stays moves rfl) trivial
  | readable reader =>
      exact iff_of_true (stays (Option.ite_none_left_eq_some.mp moves).2 rfl) trivial
  | resumed reader =>
      refine iff_of_true ?_ trivial
      rcases Option.or_eq_some_iff.mp (Option.ite_none_left_eq_some.mp moves).2 with
        isNext | ⟨-, isNext⟩
      · exact stays isNext rfl
      · exact stays isNext rfl
  | drained reader => exact iff_of_true (stays moves rfl) trivial
  | suspendTty =>
      obtain ⟨-, isNext⟩ := Option.ite_none_right_eq_some.mp moves
      obtain rfl := Option.some.inj isNext
      have suspensions := sound.suspensions
      by_cases outermost : terminal.drawingSuspended = 0
      · simp only [Exclusive, Terminal.suspendTty, Terminal.stopInput, outermost, if_true,
          FindsWaiting, true_implies]
        exact countP_cancel_eq_zero
      · have exclusive := sound.exclusive
        have still : ¬ terminal.drawingSuspended + 1 = 0 := by omega
        simp only [Exclusive, if_neg outermost] at exclusive
        simp [Exclusive, Terminal.suspendTty, outermost, FindsWaiting, exclusive, still]
  | resumeTty =>
      obtain ⟨⟨-, suspended⟩, isNext⟩ := Option.ite_none_right_eq_some.mp moves
      obtain rfl := Option.some.inj isNext
      have exclusive := sound.exclusive
      have outermost : ¬ terminal.drawingSuspended = 0 := by omega
      simp only [Exclusive, if_neg outermost] at exclusive
      refine iff_of_true ?_ trivial
      by_cases last : terminal.drawingSuspended - 1 = 0
      · simp [Exclusive, Terminal.resumeTty, last, Terminal.startInput, exclusive,
          Reader.isAlive]
      · simp [Exclusive, Terminal.resumeTty, last, exclusive]

/-- The number of suspensions stays what it should be, by cases on the event. -/
theorem Terminal.step_suspensions {terminal terminal' : Terminal} {event : TerminalEvent}
    (suspensions : 0 ≤ terminal.drawingSuspended) (moves : terminal.step event = some terminal')
    : 0 ≤ terminal'.drawingSuspended := by
  have stays {reader : Nat} {source target : Reader}
      (moves : terminal.move reader source target = some terminal')
      : 0 ≤ terminal'.drawingSuspended := by
    obtain ⟨-, isNext⟩ := Option.ite_none_right_eq_some.mp moves
    obtain rfl := Option.some.inj isNext
    exact suspensions
  cases event with
  | callbackBegins =>
      obtain ⟨-, isNext⟩ := Option.ite_none_left_eq_some.mp moves
      obtain rfl := Option.some.inj isNext
      exact suspensions
  | callbackEnds =>
      obtain ⟨-, isNext⟩ := Option.ite_none_right_eq_some.mp moves
      obtain rfl := Option.some.inj isNext
      exact suspensions
  | begins reader => exact stays moves
  | readable reader => exact stays (Option.ite_none_left_eq_some.mp moves).2
  | resumed reader =>
      rcases Option.or_eq_some_iff.mp (Option.ite_none_left_eq_some.mp moves).2 with
        isNext | ⟨-, isNext⟩
      · exact stays isNext
      · exact stays isNext
  | drained reader => exact stays moves
  | suspendTty =>
      obtain ⟨-, isNext⟩ := Option.ite_none_right_eq_some.mp moves
      obtain rfl := Option.some.inj isNext
      rw [Terminal.suspendTty_drawingSuspended]
      omega
  | resumeTty =>
      obtain ⟨⟨-, suspended⟩, isNext⟩ := Option.ite_none_right_eq_some.mp moves
      obtain rfl := Option.some.inj isNext
      rw [Terminal.resumeTty_drawingSuspended]
      omega

/-- In every run, one reader is alive while the terminal is not suspended and none while it
is, exactly if every outermost suspension finds the reader waiting for input. Witness: the
invariant, step by step.
-/
theorem input_exclusive_iff (events : List TerminalEvent)
    : Along Terminal.step (fun _ _ after => Exclusive after) .startup events
      ↔ Along Terminal.step (fun before event _ => FindsWaiting before event) .startup events := by
  have atStart : TerminalInvariant .startup := ⟨rfl, Int.le_refl 0⟩
  exact along_iff events atStart
    (fun _ _ _ sound moves exclusive =>
      ⟨exclusive, Terminal.step_suspensions sound.suspensions moves⟩)
    (fun _ _ _ sound moves => sound.exclusive_iff moves)

/-- A key runs a command that suspends the terminal: the reader goes on, and when the command
has ended there are two of them.
-/
theorem input_exclusive_counterexample
    : run Terminal.step .startup
        [
          .begins 0, .readable 0, .resumed 0, .suspendTty, .drained 0,
          .callbackBegins, .resumeTty, .begins 1
        ]
        = some { readers := [.waiting, .waiting], drawingSuspended := 0, inCallback := true }
      ∧ ¬ Along Terminal.step (fun _ _ after => Exclusive after) .startup
        [.begins 0, .readable 0, .resumed 0, .suspendTty, .drained 0] := by
  refine ⟨rfl, fun exclusive => ?_⟩
  have oneAlive : Exclusive {
      readers := [.waiting], drawingSuspended := 1, inCallback := false } :=
    along_after exclusive rfl
  cases oneAlive

end Snowcone.EventLoop
