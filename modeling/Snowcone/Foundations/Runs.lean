/-! Runs of a system that takes one step for each event. -/

namespace Runs

variable {State Event : Type}

/-- The state that a run of events reaches; a step that is not possible ends no run. -/
inductive Reaches (step : State → Event → Option State) (start : State)
    : List Event → State → Prop
  | start : Reaches step start [] start
  | next {events state event state'} (earlier : Reaches step start events state)
    (moves : step state event = some state')
    : Reaches step start (events ++ [event]) state'

/-- A run can begin one step earlier, by induction on the run. -/
theorem Reaches.cons {step : State → Event → Option State} {start middle state : State}
    {event : Event} {events : List Event} (moves : step start event = some middle)
    (later : Reaches step middle events state)
    : Reaches step start (event :: events) state := by
  induction later with
  | start => exact .next .start moves
  | next _ last ih => exact .next ih last

/-- The state that a run of events reaches, computed. -/
def run (step : State → Event → Option State) (start : State) : List Event → Option State
  | [] => some start
  | event :: events => (step start event).bind (fun next => run step next events)

/-- A run goes on where its first part ends, by induction on the first part. -/
theorem run_append (step : State → Event → Option State) (start : State)
    (events more : List Event)
    : run step start (events ++ more)
      = (run step start events).bind (fun middle => run step middle more) := by
  induction events generalizing start with
  | nil => rfl
  | cons event events ih =>
      simp only [List.cons_append, run, Option.bind_assoc]
      exact congrArg _ (funext (fun next => ih next))

/-- A computed run is a run, by induction on the events. -/
theorem reaches_of_run {step : State → Event → Option State} {start state : State}
    {events : List Event} (runs : run step start events = some state)
    : Reaches step start events state := by
  induction events generalizing start with
  | nil =>
      obtain rfl := Option.some.inj runs
      exact .start
  | cons event events ih =>
      obtain ⟨middle, moves, later⟩ := Option.bind_eq_some_iff.mp runs
      exact (ih later).cons moves

/-- What holds at the start and is kept by every step holds in every reachable state, by
induction on the run.
-/
theorem Reaches.invariant {step : State → Event → Option State} {start state : State}
    {events : List Event} {holds : State → Prop}
    (run : Reaches step start events state) (atStart : holds start)
    (kept : ∀ state event state', holds state → step state event = some state' → holds state')
    : holds state := by
  induction run with
  | start => exact atStart
  | next _ moves ih => exact kept _ _ _ ih moves

/-- Every step that a run of events takes meets a condition. -/
def Along (step : State → Event → Option State) (holds : State → Event → State → Prop)
    : State → List Event → Prop
  | _, [] => True
  | state, event :: events =>
      ∀ state', step state event = some state' →
        holds state event state' ∧ Along step holds state' events

/-- A run whose first step is possible. -/
theorem along_cons {step : State → Event → Option State}
    {holds : State → Event → State → Prop} {start middle : State} {event : Event}
    {events : List Event} (moves : step start event = some middle)
    : Along step holds start (event :: events)
      ↔ holds start event middle ∧ Along step holds middle events := by
  constructor
  · intro along
    exact along middle moves
  · intro along state' moves'
    obtain rfl := Option.some.inj (moves.symm.trans moves')
    exact along

/-- What holds after every step holds where the run ends, by induction on the events. -/
theorem along_after {step : State → Event → Option State} {holds : State → Prop}
    {start state : State} {event : Event} {events : List Event}
    (along : Along step (fun _ _ after => holds after) start (event :: events))
    (runs : run step start (event :: events) = some state)
    : holds state := by
  obtain ⟨middle, moves, later⟩ := Option.bind_eq_some_iff.mp runs
  obtain ⟨here, rest⟩ := along middle moves
  induction events generalizing start event middle with
  | nil =>
      obtain rfl := Option.some.inj later
      exact here
  | cons next events ih =>
      obtain ⟨middle', moves', later'⟩ := Option.bind_eq_some_iff.mp later
      obtain ⟨here', rest'⟩ := rest middle' moves'
      exact ih rest later middle' moves' later' here' rest'

/-- Conditions that agree on every reachable step of a run agree along the run, by induction on
the events. What is reachable may rest on the first condition at the steps before.
-/
theorem along_iff_of_mem {step : State → Event → Option State}
    {left right : State → Event → State → Prop} {reachable : State → Prop} {start : State}
    (events : List Event) (atStart : reachable start)
    (kept : ∀ state, ∀ event ∈ events, ∀ state', reachable state
      → step state event = some state' → left state event state' → reachable state')
    (agree : ∀ state, ∀ event ∈ events, ∀ state', reachable state
      → step state event = some state' → (left state event state' ↔ right state event state'))
    : Along step left start events ↔ Along step right start events := by
  induction events generalizing start with
  | nil => exact Iff.rfl
  | cons event events ih =>
      refine forall_congr' (fun state' => forall_congr' (fun moves => ?_))
      have here := agree start event List.mem_cons_self state' atStart moves
      rw [here]
      refine and_congr_right (fun holds => ih ?_ ?_ ?_)
      · exact kept start event List.mem_cons_self state' atStart moves (here.mpr holds)
      · exact fun state event member => kept state event (List.mem_cons_of_mem _ member)
      · exact fun state event member => agree state event (List.mem_cons_of_mem _ member)

/-- Conditions that agree on every reachable step agree along every run. -/
theorem along_iff {step : State → Event → Option State}
    {left right : State → Event → State → Prop} {reachable : State → Prop} {start : State}
    (events : List Event) (atStart : reachable start)
    (kept : ∀ state event state', reachable state → step state event = some state'
      → left state event state' → reachable state')
    (agree : ∀ state event state', reachable state → step state event = some state' →
      (left state event state' ↔ right state event state'))
    : Along step left start events ↔ Along step right start events :=
  along_iff_of_mem events atStart (fun state event _ => kept state event)
    (fun state event _ => agree state event)

/-- What every step from a reachable state meets is met along every run, by induction on the
events.
-/
theorem along_of {step : State → Event → Option State}
    {holds : State → Event → State → Prop} {reachable : State → Prop} {start : State}
    (events : List Event) (atStart : reachable start)
    (kept : ∀ state event state', reachable state → step state event = some state'
      → reachable state')
    (meets : ∀ state event state', reachable state → step state event = some state'
      → holds state event state')
    : Along step holds start events := by
  induction events generalizing start with
  | nil => trivial
  | cons event events ih =>
      intro state' moves
      exact ⟨meets start event state' atStart moves, ih (kept start event state' atStart moves)⟩

end Runs
