import Snowcone.Foundations.Runs
import Snowcone.Tasks.Passwords

/-! A task that executes a command is resumed once with its result if the process starts,
and never if it does not: the callback then comes while the task is still running.
-/

namespace Snowcone.Tasks

open Bytes Coroutine Runs

variable {Result : Type}

/-- The outcome of the process in its completions. -/
def exitOf (completions : List Completion) : Option (Option Bytes × Int) :=
  completions.findSome? (fun | .exited error code => some (error, code) | _ => none)

/-- The standard output in the completions. -/
def stdoutOf (completions : List Completion) : Option Bytes :=
  completions.findSome? (fun | .stdoutRead text => some text | _ => none)

/-- The standard error in the completions. -/
def stderrOf (completions : List Completion) : Option Bytes :=
  completions.findSome? (fun | .stderrRead text => some text | _ => none)

/-- The result of a command: exit code and outputs, or nil and the error text. -/
def resultOf (completions : List Completion) : List LuaValue :=
  match exitOf completions with
  | some (some what, _) => [.nil, .string what]
  | some (none, code) =>
      [.integer code, .string ((stdoutOf completions).getD []),
        .string ((stderrOf completions).getD [])]
  | none => []

/-- The entries about one call. -/
def historyOf (call : Nat) (log : List Entry) : List Entry :=
  log.filter (fun entry => entry.call == call)

/-- The task yields, all operations complete in some order, and it is resumed once, with
their result.
-/
def ResumedOnce (log : List Entry) (call : Nat) : Prop :=
  ∃ hasInput completions,
    (completions.map Completion.operation).Perm (operationsFor hasInput)
    ∧ historyOf call log =
      .called call hasInput :: .yielded call
        :: completions.map (.completed call) ++ [.resumed call (resultOf completions)]

-----------------------------------------------------------------------------------------
-- Completions
-----------------------------------------------------------------------------------------

/-- The shared state after some completions. -/
def execOf (stage : Int) (completions : List Completion) : Exec :=
  {
    stage
    errorCode := (exitOf completions).elim none (·.1)
    exitCode := (exitOf completions).elim 0 (·.2)
    stdoutText := (stdoutOf completions).getD []
    stderrText := (stderrOf completions).getD []
  }

/-- Nothing is found in the completions about an operation that has not completed. -/
theorem findSome_eq_none {Found : Type} {find : Completion → Option Found}
    {operation : Operation} {completions : List Completion}
    (about : ∀ completion, completion.operation ≠ operation → find completion = none)
    (absent : operation ∉ completions.map Completion.operation)
    : completions.findSome? find = none := by
  rw [List.findSome?_eq_none_iff]
  intro completion isIn
  apply about
  rintro rfl
  exact absent (List.mem_map_of_mem isIn)

/-- Storing a completion of an operation that had not completed, by cases on it. -/
theorem execOf_store (stage : Int) {completions : List Completion} {completion : Completion}
    (first : completion.operation ∉ completions.map Completion.operation)
    : (execOf stage completions).store completion
      = execOf stage (completions ++ [completion]) := by
  cases completion with
  | written => simp [execOf, Exec.store, exitOf, stdoutOf, stderrOf, List.findSome?_append]
  | stdoutRead text =>
      have nothing : stdoutOf completions = none :=
        findSome_eq_none (by rintro (_ | _ | _ | _) other <;> simp_all [Completion.operation]) first
      simp only [stdoutOf] at nothing
      simp [execOf, Exec.store, exitOf, stdoutOf, stderrOf, List.findSome?_append, nothing]
  | stderrRead text =>
      have nothing : stderrOf completions = none :=
        findSome_eq_none (by rintro (_ | _ | _ | _) other <;> simp_all [Completion.operation]) first
      simp only [stderrOf] at nothing
      simp [execOf, Exec.store, exitOf, stdoutOf, stderrOf, List.findSome?_append, nothing]
  | exited error code =>
      have nothing : exitOf completions = none :=
        findSome_eq_none (by rintro (_ | _ | _ | _) other <;> simp_all [Completion.operation]) first
      simp only [exitOf] at nothing
      simp [execOf, Exec.store, exitOf, stdoutOf, stderrOf, List.findSome?_append, nothing]

/-- Counting an operation as complete: the handler is invoked when none is left. -/
theorem execOf_complete (count : Nat) (completions : List Completion)
    : (execOf count completions).complete
      = (execOf (count - 1 : Int) completions,
        if count = 1 then some (execOf 0 completions).handler else none) := by
  have zero : ((count : Int) - 1 = 0) ↔ count = 1 := by omega
  simp only [Exec.complete, execOf, Exec.handler, zero]

/-- Once the wait has completed the handler is invoked with the result. -/
theorem handler_execOf (stage : Int) {completions : List Completion}
    (waited : Operation.wait ∈ completions.map Completion.operation)
    : (execOf stage completions).handler = resultOf completions := by
  cases outcome : exitOf completions with
  | none =>
      obtain ⟨completion, isIn, isWait⟩ := List.mem_map.mp waited
      rw [exitOf, List.findSome?_eq_none_iff] at outcome
      cases completion with
      | exited error code => exact absurd (outcome _ isIn) (by simp)
      | _ => cases isWait
  | some exit =>
      obtain ⟨error, code⟩ := exit
      cases error <;> simp [Exec.handler, execOf, resultOf, outcome]

/-- Every command is waited for. -/
theorem wait_mem_operationsFor (hasInput : Bool) : Operation.wait ∈ operationsFor hasInput := by
  cases hasInput <;> decide

/-- Some operation is initiated for every command. -/
theorem operationsFor_ne_nil (hasInput : Bool) : operationsFor hasInput ≠ [] :=
  List.ne_nil_of_mem (wait_mem_operationsFor hasInput)

/-- No operation is initiated twice. -/
theorem operationsFor_nodup (hasInput : Bool) : (operationsFor hasInput).Nodup := by
  cases hasInput <;> decide

@[simp] theorem historyOf_append (call : Nat) (log later : List Entry)
    : historyOf call (log ++ later) = historyOf call log ++ historyOf call later :=
  List.filter_append ..

/-- Entries about other calls do not count. -/
theorem historyOf_eq_nil {call : Nat} {log : List Entry}
    (others : ∀ entry ∈ log, entry.call ≠ call)
    : historyOf call log = [] := by
  rw [historyOf, List.filter_eq_nil_iff]
  intro entry isIn
  simpa using others entry isIn

/-- A call that is over: resumed once if its process started, and otherwise never. -/
inductive Over (spawn : Nat → Option Bytes) (log : List Entry) (call : Nat) : Prop where
  | resumed (starts : spawn call = none) (once : ResumedOnce log call)
  | stuck (fails : spawn call ≠ none) (never : ∀ values, .resumed call values ∉ log)

/-- A call that is finished stays so while other calls go on. -/
theorem Over.append {spawn : Nat → Option Bytes} {log later : List Entry} {call : Nat}
    (finished : Over spawn log call) (others : ∀ entry ∈ later, entry.call ≠ call)
    : Over spawn (log ++ later) call := by
  cases finished with
  | resumed starts once =>
      obtain ⟨hasInput, completions, order, history⟩ := once
      refine .resumed starts ⟨hasInput, completions, order, ?_⟩
      rw [historyOf_append, historyOf_eq_nil others, history, List.append_nil]
  | stuck fails never =>
      refine .stuck fails (fun values isIn => ?_)
      rcases List.mem_append.mp isIn with earlier | isLater
      · exact never values earlier
      · exact others _ isLater rfl

/-- For a call that is finished, whether it was resumed once is whether its process started. -/
theorem Over.iff {spawn : Nat → Option Bytes} {log : List Entry} {call : Nat}
    (finished : Over spawn log call)
    : ResumedOnce log call ↔ spawn call = none := by
  cases finished with
  | resumed starts once => exact ⟨fun _ => starts, fun _ => once⟩
  | stuck fails never =>
      refine ⟨fun once => ?_, fun starts => absurd starts fails⟩
      obtain ⟨hasInput, completions, -, history⟩ := once
      have isIn : Entry.resumed call (resultOf completions) ∈ historyOf call log := by
        rw [history]
        simp
      exact absurd (List.mem_filter.mp isIn).1 (never _)

-----------------------------------------------------------------------------------------
-- The invariant
-----------------------------------------------------------------------------------------

/-- No process runs, and all calls so far are finished. -/
structure Settled (spawn : Nat → Option Bytes) (world : World Result) : Prop where
  known : ∀ entry ∈ world.log, entry.call < world.calls
  finished : ∀ call < world.calls, Over spawn world.log call
  idle : world.process = none

/-- The latest call has a process with operations that are outstanding, and the task is suspended
for it.
-/
structure Underway (spawn : Nat → Option Bytes) (world : World Result) (process : Process)
    : Prop where
  known : ∀ entry ∈ world.log, entry.call < world.calls
  latest : world.calls = process.call + 1
  finished : ∀ call < process.call, Over spawn world.log call
  starts : spawn process.call = none
  yields : ∃ next, world.co = .suspended next
  awaits : ∃ call, world.suspension = some (.execute call)
  busy : process.outstanding ≠ []
  history : ∃ hasInput completions,
    historyOf process.call world.log =
      .called process.call hasInput :: .yielded process.call
        :: completions.map (.completed process.call)
    ∧ (completions.map Completion.operation ++ process.outstanding).Perm
      (operationsFor hasInput)
    ∧ process.exec = execOf process.outstanding.length completions

/-- What holds between any two turns of the event loop. -/
inductive Invariant (spawn : Nat → Option Bytes) (world : World Result) : Prop where
  | settled (settled : Settled spawn world)
  | underway (process : Process) (runs : world.process = some process)
    (underway : Underway spawn world process)

/-- Leaving the queue changes nothing else. -/
theorem leaveQueue_eq (world : World Result)
    : ∃ queued, world.leaveQueue = { world with queued } := by
  unfold World.leaveQueue
  split
  · exact ⟨false, rfl⟩
  · exact ⟨world.queued, rfl⟩

/-- The invariant does not speak of the queue. -/
theorem Invariant.leaveQueue {spawn : Nat → Option Bytes} {world : World Result}
    (holds : Invariant spawn world)
    : Invariant spawn world.leaveQueue := by
  obtain ⟨queued, same⟩ := leaveQueue_eq world
  rw [same]
  cases holds with
  | settled settled => exact .settled ⟨settled.known, settled.finished, settled.idle⟩
  | underway process runs underway =>
      exact .underway process runs ⟨underway.known, underway.latest, underway.finished,
        underway.starts, underway.yields, underway.awaits, underway.busy, underway.history⟩

/-- A running task is not resumed: `Task:resume` only reports a failure. -/
theorem resume_running (spawn : Nat → Option Bytes) (depth : Nat)
    : ∃ message, ∀ (world : World Result) call values,
      world.co = .running
      → resume spawn depth world (some call) values = world.refuse (some call) message := by
  cases depth with
  | zero =>
      refine ⟨"C stack overflow", fun world call values runs => ?_⟩
      simp [resume, World.leaveQueue, World.refuse, World.note, runs]
  | succ depth =>
      refine ⟨refusalText .notSuspended, fun world call values runs => ?_⟩
      simp [resume, State.resume, World.leaveQueue, World.refuse, World.note, runs]

/-- A command whose process starts: its operations are outstanding. -/
theorem beginExecute_starts {spawn : Nat → Option Bytes} {world : World Result}
    (resume : World Result → Option Nat → List LuaValue → World Result) (call : Call)
    (starts : spawn world.calls = none)
    : ∃ drawingSuspended,
      beginExecute spawn resume world call =
        {
          world with
          drawingSuspended
          calls := world.calls + 1
          log := world.log ++ [.called world.calls call.input.isSome]
          process := some {
            call := world.calls
            useTty := call.input.isNone
            exec := Exec.new call.input
            outstanding := operationsFor call.input.isSome
          }
        } := by
  cases input : call.input <;>
    simp [beginExecute, initiation, input, World.suspendTty, World.note, starts]

/-- A command whose process cannot be started: the callback comes at once, and it cannot
resume the task, which is still running.
-/
theorem beginExecute_fails {spawn : Nat → Option Bytes} {world : World Result} {code : Bytes}
    (depth : Nat) (call : Call) (fails : spawn world.calls = some code)
    (runs : world.co = .running)
    : ∃ statuses message,
      beginExecute spawn (resume spawn depth) world call =
        {
          world with
          statuses
          calls := world.calls + 1
          log := world.log
            ++ [.called world.calls call.input.isSome, .refused world.calls message]
        } := by
  obtain ⟨message, refused⟩ := @resume_running Result spawn depth
  refine ⟨world.statuses ++ [lit message], message, ?_⟩
  cases input : call.input <;>
    simp [beginExecute, initiation, Exec.complete, callback, input, fails, refused, runs,
      World.refuse, World.note, World.suspendTty, World.resumeTty]

/-- Entries about the latest call come after entries about the calls before. -/
theorem known_append {log later : List Entry} {calls : Nat}
    (known : ∀ entry ∈ log, entry.call < calls) (latest : ∀ entry ∈ later, entry.call = calls)
    : ∀ entry ∈ log ++ later, entry.call < calls + 1 := by
  intro entry isIn
  rcases List.mem_append.mp isIn with earlier | isLater
  · exact Nat.lt_succ_of_lt (known entry earlier)
  · exact Nat.lt_succ_of_le (latest entry isLater).le

/-- The calls before the latest one are finished whatever the latest one does. -/
theorem over_append {spawn : Nat → Option Bytes} {log later : List Entry} {calls : Nat}
    (finished : ∀ call < calls, Over spawn log call)
    (latest : ∀ entry ∈ later, entry.call = calls)
    : ∀ call < calls, Over spawn (log ++ later) call := by
  intro call before
  refine (finished call before).append (fun entry isLater same => ?_)
  rw [latest entry isLater] at same
  omega

/-- A task that suspends for a command leads to a state with the invariant: the process is
under way, or it could not be started and the call is stuck.
-/
theorem enter_invariant {spawn : Nat → Option Bytes} {world : World Result} (depth : Nat)
    (settled : Settled spawn world) (runs : world.co = .running) (call : Call)
    (next : List LuaValue → Script Result)
    : Invariant spawn (proceed (beginExecute spawn (resume spawn depth)) world
        (.yields (.execute call) next)) := by
  obtain ⟨known, finished, idle⟩ := settled
  cases outcome : spawn world.calls with
  | none =>
      obtain ⟨drawingSuspended, entered⟩ :=
        beginExecute_starts (resume spawn depth) call outcome
      have latest : ∀ entry ∈ [Entry.called world.calls call.input.isSome,
          .yielded world.calls], entry.call = world.calls := by
        simp [Entry.call]
      simp only [proceed, World.note, entered, List.append_assoc, List.cons_append,
        List.nil_append]
      refine .underway _ rfl ?_
      constructor
      case known => exact known_append known latest
      case latest => rfl
      case finished => exact over_append finished latest
      case starts => exact outcome
      case yields => exact ⟨next, rfl⟩
      case awaits => exact ⟨call, rfl⟩
      case busy => exact operationsFor_ne_nil call.input.isSome
      case history =>
        have unknown : historyOf world.calls world.log = [] :=
          historyOf_eq_nil (fun entry isIn => (known entry isIn).ne)
        refine ⟨call.input.isSome, [], ?_, .rfl, ?_⟩
        · rw [historyOf_append, unknown]
          simp [historyOf, Entry.call]
        · cases call.input <;> rfl
  | some code =>
      obtain ⟨statuses, message, entered⟩ := beginExecute_fails depth call outcome runs
      have latest : ∀ entry ∈ [Entry.called world.calls call.input.isSome,
          .refused world.calls message, .yielded world.calls], entry.call = world.calls := by
        simp [Entry.call]
      simp only [proceed, World.note, entered, List.append_assoc, List.cons_append,
        List.nil_append]
      refine .settled ⟨known_append known latest, fun earlier isEarlier => ?_, idle⟩
      rcases Nat.lt_succ_iff_lt_or_eq.mp isEarlier with before | rfl
      · exact over_append finished latest earlier before
      · refine .stuck (by simp [outcome]) (fun values isIn => ?_)
        rcases List.mem_append.mp isIn with isKnown | isLatest
        · exact (known _ isKnown).ne rfl
        · simp at isLatest

/-- Running the body of a task that has no process leads to a state with the invariant, by
cases on what the body does next.
-/
theorem proceed_invariant {spawn : Nat → Option Bytes} {world : World Result} (depth : Nat)
    (settled : Settled spawn world) (runs : world.co = .running) (body : Script Result)
    : Invariant spawn (proceed (beginExecute spawn (resume spawn depth)) world body) := by
  obtain ⟨known, finished, idle⟩ := settled
  cases body with
  | returns result => exact .settled ⟨known, finished, idle⟩
  | raises error => exact .settled ⟨known, finished, idle⟩
  | yields suspension next =>
      cases suspension with
      | prompt label => exact .settled ⟨known, finished, idle⟩
      | other => exact .settled ⟨known, finished, idle⟩
      | execute call => exact enter_invariant depth ⟨known, finished, idle⟩ runs call next

-----------------------------------------------------------------------------------------
-- Turns of the event loop
-----------------------------------------------------------------------------------------

/-- Resuming a task that has no process keeps the invariant. -/
theorem resume_invariant {spawn : Nat → Option Bytes} {world : World Result}
    (settled : Settled spawn world) (depth : Nat) (values : List LuaValue)
    : Invariant spawn (resume spawn depth world none values) := by
  have refused (message : String) : Invariant spawn (world.refuse none message) :=
    .settled ⟨settled.known, settled.finished, settled.idle⟩
  cases depth with
  | zero => exact (refused _).leaveQueue
  | succ depth =>
      cases attempt : world.co.resume values with
      | error refusal =>
          simp only [resume, attempt]
          exact (refused _).leaveQueue
      | ok body =>
          simp only [resume, attempt]
          have runs : Settled spawn { world with co := .running } :=
            ⟨settled.known, settled.finished, settled.idle⟩
          exact (proceed_invariant depth runs rfl body).leaveQueue

/-- A task that is resumed with the result of its latest call: the call is finished, and the
body goes on.
-/
theorem result_invariant {spawn : Nat → Option Bytes} {world : World Result}
    {call : Nat} {hasInput : Bool} {completions : List Completion}
    {next : List LuaValue → Script Result} (depth : Nat)
    (known : ∀ entry ∈ world.log, entry.call < world.calls)
    (latest : world.calls = call + 1) (finished : ∀ earlier < call, Over spawn world.log earlier)
    (idle : world.process = none) (starts : spawn call = none)
    (yields : world.co = .suspended next)
    (order : (completions.map Completion.operation).Perm (operationsFor hasInput))
    (history : historyOf call world.log =
      .called call hasInput :: .yielded call :: completions.map (.completed call))
    : Invariant spawn
      (resume spawn (depth + 1) world (some call) (resultOf completions)) := by
  have settled : Settled spawn
      (World.note { world with co := .running } (.resumed call (resultOf completions))) := by
    refine ⟨?_, ?_, idle⟩
    · intro entry isIn
      rcases List.mem_append.mp isIn with earlier | isLast
      · exact known entry earlier
      · obtain rfl := List.mem_singleton.mp isLast
        exact latest ▸ Nat.lt_succ_self call
    · intro earlier isEarlier
      rcases Nat.lt_succ_iff_lt_or_eq.mp (latest ▸ isEarlier) with before | rfl
      · refine (finished earlier before).append (fun entry isLast => ?_)
        obtain rfl := List.mem_singleton.mp isLast
        exact before.ne'
      · refine .resumed starts ⟨hasInput, completions, order, ?_⟩
        rw [World.note, historyOf_append, history]
        simp [historyOf, Entry.call]
  have resumes : world.co.resume (resultOf completions) = .ok (next (resultOf completions)) := by
    rw [yields]
    rfl
  simp only [resume, resumes]
  exact (proceed_invariant depth settled rfl _).leaveQueue

/-- A completion takes its operation out of the outstanding ones. -/
theorem completion_order {completions : List Completion} {outstanding : List Operation}
    {completion : Completion} {hasInput : Bool}
    (order : (completions.map Completion.operation ++ outstanding).Perm
      (operationsFor hasInput))
    (isOutstanding : completion.operation ∈ outstanding)
    : ((completions ++ [completion]).map Completion.operation
        ++ outstanding.erase completion.operation).Perm (operationsFor hasInput) := by
  refine List.Perm.trans ?_ order
  rw [List.map_append, List.append_assoc]
  exact (List.perm_cons_erase isOutstanding).symm.append_left _

/-- A completion keeps the invariant: the last one resumes the task, and the ones before
only count down.
-/
theorem completes_invariant {spawn : Nat → Option Bytes} {world world' : World Result}
    (holds : Invariant spawn world) (completion : Completion)
    (moves : step spawn world (.completes completion) = some world')
    : Invariant spawn world' := by
  cases holds with
  | settled settled => simp [step, settled.idle] at moves
  | underway process runs underway =>
      obtain ⟨known, latest, finished, starts, ⟨next, yields⟩, awaits, -, hasInput, completions,
        history, order, shared⟩ := underway
      simp only [step, runs] at moves
      split at moves
      case isFalse => cases moves
      case isTrue outstanding =>
        have order' := completion_order order outstanding
        have first : completion.operation ∉ completions.map Completion.operation := by
          have distinct := order.nodup_iff.mpr (operationsFor_nodup hasInput)
          exact fun isIn => (List.nodup_append.mp distinct).2.2 _ isIn _ outstanding rfl
        have knownAfter : ∀ entry ∈ world.log ++ [.completed process.call completion],
            entry.call < world.calls := by
          intro entry isIn
          rcases List.mem_append.mp isIn with earlier | isLast
          · exact known entry earlier
          · obtain rfl := List.mem_singleton.mp isLast
            exact latest ▸ Nat.lt_succ_self process.call
        have overAfter : ∀ call < process.call,
            Over spawn (world.log ++ [.completed process.call completion]) call :=
          over_append finished (by simp [Entry.call])
        have historyAfter :
            historyOf process.call (world.log ++ [.completed process.call completion]) =
              .called process.call hasInput :: .yielded process.call
                :: (completions ++ [completion]).map (.completed process.call) := by
          rw [historyOf_append, history]
          simp [historyOf, Entry.call]
        rw [shared, execOf_store _ first, execOf_complete] at moves
        have count := List.length_erase_of_mem outstanding
        have some_outstanding := List.length_pos_of_mem outstanding
        by_cases last : process.outstanding.length = 1
        · have nothing : process.outstanding.erase completion.operation = [] :=
            List.eq_nil_of_length_eq_zero (by omega)
          rw [nothing, List.append_nil] at order'
          rw [if_pos last, handler_execOf 0 (order'.mem_iff.mpr (wait_mem_operationsFor _))]
            at moves
          obtain rfl := Option.some.inj moves
          unfold callback
          split
          · exact result_invariant _ knownAfter latest overAfter rfl starts yields order'
              historyAfter
          · exact result_invariant _ knownAfter latest overAfter rfl starts yields order'
              historyAfter
        · rw [if_neg last] at moves
          obtain rfl := Option.some.inj moves
          have left : process.outstanding.erase completion.operation ≠ [] := by
            refine List.ne_nil_of_length_pos ?_
            omega
          refine .underway _ rfl ⟨knownAfter, latest, overAfter, starts, ⟨next, yields⟩, awaits,
            left, hasInput, completions ++ [completion], historyAfter, order', ?_⟩
          simp only [count]
          congr 1
          omega

/-- A turn of the event loop keeps the invariant, by cases on the event. -/
theorem step_invariant {spawn : Nat → Option Bytes} {world world' : World Result}
    (holds : Invariant spawn world) (event : Event)
    (moves : step spawn world event = some world')
    : Invariant spawn world' := by
  cases event with
  | completes completion => exact completes_invariant holds completion moves
  | wakes values =>
      cases holds with
      | settled settled =>
          simp only [step] at moves
          split at moves
          · cases moves
          · cases moves
          · obtain rfl := Option.some.inj moves
            exact resume_invariant settled _ values
      | underway process runs underway =>
          obtain ⟨call, awaits⟩ := underway.awaits
          simp [step, awaits] at moves

/-- A new task satisfies the invariant. -/
theorem start_invariant (spawn : Nat → Option Bytes) (body : Script Result)
    : Invariant spawn (start spawn body) := by
  refine resume_invariant ⟨?_, ?_, rfl⟩ maxCCalls []
  · exact fun entry isIn => absurd isIn (List.not_mem_nil)
  · exact fun call isEarlier => absurd isEarlier (Nat.not_lt_zero call)

/-- In every run of a task, a call of `Task:execute` of which no operation is outstanding resumed
the task once, with the result and after the task had yielded, exactly if its process could be
started. Witness: the invariant of the turns, at the end of the run.
-/
theorem execute_resumes_once_iff {spawn : Nat → Option Bytes} {body : Script Result}
    {events : List Event} {world : World Result}
    (run : Reaches (step spawn) (start spawn body) events world) {call : Nat}
    (called : call < world.calls)
    (completed : ∀ process, world.process = some process → process.call = call
      → process.outstanding = [])
    : ResumedOnce world.log call ↔ spawn call = none := by
  have holds : Invariant spawn world :=
    run.invariant (start_invariant spawn body)
      (fun _ event _ holds moves => step_invariant holds event moves)
  cases holds with
  | settled settled => exact (settled.finished call called).iff
  | underway process runs underway =>
      have others : process.call ≠ call := fun same =>
        underway.busy (completed process runs same)
      have latest := underway.latest
      exact (underway.finished call (by omega)).iff

/-- A command that prints a password and exits, its exit being noticed first. -/
theorem execute_resumes_once_witness
    : ∃ world : World LuaValue,
      Reaches (step (fun _ => none))
        (start (fun _ => none) (resolvePassword .error (.command (lit "pass") [] false false)))
        [.completes (.exited none 0), .completes (.stdoutRead (lit "hush\n")),
          .completes .written, .completes (.stderrRead [])]
        world
      ∧ world.ended = some (.ok (.string (lit "hush")))
      ∧ (ResumedOnce world.log 0 ↔ (none : Option Bytes) = none) := by
  let reached := run (step (fun _ => none))
    (start (fun _ => none) (resolvePassword .error (.command (lit "pass") [] false false)))
    [.completes (.exited none 0), .completes (.stdoutRead (lit "hush\n")),
      .completes .written, .completes (.stderrRead [])]
  have runs : reached = some (reached.get rfl) := (Option.some_get _).symm
  have idle : (reached.get rfl).process = none := rfl
  refine ⟨reached.get rfl, reaches_of_run runs, rfl, ?_⟩
  refine execute_resumes_once_iff (reaches_of_run runs) (by decide) fun process isProcess => ?_
  rw [idle] at isProcess
  cases isProcess

/-- A password command that cannot be started: the task is refused while it runs, yields,
and nothing can resume it any more.
-/
theorem execute_resumes_once_counterexample
    : let spawn : Nat → Option Bytes := fun _ => some (lit "No such file or directory")
      let world : World LuaValue :=
        start spawn (resolvePassword .error (.command (lit "pass") [] false false))
      0 < world.calls ∧ world.process = none
      ∧ ¬ ResumedOnce world.log 0
      ∧ world.ended = none
      ∧ ∀ event, step spawn world event = none := by
  intro spawn world
  have log : world.log =
      [.called 0 true, .refused 0 "cannot resume non-suspended coroutine", .yielded 0] := rfl
  refine ⟨Nat.one_pos, rfl, ?_, rfl, ?_⟩
  · rintro ⟨hasInput, completions, -, history⟩
    rw [log] at history
    simp [historyOf, Entry.call] at history
  · intro event
    cases event <;> rfl

end Snowcone.Tasks
