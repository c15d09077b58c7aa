import Snowcone.Foundations.Bytes
import Snowcone.Foundations.Runs

/-! The write side of a connection: what is passed to `write` while a write is outstanding
is collected for the next one.
-/

namespace Snowcone.Network

open Bytes Runs

/-- The buffers of a connection, and the contents that every outstanding `async_write` was
started with.
-/
structure Connection where
  sending : Bytes
  send : Bytes
  writes : List Bytes
  deriving DecidableEq

/-- A connection when it is made. -/
def Connection.create : Connection := { sending := [], send := [], writes := [] }

/-- `connection::write_actual`. -/
def Connection.writeActual (connection : Connection) : Connection :=
  {
    sending := connection.send
    send := connection.sending
    writes := connection.writes ++ [connection.send]
  }

/-- `connection::write`. -/
def Connection.write (connection : Connection) (cmd : Bytes) : Connection :=
  if cmd = [] then connection
  else
    let connection := { connection with send := connection.send ++ cmd }
    if connection.sending = [] then connection.writeActual else connection

/-- The completion handler of `write_actual`. -/
def Connection.onWritten (connection : Connection) (error : Bool) : Connection :=
  let connection := { connection with sending := [] }
  if ¬ error ∧ connection.send ≠ [] then connection.writeActual else connection

/-- A connection with its history: everything that was passed to `write`, the bytes of the
completed writes, and whether a write has failed.
-/
structure History where
  connection : Connection
  passed : Bytes
  written : Bytes
  failed : Bool
  deriving DecidableEq

/-- The history of a new connection. -/
def History.start : History :=
  { connection := .create, passed := [], written := [], failed := false }

/-- A call of `write`, or the completion of one of the outstanding writes. -/
inductive WriteEvent where
  | write (cmd : Bytes)
  | completed (index : Nat) (error : Bool)

/-- One event. -/
def History.step (history : History) : WriteEvent → Option History
  | .write cmd =>
      some {
        history with
        connection := history.connection.write cmd
        passed := history.passed ++ cmd
      }
  | .completed index error => do
      let content ← history.connection.writes[index]?
      let connection := {
        history.connection with writes := history.connection.writes.eraseIdx index
      }
      some {
        history with
        connection := connection.onWritten error
        written := if error then history.written else history.written ++ content
        failed := history.failed || error
      }

/-- What holds of a connection whose writes succeed. -/
structure Faithful (history : History) : Prop where
  single : history.connection.writes.length ≤ 1
  inOrder : history.written ++ history.connection.sending ++ history.connection.send
    = history.passed
  untouched : ∀ content ∈ history.connection.writes, content = history.connection.sending
  settled : history.connection.writes = []
    → history.connection.sending = [] ∧ history.connection.send = []

/-- What is being sent is empty exactly if no write is outstanding. -/
structure Balanced (history : History) : Prop extends Faithful history where
  busy : history.connection.writes ≠ [] → history.connection.sending ≠ []

/-- A balanced connection either is at rest or has one write, of what is being sent. -/
theorem Balanced.cases {history : History} (balanced : Balanced history)
    : history.connection.writes = []
        ∧ history.connection.sending = [] ∧ history.connection.send = []
      ∨ history.connection.writes = [history.connection.sending]
        ∧ history.connection.sending ≠ [] := by
  cases writes : history.connection.writes with
  | nil => exact .inl ⟨rfl, balanced.settled writes⟩
  | cons content more =>
      have isSending : content = history.connection.sending :=
        balanced.untouched content (by rw [writes]; exact List.mem_cons_self)
      have noMore : more = [] := by
        have single := balanced.single
        rw [writes, List.length_cons] at single
        exact List.length_eq_zero_iff.mp (by omega)
      refine .inr ⟨by rw [isSending, noMore], balanced.busy ?_⟩
      rw [writes]
      exact List.cons_ne_nil _ _

/-- A write is started if none is outstanding, and waits for its turn otherwise. -/
theorem Balanced.write {history history' : History} {cmd : Bytes} (balanced : Balanced history)
    (moves : history.step (.write cmd) = some history')
    : Balanced history' := by
  obtain rfl := Option.some.inj moves
  by_cases noBytes : cmd = []
  · simpa [Connection.write, noBytes] using balanced
  rcases balanced.cases with ⟨noWrites, notSending, noSend⟩ | ⟨writes, sending⟩
  · have inOrder := balanced.inOrder
    rw [notSending, noSend, List.append_nil, List.append_nil] at inOrder
    refine { single := ?_, inOrder := ?_, untouched := ?_, settled := ?_, busy := ?_ } <;>
      simp [Connection.write, Connection.writeActual, noBytes, notSending, noSend, noWrites,
        inOrder]
  · refine { single := ?_, inOrder := ?_, untouched := ?_, settled := ?_, busy := ?_ } <;>
      simp [Connection.write, noBytes, sending, writes, ← balanced.inOrder]

/-- A completed write is followed by a write of what was collected, if there is any. -/
theorem Balanced.completed {history history' : History} {index : Nat}
    (balanced : Balanced history)
    (moves : history.step (.completed index false) = some history')
    : Balanced history' := by
  obtain ⟨content, found, isNext⟩ := Option.bind_eq_some_iff.mp moves
  obtain rfl := Option.some.inj isNext
  rcases balanced.cases with ⟨noWrites, -, -⟩ | ⟨writes, -⟩
  · simp [noWrites] at found
  · obtain ⟨rfl, rfl⟩ : index = 0 ∧ content = history.connection.sending := by
      rw [writes, List.getElem?_singleton] at found
      split at found
      · next isFirst => exact ⟨isFirst, (Option.some.inj found).symm⟩
      · cases found
    have inOrder := balanced.inOrder
    by_cases collected : history.connection.send = []
    · rw [collected, List.append_nil] at inOrder
      refine { single := ?_, inOrder := ?_, untouched := ?_, settled := ?_, busy := ?_ } <;>
        simp [Connection.onWritten, writes, collected, inOrder]
    · refine { single := ?_, inOrder := ?_, untouched := ?_, settled := ?_, busy := ?_ } <;>
        simp [Connection.onWritten, Connection.writeActual, writes, collected, inOrder]

/-- Failures are not forgotten, and without one a step keeps the connection balanced. -/
theorem History.step_balanced {history history' : History} {event : WriteEvent}
    (balanced : history.failed = false → Balanced history)
    (moves : history.step event = some history') (noFailure : history'.failed = false)
    : Balanced history' := by
  cases event with
  | write cmd =>
      obtain rfl := Option.some.inj moves
      exact (balanced noFailure).write rfl
  | completed index error =>
      obtain ⟨content, found, isNext⟩ := Option.bind_eq_some_iff.mp moves
      obtain rfl := Option.some.inj isNext
      obtain ⟨noneBefore, succeeded⟩ := Bool.or_eq_false_iff.mp noFailure
      subst succeeded
      exact (balanced noneBefore).completed moves

/-- In every run in which no write has failed, at most one write is outstanding, nothing is
lost, reordered or changed while it is sent, and nothing is left behind. Witness: the step
lemma along the run.
-/
theorem connection_writes_faithfully {events : List WriteEvent} {history : History}
    (run : Reaches History.step .start events history) (noFailure : history.failed = false)
    : Faithful history := by
  have atStart : Balanced .start := by
    refine { single := ?_, inOrder := ?_, untouched := ?_, settled := ?_, busy := ?_ } <;>
      simp [History.start, Connection.create]
  have kept (state : History) (event : WriteEvent) (state' : History)
      (balanced : state.failed = false → Balanced state)
      (moves : state.step event = some state')
      : state'.failed = false → Balanced state' :=
    History.step_balanced balanced moves
  have balanced : history.failed = false → Balanced history :=
    run.invariant (fun _ => atStart) kept
  exact (balanced noFailure).toFaithful

/-- `connection_writes_faithfully` after a write that was collected behind another one. -/
theorem connection_writes_faithfully_witness
    : Faithful {
      connection := { sending := lit "two", send := [], writes := [lit "two"] }
      passed := lit "onetwo"
      written := lit "one"
      failed := false
    } := by
  have run : Reaches History.step .start
      [.write (lit "one"), .write (lit "two"), .completed 0 false] _ :=
    reaches_of_run rfl
  exact connection_writes_faithfully run rfl

end Snowcone.Network
