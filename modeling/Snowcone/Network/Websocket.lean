import Snowcone.Foundations.Bytes
import Snowcone.Foundations.Runs

/-! The write side of a websocket: a queue whose first message is being written, and a close
handshake after the last one.
-/

namespace Snowcone.Network

open Bytes Runs

/-- A websocket, and what was started on its stream: the contents of every outstanding
`async_write`, and how often `async_close` was started. `accepted` is whether the accept has
completed.
-/
structure Websocket where
  messages : List Bytes
  closed : Bool
  accepted : Bool
  writes : List Bytes
  closes : Nat
  deriving DecidableEq

/-- A websocket whose accept is pending, as `handle_websocket` gives it to the callback. -/
def Websocket.pending : Websocket :=
  { messages := [], closed := false, accepted := false, writes := [], closes := 0 }

/-- `Websocket::start_write`, which writes the first message of the queue. -/
def Websocket.startWrite (ws : Websocket) : Websocket :=
  { ws with writes := ws.writes ++ ws.messages.head?.toList }

/-- `Websocket::start_close`. -/
def Websocket.startClose (ws : Websocket) : Websocket := { ws with closes := ws.closes + 1 }

/-- `Websocket::close`. -/
def Websocket.close (ws : Websocket) : Websocket :=
  if ws.closed then ws
  else
    let ws := { ws with closed := true }
    if ws.messages = [] then ws.startClose else ws

/-- `Websocket::send`. -/
def Websocket.send (ws : Websocket) (str : Bytes) : Websocket :=
  if ws.closed then ws
  else
    let ws := { ws with messages := ws.messages ++ [str] }
    if ws.messages.length = 1 then ws.startWrite else ws

/-- `Websocket::on_accept`; reading is left out. -/
def Websocket.onAccept (ws : Websocket) (error : Bool) : Websocket :=
  if error then ws
  else
    let ws := { ws with accepted := true }
    if ws.messages ≠ [] then ws.startWrite else ws

/-- `Websocket::on_write`. -/
def Websocket.onWrite (ws : Websocket) (error : Bool) : Websocket :=
  if error then { ws with closed := true, messages := [] }
  else
    let ws := { ws with messages := ws.messages.tail }
    if ws.messages ≠ [] then ws.startWrite else if ws.closed then ws.startClose else ws

/-- A websocket with its history: the strings that `send` accepted, the strings that were
written, and whether the queue was popped when it was empty.
-/
structure WebsocketHistory where
  ws : Websocket
  sent : List Bytes
  written : List Bytes
  poppedEmpty : Bool
  deriving DecidableEq

/-- The history of a websocket whose accept is pending. -/
def WebsocketHistory.start : WebsocketHistory :=
  { ws := .pending, sent := [], written := [], poppedEmpty := false }

/-- A call from Lua, or a completion without an error. -/
inductive WebsocketEvent where
  | send (str : Bytes)
  | close
  | accepted
  | written (index : Nat)

/-- One event; the accept completes once. -/
def WebsocketHistory.step (history : WebsocketHistory)
    : WebsocketEvent → Option WebsocketHistory
  | .send str =>
      some {
        history with
        ws := history.ws.send str
        sent := if history.ws.closed then history.sent else history.sent ++ [str]
      }
  | .close => some { history with ws := history.ws.close }
  | .accepted =>
      if history.ws.accepted then none
      else some { history with ws := history.ws.onAccept false }
  | .written index => do
      let content ← history.ws.writes[index]?
      let ws := { history.ws with writes := history.ws.writes.eraseIdx index }
      some {
        history with
        ws := ws.onWrite false
        written := history.written ++ [content]
        poppedEmpty := history.poppedEmpty || ws.messages.isEmpty
      }

-----------------------------------------------------------------------------------------
-- Writing in order
-----------------------------------------------------------------------------------------

/-- What is asked of a websocket: one write at a time, nothing before the accept, every
accepted string once and in order, no pop of an empty queue, and one close after the last
string.
-/
structure Orderly (history : WebsocketHistory) : Prop where
  single : history.ws.writes.length ≤ 1
  afterAccept : history.ws.accepted = false
    → history.ws.writes = [] ∧ history.written = [] ∧ history.ws.closes = 0
  inOrder : history.written ++ history.ws.messages = history.sent
  writesFirst : ∀ content ∈ history.ws.writes, history.ws.messages.head? = some content
  progress : history.ws.accepted = true → history.ws.messages ≠ [] → history.ws.writes ≠ []
  notPopped : history.poppedEmpty = false
  closesOnce : history.ws.closes ≤ 1
  closesLast : history.ws.closes ≠ 0 → history.ws.closed = true ∧ history.written = history.sent

/-- The states in which a websocket works as intended. -/
inductive WebsocketPhase (history : WebsocketHistory) : Prop where
  | pending (accepted : history.ws.accepted = false) (notClosed : history.ws.closed = false)
    (noMessages : history.ws.messages = []) (noWrites : history.ws.writes = [])
    (noClose : history.ws.closes = 0)
  | idle (accepted : history.ws.accepted = true) (notClosed : history.ws.closed = false)
    (noMessages : history.ws.messages = []) (noWrites : history.ws.writes = [])
    (noClose : history.ws.closes = 0)
  | writing (accepted : history.ws.accepted = true) (first : Bytes) (rest : List Bytes)
    (messages : history.ws.messages = first :: rest) (writes : history.ws.writes = [first])
    (noClose : history.ws.closes = 0)
  | closing (accepted : history.ws.accepted = true) (closed : history.ws.closed = true)
    (noMessages : history.ws.messages = []) (noWrites : history.ws.writes = [])
    (oneClose : history.ws.closes = 1)

/-- What every run keeps whose calls come after the accept. -/
structure WebsocketInvariant (history : WebsocketHistory) : Prop where
  phase : WebsocketPhase history
  inOrder : history.written ++ history.ws.messages = history.sent
  fresh : history.ws.accepted = false → history.written = []
  notPopped : history.poppedEmpty = false

/-- A websocket that works as intended is orderly, by cases on its phase. -/
theorem WebsocketInvariant.orderly {history : WebsocketHistory}
    (sound : WebsocketInvariant history)
    : Orderly history := by
  obtain ⟨phase, inOrder, fresh, notPopped⟩ := sound
  cases phase with
  | pending accepted notClosed noMessages noWrites noClose =>
      constructor <;> simp_all
  | idle accepted notClosed noMessages noWrites noClose =>
      constructor <;> simp_all
  | writing accepted first rest messages writes noClose =>
      constructor <;> simp_all
  | closing accepted closed noMessages noWrites oneClose =>
      constructor <;> simp_all

/-- The strings and the close handshake are only asked for after the accept. -/
def AfterAccept (before : WebsocketHistory) : WebsocketEvent → Prop
  | .send _ => before.ws.accepted = true
  | .close => before.ws.accepted = true
  | .accepted => True
  | .written _ => True

/-- `send` starts a write if no other one is outstanding. -/
theorem WebsocketInvariant.send {history history' : WebsocketHistory} {str : Bytes}
    (sound : WebsocketInvariant history) (after : history.ws.accepted = true)
    (moves : history.step (.send str) = some history')
    : WebsocketInvariant history' := by
  obtain ⟨phase, inOrder, fresh, notPopped⟩ := sound
  obtain rfl := Option.some.inj moves
  cases closed : history.ws.closed with
  | true =>
      cases phase with
      | pending _ notClosed => rw [closed] at notClosed; cases notClosed
      | idle _ notClosed => rw [closed] at notClosed; cases notClosed
      | writing accepted first rest messages writes noClose =>
          refine ⟨.writing ?_ first rest ?_ ?_ ?_, ?_, ?_, notPopped⟩ <;>
            simp_all [Websocket.send]
      | closing accepted _ noMessages noWrites oneClose =>
          refine ⟨.closing ?_ ?_ ?_ ?_ ?_, ?_, ?_, notPopped⟩ <;> simp_all [Websocket.send]
  | false =>
      cases phase with
      | pending accepted => rw [after] at accepted; cases accepted
      | idle accepted _ noMessages noWrites noClose =>
          refine ⟨.writing ?_ str [] ?_ ?_ ?_, ?_, ?_, notPopped⟩ <;>
            simp_all [Websocket.send, Websocket.startWrite]
      | writing accepted first rest messages writes noClose =>
          refine ⟨.writing ?_ first (rest ++ [str]) ?_ ?_ ?_, ?_, ?_, notPopped⟩ <;>
            simp_all [Websocket.send, ← inOrder]
      | closing _ isClosed => rw [closed] at isClosed; cases isClosed

/-- `close` starts the handshake if nothing is left to write. -/
theorem WebsocketInvariant.close {history history' : WebsocketHistory}
    (sound : WebsocketInvariant history) (after : history.ws.accepted = true)
    (moves : history.step .close = some history')
    : WebsocketInvariant history' := by
  obtain ⟨phase, inOrder, fresh, notPopped⟩ := sound
  obtain rfl := Option.some.inj moves
  cases phase with
  | pending accepted => rw [after] at accepted; cases accepted
  | idle accepted notClosed noMessages noWrites noClose =>
      refine ⟨.closing ?_ ?_ ?_ ?_ ?_, ?_, ?_, notPopped⟩ <;>
        simp_all [Websocket.close, Websocket.startClose]
  | writing accepted first rest messages writes noClose =>
      refine ⟨.writing ?_ first rest ?_ ?_ ?_, ?_, ?_, notPopped⟩ <;>
        simp only [Websocket.close] <;> split <;> simp_all
  | closing accepted closed noMessages noWrites oneClose =>
      refine ⟨.closing ?_ ?_ ?_ ?_ ?_, ?_, ?_, notPopped⟩ <;> simp_all [Websocket.close]

/-- When the accept completes there is nothing to write yet. -/
theorem WebsocketInvariant.accepted {history history' : WebsocketHistory}
    (sound : WebsocketInvariant history) (moves : history.step .accepted = some history')
    : WebsocketInvariant history' := by
  obtain ⟨phase, inOrder, fresh, notPopped⟩ := sound
  simp only [WebsocketHistory.step] at moves
  split at moves
  · cases moves
  obtain rfl := Option.some.inj moves
  cases phase with
  | pending accepted notClosed noMessages noWrites noClose =>
      refine ⟨.idle ?_ ?_ ?_ ?_ ?_, ?_, ?_, notPopped⟩ <;> simp_all [Websocket.onAccept]
  | idle accepted => contradiction
  | writing accepted => contradiction
  | closing accepted => contradiction

/-- A completed write is followed by the next one, or by the close handshake. -/
theorem WebsocketInvariant.written {history history' : WebsocketHistory} {index : Nat}
    (sound : WebsocketInvariant history) (moves : history.step (.written index) = some history')
    : WebsocketInvariant history' := by
  obtain ⟨phase, inOrder, fresh, notPopped⟩ := sound
  obtain ⟨content, found, isNext⟩ := Option.bind_eq_some_iff.mp moves
  obtain rfl := Option.some.inj isNext
  cases phase with
  | pending _ _ _ noWrites => simp [noWrites] at found
  | idle _ _ _ noWrites => simp [noWrites] at found
  | closing _ _ _ noWrites => simp [noWrites] at found
  | writing accepted first rest messages writes noClose =>
      obtain ⟨rfl, rfl⟩ : index = 0 ∧ content = first := by
        rw [writes, List.getElem?_singleton] at found
        split at found
        · next isFirst => exact ⟨isFirst, (Option.some.inj found).symm⟩
        · cases found
      cases rest with
      | cons second rest =>
          refine ⟨.writing ?_ second rest ?_ ?_ ?_, ?_, ?_, ?_⟩ <;>
            simp_all [Websocket.onWrite, Websocket.startWrite]
      | nil =>
          cases closed : history.ws.closed with
          | true =>
              refine ⟨.closing ?_ ?_ ?_ ?_ ?_, ?_, ?_, ?_⟩ <;>
                simp_all [Websocket.onWrite, Websocket.startClose]
          | false =>
              refine ⟨.idle ?_ ?_ ?_ ?_ ?_, ?_, ?_, ?_⟩ <;> simp_all [Websocket.onWrite]

/-- A call before the accept starts an operation at once. -/
theorem WebsocketInvariant.early {history history' : WebsocketHistory} {event : WebsocketEvent}
    (sound : WebsocketInvariant history) (early : ¬ AfterAccept history event)
    (moves : history.step event = some history')
    : ¬ Orderly history' := by
  intro orderly
  cases sound.phase with
  | idle accepted => cases event <;> simp [AfterAccept, accepted] at early
  | writing accepted => cases event <;> simp [AfterAccept, accepted] at early
  | closing accepted => cases event <;> simp [AfterAccept, accepted] at early
  | pending accepted notClosed noMessages noWrites noClose =>
      cases event with
      | send str =>
          obtain rfl := Option.some.inj moves
          have waiting : (history.ws.send str).accepted = false := by
            simp [Websocket.send, Websocket.startWrite, accepted, notClosed, noMessages]
          have noWrite := (orderly.afterAccept waiting).1
          simp [Websocket.send, Websocket.startWrite, notClosed, noMessages, noWrites] at noWrite
      | close =>
          obtain rfl := Option.some.inj moves
          have waiting : history.ws.close.accepted = false := by
            simp [Websocket.close, Websocket.startClose, accepted, notClosed, noMessages]
          have noHandshake := (orderly.afterAccept waiting).2.2
          simp [Websocket.close, Websocket.startClose, notClosed, noMessages] at noHandshake
      | accepted => exact early trivial
      | written index => exact early trivial

/-- A step whose call, if it is one, comes after the accept keeps the websocket as intended. -/
theorem WebsocketInvariant.step {history history' : WebsocketHistory} {event : WebsocketEvent}
    (sound : WebsocketInvariant history) (after : AfterAccept history event)
    (moves : history.step event = some history')
    : WebsocketInvariant history' := by
  cases event with
  | send str => exact sound.send after moves
  | close => exact sound.close after moves
  | accepted => exact sound.accepted moves
  | written index => exact sound.written moves

/-- In every run of a websocket without errors, it is orderly in every state exactly if
`send` and `close` are only called after the accept has completed. Witness: the invariant,
step by step.
-/
theorem websocket_orderly_iff (events : List WebsocketEvent)
    : Along WebsocketHistory.step (fun _ _ after => Orderly after) .start events
      ↔ Along WebsocketHistory.step (fun before event _ => AfterAccept before event) .start
        events := by
  have atStart : WebsocketInvariant .start :=
    ⟨.pending rfl rfl rfl rfl rfl, rfl, fun _ => rfl, rfl⟩
  have agree (before : WebsocketHistory) (event : WebsocketEvent) (after : WebsocketHistory)
      (sound : WebsocketInvariant before) (moves : before.step event = some after)
      : Orderly after ↔ AfterAccept before event :=
    ⟨
      fun orderly => Classical.not_not.mp (fun early => sound.early early moves orderly),
      fun isAfter => (sound.step isAfter moves).orderly
    ⟩
  exact along_iff events atStart
    (fun before event after sound moves orderly =>
      sound.step ((agree before event after sound moves).mp orderly) moves)
    agree

/-- A string that is sent while the accept is pending is written twice, and the queue is
popped when it is empty.
-/
theorem websocket_orderly_counterexample
    : ∃ history,
      run WebsocketHistory.step .start [.send (lit "hello"), .accepted, .written 0, .written 0]
        = some history
      ∧ history.written = [lit "hello", lit "hello"]
      ∧ history.poppedEmpty = true
      ∧ ¬ Along WebsocketHistory.step (fun _ _ after => Orderly after) .start
        [.send (lit "hello"), .accepted, .written 0, .written 0] := by
  refine ⟨_, rfl, rfl, rfl, fun orderly => ?_⟩
  have early := (orderly _ rfl).1.afterAccept rfl
  exact absurd early.1 (by decide)

end Snowcone.Network
