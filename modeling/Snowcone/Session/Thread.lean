import Snowcone.IrcParsing.Correctness
import Snowcone.Session.Stream

/-! The session thread: it reads into the line buffer, parses every complete line in place
and hands the messages to the callback.
-/

namespace Snowcone.Session

open Bytes CMemory WhileLoop IrcParsing

/-- The contents of an `MSG` callback: the message and whether to redraw after it. -/
abbrev Delivery := IrcMsg Bytes × Bool

/-- The locals of the loop over the lines of one read. -/
structure Delivering where
  buff : LineBuffer
  line : Option Nat
  delivered : List Delivery

/-- One round of the loop over the lines: the message's views are only read after the next
line has been pre-loaded. A line that does not parse leaves the loop by an exception.
-/
def deliverRound (s : Delivering)
    : Round Delivering (Option (List Delivery × Except (Nat × IrcErrorCode) LineBuffer)) :=
  match s.line with
  | none => .leave (some (s.delivered, .ok s.buff))
  | some line =>
      match parseIrcMessage s.buff.buffer line with
      | none => .leave none
      | some (.error code) => .leave (some (s.delivered, .error (line, code)))
      | some (.ok (msg, mem)) =>
          match getNonemptyLine { s.buff with buffer := mem } with
          | none => .leave none
          | some (next, buff) =>
              .again {
                buff
                line := next
                delivered := s.delivered ++ [(msg.read buff.buffer, next.isNone)]
              }

/-- Deliver every line that the buffer has completed. -/
def deliverLines (buff : LineBuffer)
    : Option (List Delivery × Except (Nat × IrcErrorCode) LineBuffer) := do
  let (line, buff) ← getNonemptyLine buff
  (run deliverRound (buff.buffer.length + 1) { buff, line, delivered := [] }).join

/-- The session's loop over the reads. `dropped` is how much of the stream stands before
the buffer; it only serves to tell lines apart.
-/
def sessionThread (dropped : Nat) (buff : LineBuffer) (reads : List Bytes)
    : Option (List Delivery × Ending) :=
  if buff.prepare = 0 then some ([], .lineBufferFull (dropped + buff.start))
  else
    match reads with
    | [] => some ([], .waiting)
    | chunk :: reads =>
        match deliverLines (buff.receive chunk) with
        | none => none
        | some (delivered, .error (line, code)) => some (delivered, .rejected (dropped + line) code)
        | some (delivered, .ok buff) =>
            (sessionThread (dropped + buff.start) buff.shift reads).map
              (fun later => (delivered ++ later.1, later.2))

/-- Every read fits into the space that `prepare` offers for it, as long as the session
goes on reading.
-/
def Offered (buff : LineBuffer) : List Bytes → Prop
  | [] => True
  | chunk :: reads =>
      buff.prepare = 0
      ∨ chunk.length ≤ buff.prepare
        ∧ ∀ delivered buff',
            deliverLines (buff.receive chunk) = some (delivered, .ok buff')
            → Offered buff'.shift reads

end Snowcone.Session
