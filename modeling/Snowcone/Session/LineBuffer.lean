import Snowcone.Foundations.CMemory
import Snowcone.Foundations.Loops

/-! The fixed-size line buffer between the stream and the parser. -/

namespace Snowcone.Session

open Bytes CMemory WhileLoop

/-- The buffer and its three iterators: `[start, end_)` is buffered data, and the part
before `search` is known to hold no line feed.
-/
structure LineBuffer where
  buffer : CMemory
  start : Nat
  search : Nat
  end_ : Nat
  deriving DecidableEq, Repr

/-- A new buffer of `n` bytes. -/
def LineBuffer.new (n : Nat) : LineBuffer :=
  { buffer := List.replicate n 0, start := 0, search := 0, end_ := 0 }

/-- The available buffer space. -/
def LineBuffer.prepare (b : LineBuffer) : Nat := b.buffer.length - b.end_

/-- Commit new buffer bytes. -/
def LineBuffer.commit (b : LineBuffer) (n : Nat) : LineBuffer := { b with end_ := b.end_ + n }

/-- A read into the space that `prepare` offers, committed. -/
def LineBuffer.receive (b : LineBuffer) (chunk : Bytes) : LineBuffer :=
  { b with buffer := write b.buffer b.end_ chunk }.commit chunk.length

/-- The next null-terminated line in the buffer. -/
def LineBuffer.nextLine (b : LineBuffer) : Option Nat × LineBuffer :=
  let nl := find b.buffer b.search b.end_ (chr '\n')
  if nl = b.end_ then (none, { b with search := b.end_ })
  else
    let stop := if b.start < nl ∧ load b.buffer (nl - 1) = chr '\r' then nl - 1 else nl
    (some b.start, { b with buffer := store b.buffer stop 0, start := nl + 1, search := nl + 1 })

/-- Reclaim used buffer space. -/
def LineBuffer.shift (b : LineBuffer) : LineBuffer :=
  if b.start = 0 then b
  else
    {
      buffer := write b.buffer 0 (View.read ⟨b.start, b.end_ - b.start⟩ b.buffer)
      start := 0
      search := b.search - b.start
      end_ := b.end_ - b.start
    }

/-- One round of `getNonemptyLine`: trim a line's leading spaces and skip it if it is
empty.
-/
def lineRound (b : LineBuffer) : Round LineBuffer (Option Nat × LineBuffer) :=
  match b.nextLine with
  | (none, b) => .leave (none, b)
  | (some line, b) =>
      let line := advance (· == chr ' ') b.buffer line
      if load b.buffer line ≠ 0 then .leave (some line, b) else .again b

/-- Retrieve the next non-empty line from the buffer. -/
def getNonemptyLine (b : LineBuffer) : Option (Option Nat × LineBuffer) :=
  run lineRound (b.buffer.length + 1) b

-----------------------------------------------------------------------------------------
-- The bytes a buffer holds
-----------------------------------------------------------------------------------------

/-- The buffered bytes that no line has been made of yet. -/
def LineBuffer.pending (b : LineBuffer) : Bytes :=
  View.read ⟨b.start, b.end_ - b.start⟩ b.buffer

/-- The iterators are in order, and no line feed has been passed over. -/
structure LineBuffer.Valid (b : LineBuffer) : Prop where
  start_le : b.start ≤ b.search
  search_le : b.search ≤ b.end_
  end_le : b.end_ ≤ b.buffer.length
  scanned : chr '\n' ∉ View.read ⟨b.start, b.search - b.start⟩ b.buffer

/-- A new buffer is valid and empty. -/
theorem LineBuffer.new_valid (n : Nat) : (LineBuffer.new n).Valid where
  start_le := Nat.le_refl _
  search_le := Nat.le_refl _
  end_le := Nat.zero_le _
  scanned := by simp [LineBuffer.new, View.read]

/-- As many bytes are pending as the iterators say. -/
theorem LineBuffer.Valid.pending_length {b : LineBuffer} (valid : b.Valid)
    : b.start + b.pending.length = b.end_ := by
  have ordered := valid.start_le
  have inner := valid.search_le
  have outer := valid.end_le
  rw [LineBuffer.pending, read_length (by omega)]
  omega

/-- What is pending was searched in part and stands unsearched in part. -/
theorem LineBuffer.Valid.pending_eq {b : LineBuffer} (valid : b.Valid)
    : b.pending
      = View.read ⟨b.start, b.search - b.start⟩ b.buffer
        ++ View.read ⟨b.search, b.end_ - b.search⟩ b.buffer := by
  have ordered := valid.start_le
  have inner := valid.search_le
  have joined := read_add b.buffer b.start (b.search - b.start) (b.end_ - b.search)
  rw [show b.start + (b.search - b.start) = b.search by omega] at joined
  rw [← joined, LineBuffer.pending]
  congr 2
  omega

/-- Received bytes are pending behind those that were. -/
theorem LineBuffer.Valid.receive {b : LineBuffer} (valid : b.Valid) {chunk : Bytes}
    (fits : chunk.length ≤ b.prepare)
    : (b.receive chunk).Valid
      ∧ (b.receive chunk).pending = b.pending ++ chunk
      ∧ (b.receive chunk).buffer.length = b.buffer.length := by
  have ordered := valid.start_le
  have inner := valid.search_le
  have outer := valid.end_le
  rw [LineBuffer.prepare] at fits
  have size : (write b.buffer b.end_ chunk).length = b.buffer.length :=
    write_length (by omega)
  refine ⟨?_, ?_, size⟩
  · exact {
      start_le := ordered
      search_le := Nat.le_trans inner (Nat.le_add_right _ _)
      end_le := by simp only [LineBuffer.receive, LineBuffer.commit, size]; omega
      scanned := by
        simp only [LineBuffer.receive, LineBuffer.commit]
        rw [read_write_before (by omega) outer]
        exact valid.scanned
    }
  · simp only [LineBuffer.pending, LineBuffer.receive, LineBuffer.commit]
    rw [show b.end_ + chunk.length - b.start = (b.end_ - b.start) + chunk.length by omega,
      read_add, show b.start + (b.end_ - b.start) = b.end_ by omega, read_write outer,
      read_write_before (by omega) outer]

/-- Shifting keeps what is pending and moves it to the front. -/
theorem LineBuffer.Valid.shift {b : LineBuffer} (valid : b.Valid)
    : b.shift.Valid
      ∧ b.shift.pending = b.pending
      ∧ b.shift.start = 0
      ∧ b.shift.buffer.length = b.buffer.length := by
  have ordered := valid.start_le
  have inner := valid.search_le
  have outer := valid.end_le
  by_cases front : b.start = 0
  · simp only [LineBuffer.shift, front, if_true, and_true]
    exact valid
  have width : (View.read ⟨b.start, b.end_ - b.start⟩ b.buffer).length = b.end_ - b.start :=
    read_length (by omega)
  have size : (write b.buffer 0 (View.read ⟨b.start, b.end_ - b.start⟩ b.buffer)).length
      = b.buffer.length := write_length (by omega)
  have moved : ∀ kept, View.read ⟨0, kept.length⟩ (write b.buffer 0 kept) = kept :=
    fun kept => read_write (Nat.zero_le b.buffer.length)
  replace moved := moved (View.read ⟨b.start, b.end_ - b.start⟩ b.buffer)
  rw [width] at moved
  simp only [LineBuffer.shift, front, if_false, true_and]
  refine ⟨?_, moved, size⟩
  exact {
    start_le := Nat.zero_le _
    search_le := by simp only; omega
    end_le := by simp only [size]; omega
    scanned := by
      have parts := valid.pending_eq
      have first := read_left (moved.trans parts)
      rw [read_length (by omega)] at first
      simp only [Nat.sub_zero]
      rw [first]
      exact valid.scanned
  }

-----------------------------------------------------------------------------------------
-- Lines
-----------------------------------------------------------------------------------------

/-- A line without the carriage return directly before its line feed. -/
def chopReturn (line : Bytes) : Bytes :=
  if line.getLast? = some (chr '\r') then line.dropLast else line

/-- The C string a line is read as. -/
def lineText (line : Bytes) : Bytes := before 0 (chopReturn line)

/-- The carriage return is dropped from the end of the line. -/
theorem prefix_of_chopReturn (line : Bytes) : chopReturn line <+: line := by
  rw [chopReturn]
  split
  · exact List.dropLast_prefix line
  · exact List.prefix_refl line

/-- Reading a line as a C string makes it no longer. -/
theorem lineText_length_le (line : Bytes) : (lineText line).length ≤ line.length := by
  have cut := (List.takeWhile_prefix (p := (· != 0)) (l := chopReturn line)).length_le
  exact Nat.le_trans cut (prefix_of_chopReturn line).length_le

/-- Cutting the first line off the buffered bytes: the line ends up as a C string where
it stood, and nothing behind it is touched.
-/
structure LineBuffer.Cut (b b' : LineBuffer) (line rest : Bytes) : Prop where
  valid : b'.Valid
  pending : b'.pending = rest
  start : b'.start = b.start + line.length + 1
  end_ : b'.end_ = b.end_
  frame : Frame b.start b'.start b.buffer b'.buffer
  text : CString b'.buffer b.start (lineText line)

/-- Without a line feed nothing is returned, and everything has been searched. -/
theorem LineBuffer.Valid.nextLine_of_not_mem {b : LineBuffer} (valid : b.Valid)
    (absent : chr '\n' ∉ b.pending)
    : b.nextLine = (none, { b with search := b.end_ })
      ∧ ({ b with search := b.end_ } : LineBuffer).Valid := by
  have unsearched := absent
  rw [valid.pending_eq, List.mem_append, not_or] at unsearched
  have stop := find_of_not_mem valid.search_le valid.end_le unsearched.2
  refine ⟨by simp only [nextLine, stop, if_true], ?_⟩
  exact {
    start_le := Nat.le_trans valid.start_le valid.search_le
    search_le := Nat.le_refl _
    end_le := valid.end_le
    scanned := absent
  }

/-- The terminator is written where the line's text ends. -/
theorem load_return_iff {mem : CMemory} {p size : Nat} {line rest : Bytes}
    (range : View.read ⟨p, size⟩ mem = line ++ rest)
    : (if p < p + line.length ∧ load mem (p + line.length - 1) = chr '\r' then
        p + line.length - 1 else p + line.length)
      = p + (chopReturn line).length := by
  rcases List.eq_nil_or_concat line with rfl | ⟨front, byte, rfl⟩
  · simp [chopReturn]
  · rw [List.concat_eq_append] at range ⊢
    rw [List.append_assoc] at range
    have last : load mem (p + (front ++ [byte]).length - 1) = byte := by
      rw [List.length_append, List.length_singleton, ← Nat.add_assoc, Nat.add_sub_cancel]
      exact load_of_read range
    simp only [chopReturn, last, List.getLast?_append, List.getLast?_singleton,
      Option.some_or, Option.some.injEq]
    by_cases same : byte = chr '\r'
    · simp [same]
    · simp [same]

/-- The search finds the first line feed, as none was passed over before. -/
theorem LineBuffer.Valid.find_eq {b : LineBuffer} (valid : b.Valid) {line rest : Bytes}
    (split : b.pending = line ++ chr '\n' :: rest) (absent : chr '\n' ∉ line)
    : find b.buffer b.search b.end_ (chr '\n') = b.start + line.length := by
  have ordered := valid.start_le
  have inner := valid.search_le
  have outer := valid.end_le
  have scanned := valid.scanned
  have parts := valid.pending_eq
  have width : (View.read ⟨b.start, b.search - b.start⟩ b.buffer).length
      = b.search - b.start := read_length (by omega)
  generalize View.read ⟨b.start, b.search - b.start⟩ b.buffer = searched
    at parts width scanned
  have member : chr '\n' ∈ View.read ⟨b.search, b.end_ - b.search⟩ b.buffer := by
    have somewhere : chr '\n' ∈ b.pending := by simp [split]
    rw [parts, List.mem_append] at somewhere
    exact somewhere.resolve_left scanned
  obtain ⟨head, tail, later, free⟩ := List.eq_append_cons_of_mem member
  have same : line = searched ++ head := by
    have clean : chr '\n' ∉ searched ++ head := by simp [scanned, free]
    rw [← before_append_cons absent rest, ← split, parts, later, ← List.append_assoc,
      before_append_cons clean]
  rw [find_of_append later free, same, List.length_append]
  omega

/-- With a line feed the first line is returned. -/
theorem LineBuffer.Valid.nextLine_of_append {b : LineBuffer} (valid : b.Valid)
    {line rest : Bytes} (split : b.pending = line ++ chr '\n' :: rest)
    (absent : chr '\n' ∉ line)
    : ∃ b', b.nextLine = (some b.start, b') ∧ b.Cut b' line rest := by
  have total := valid.pending_length
  have ordered := valid.start_le
  have outer := valid.end_le
  have lengths := congrArg List.length split
  simp only [List.length_append, List.length_cons] at lengths
  have range : View.read ⟨b.start, b.end_ - b.start⟩ b.buffer = line ++ chr '\n' :: rest :=
    split
  have found := valid.find_eq split absent
  have stops := load_return_iff range
  have shorter := (prefix_of_chopReturn line).length_le
  have beyond : b.start + line.length ≠ b.end_ := by omega
  refine ⟨_, by simp only [nextLine, found, beyond, if_false, stops]; rfl, ?_⟩
  have frame := frame_store b.buffer (b.start + (chopReturn line).length) 0
  have behind : View.read ⟨b.start + line.length + 1, b.end_ - (b.start + line.length + 1)⟩
      b.buffer = rest := by
    rw [show line ++ chr '\n' :: rest = (line ++ [chr '\n']) ++ rest by simp] at range
    have right := read_right range
    rw [List.length_append, List.length_singleton] at right
    rwa [show b.start + (line.length + 1) = b.start + line.length + 1 by omega,
      show b.end_ - b.start - (line.length + 1) = b.end_ - (b.start + line.length + 1) by omega]
      at right
  have text : View.read ⟨b.start, (chopReturn line).length⟩ b.buffer = chopReturn line := by
    obtain ⟨dropped, whole⟩ := prefix_of_chopReturn line
    rw [← whole, List.append_assoc] at range
    exact read_left range
  exact {
    valid := {
      start_le := Nat.le_refl _
      search_le := by simp only; omega
      end_le := by simp only [frame.1]; omega
      scanned := by simp [View.read]
    }
    pending := (frame.read (Or.inr (by simp only; omega))).trans behind
    start := rfl
    end_ := rfl
    frame := frame.mono (by omega) (by simp only; omega)
    text := cString_of_read (read_store text 0 (by omega))
  }

end Snowcone.Session
