import Snowcone.IrcParsing.Reference
import Snowcone.Session.LineBuffer

/-! What a session makes of a whole stream, however it is split into reads. -/

namespace Snowcone.Session

open Bytes IrcParsing

/-- How a session ends: with a line the parser rejects, with a line that overflows the
buffer, or with all input used up. Lines are told apart by their place in the stream.
-/
inductive Ending where
  | rejected (line : Nat) (code : IrcErrorCode)
  | lineBufferFull (line : Nat)
  | waiting
  deriving DecidableEq, Repr

/-- What follows the first line of a stream. -/
def afterLine (stream : Bytes) : Bytes := (onwards (chr '\n') stream).tail

/-- The text of a line, without the spaces in front of it. -/
def shownText (line : Bytes) : Bytes := dropLeading (chr ' ') (lineText line)

/-- How many spaces stand in front of a line's text. -/
def indent (line : Bytes) : Nat := (lineText line).length - (shownText line).length

/-- What is left behind a line is shorter. -/
theorem afterLine_length_lt {stream : Bytes} (more : chr '\n' ∈ stream)
    : (afterLine stream).length < stream.length := by
  obtain ⟨line, rest, rfl, absent⟩ := List.eq_append_cons_of_mem more
  simp only [afterLine, onwards_append_cons absent, List.tail_cons, List.length_append,
    List.length_cons]
  omega

/-- The complete lines of a stream that are not blank, each at its place. -/
def textsOf (offset : Nat) (stream : Bytes) : List (Nat × Bytes) :=
  if _ : chr '\n' ∈ stream then
    let line := before (chr '\n') stream
    let more := textsOf (offset + line.length + 1) (afterLine stream)
    if shownText line = [] then more else (offset + indent line, shownText line) :: more
  else []
termination_by stream.length
decreasing_by exact afterLine_length_lt ‹_›

/-- The incomplete line at the end of a stream. -/
def unfinished (stream : Bytes) : Bytes :=
  if _ : chr '\n' ∈ stream then unfinished (afterLine stream) else stream
termination_by stream.length
decreasing_by exact afterLine_length_lt ‹_›

/-- The meaning of a stream for a buffer of `capacity` bytes: its lines parsed in order, up
to the first one that does not fit or does not parse.
-/
def sessionOf (capacity offset : Nat) (stream : Bytes) : List (IrcMsg Bytes) × Ending :=
  let line := before (chr '\n') stream
  if capacity ≤ line.length then ([], .lineBufferFull offset)
  else if _ : chr '\n' ∈ stream then
    let more := sessionOf capacity (offset + line.length + 1) (afterLine stream)
    if shownText line = [] then more
    else
      match messageOf (shownText line) with
      | .error code => ([], .rejected (offset + indent line) code)
      | .ok msg => (msg :: more.1, more.2)
  else ([], .waiting)
termination_by stream.length
decreasing_by exact afterLine_length_lt ‹_›

/-- Parse texts in order and go on with `rest` once they have all been accepted. -/
def readTexts (rest : List (IrcMsg Bytes) × Ending)
    : List (Nat × Bytes) → List (IrcMsg Bytes) × Ending
  | [] => rest
  | (place, text) :: more =>
      match messageOf text with
      | .error code => ([], .rejected place code)
      | .ok msg => (msg :: (readTexts rest more).1, (readTexts rest more).2)

-----------------------------------------------------------------------------------------
-- Streams line by line
-----------------------------------------------------------------------------------------

/-- A stream is an incomplete line, or a line and a stream. -/
@[elab_as_elim]
theorem stream_induction {motive : Bytes → Prop}
    (last : ∀ line, chr '\n' ∉ line → motive line)
    (cons : ∀ line rest, chr '\n' ∉ line → motive rest → motive (line ++ chr '\n' :: rest))
    (stream : Bytes)
    : motive stream := by
  induction size : stream.length using Nat.strong_induction_on generalizing stream with
  | _ size ih =>
      by_cases more : chr '\n' ∈ stream
      · obtain ⟨line, rest, rfl, absent⟩ := List.eq_append_cons_of_mem more
        refine cons line rest absent (ih rest.length ?_ rest rfl)
        simp only [List.length_append, List.length_cons] at size
        omega
      · exact last stream more

section Equations

variable {line : Bytes} (absent : chr '\n' ∉ line) (rest : Bytes)
include absent

/-- The first line is cut off in front of its line feed. -/
theorem afterLine_append : afterLine (line ++ chr '\n' :: rest) = rest := by
  simp only [afterLine, onwards_append_cons absent, List.tail_cons]

theorem textsOf_last (offset : Nat) : textsOf offset line = [] := by
  rw [textsOf]
  simp only [absent, dite_false]

theorem textsOf_append (offset : Nat)
    : textsOf offset (line ++ chr '\n' :: rest)
      = if shownText line = [] then textsOf (offset + line.length + 1) rest
        else (offset + indent line, shownText line)
          :: textsOf (offset + line.length + 1) rest := by
  rw [textsOf]
  simp [before_append_cons absent, afterLine_append absent]

theorem unfinished_last : unfinished line = line := by
  rw [unfinished]
  simp only [absent, dite_false]

theorem unfinished_append : unfinished (line ++ chr '\n' :: rest) = unfinished rest := by
  rw [unfinished]
  simp [afterLine_append absent]

theorem sessionOf_last (capacity offset : Nat)
    : sessionOf capacity offset line
      = ([], if capacity ≤ line.length then .lineBufferFull offset else .waiting) := by
  rw [sessionOf]
  simp only [before_of_not_mem absent, absent, dite_false]
  split <;> rfl

theorem sessionOf_append (capacity offset : Nat)
    : sessionOf capacity offset (line ++ chr '\n' :: rest)
      = if capacity ≤ line.length then ([], .lineBufferFull offset)
        else readTexts (sessionOf capacity (offset + line.length + 1) rest)
          (if shownText line = [] then [] else [(offset + indent line, shownText line)]) := by
  rw [sessionOf]
  simp only [before_append_cons absent, afterLine_append absent, List.mem_append,
    List.mem_cons, true_or, or_true, dite_true]
  split
  · rfl
  · split
    · rfl
    · simp only [readTexts]

end Equations

/-- The incomplete line holds no line feed, by induction on the lines. -/
theorem not_mem_unfinished (stream : Bytes) : chr '\n' ∉ unfinished stream := by
  induction stream using stream_induction with
  | last line absent => rwa [unfinished_last absent]
  | cons line rest absent ih => rwa [unfinished_append absent]

/-- The incomplete line is a part of the stream, by induction on the lines. -/
theorem unfinished_length_le (stream : Bytes)
    : (unfinished stream).length ≤ stream.length := by
  induction stream using stream_induction with
  | last line absent => rw [unfinished_last absent]
  | cons line rest absent ih =>
      rw [unfinished_append absent, List.length_append, List.length_cons]
      omega

/-- Moving a stream moves the places of its texts, by induction on the lines. -/
theorem textsOf_add (shift offset : Nat) (stream : Bytes)
    : textsOf (shift + offset) stream
      = (textsOf offset stream).map (fun text => (shift + text.1, text.2)) := by
  induction stream using stream_induction generalizing offset with
  | last line absent => simp only [textsOf_last absent, List.map_nil]
  | cons line rest absent ih =>
      have later := ih (offset + line.length + 1)
      rw [← Nat.add_assoc, ← Nat.add_assoc] at later
      simp only [textsOf_append absent, later]
      split
      · rfl
      · simp only [List.map_cons, Nat.add_assoc]

/-- A stream has no more texts than bytes, by induction on the lines. -/
theorem textsOf_length_le (offset : Nat) (stream : Bytes)
    : (textsOf offset stream).length ≤ stream.length := by
  induction stream using stream_induction generalizing offset with
  | last line absent => rw [textsOf_last absent]; exact Nat.zero_le _
  | cons line rest absent ih =>
      have later := ih (offset + line.length + 1)
      rw [textsOf_append absent, List.length_append, List.length_cons]
      split
      · omega
      · rw [List.length_cons]
        omega

/-- Reading texts one after the other. -/
theorem readTexts_append (rest : List (IrcMsg Bytes) × Ending) (first second)
    : readTexts rest (first ++ second) = readTexts (readTexts rest second) first := by
  induction first with
  | nil => rfl
  | cons text more ih =>
      simp only [List.cons_append, readTexts, ih]

/-- A beginning that fits into the buffer is read line by line, and the session goes on
with the incomplete line at its end.
Witness: induction on its lines; each is shorter than the beginning, so it fits.
-/
theorem sessionOf_beginning (capacity : Nat) (later : Bytes) (offset : Nat) (beginning : Bytes)
    (fits : beginning.length ≤ capacity)
    : sessionOf capacity offset (beginning ++ later)
      = readTexts
        (sessionOf capacity (offset + (beginning.length - (unfinished beginning).length))
          (unfinished beginning ++ later))
        (textsOf offset beginning) := by
  induction beginning using stream_induction generalizing offset with
  | last line absent =>
      simp only [unfinished_last absent, textsOf_last absent, readTexts, Nat.sub_self,
        Nat.add_zero]
  | cons line rest absent ih =>
      rw [List.length_append, List.length_cons] at fits
      have part := unfinished_length_le rest
      have short : ¬ capacity ≤ line.length := by omega
      rw [List.append_assoc, List.cons_append, sessionOf_append absent, if_neg short,
        ih _ (by omega), unfinished_append absent, textsOf_append absent,
        ← readTexts_append,
        show offset + line.length + 1 + (rest.length - (unfinished rest).length)
            = offset + ((line ++ chr '\n' :: rest).length - (unfinished rest).length) by
          rw [List.length_append, List.length_cons]; omega]
      split <;> rfl

/-- A beginning without a line feed that fills the buffer overflows it. -/
theorem sessionOf_overflow {capacity : Nat} (offset : Nat) {line : Bytes}
    (absent : chr '\n' ∉ line) (long : capacity ≤ line.length) (later : Bytes)
    : sessionOf capacity offset (line ++ later) = ([], .lineBufferFull offset) := by
  have keep : ∀ byte ∈ line, (byte != chr '\n') = true := by
    intro byte member
    simpa using fun same : byte = chr '\n' => absent (same ▸ member)
  rw [sessionOf, if_pos]
  rw [before, List.takeWhile_append_of_pos keep, List.length_append]
  omega

/-- The session reports a full buffer only for a line that does not fit, by induction on
the lines.
-/
theorem sessionOf_full {capacity offset place : Nat} {stream : Bytes}
    (full : (sessionOf capacity offset stream).2 = .lineBufferFull place)
    : ∃ line ∈ stream.splitOn (chr '\n'), capacity ≤ line.length := by
  induction stream using stream_induction generalizing offset with
  | last line absent =>
      rw [sessionOf_last absent] at full
      rw [List.splitOn_eq_singleton absent]
      split at full
      · next long => exact ⟨line, List.mem_singleton_self _, long⟩
      · cases full
  | cons line rest absent ih =>
      rw [sessionOf_append absent] at full
      rw [List.splitOn_append_cons_self_of_not_mem absent]
      split at full
      · next long => exact ⟨line, List.mem_cons_self, long⟩
      · have later : (sessionOf capacity (offset + line.length + 1) rest).2
            = .lineBufferFull place := by
          split at full
          · exact full
          · simp only [readTexts] at full
            split at full
            · cases full
            · exact full
        obtain ⟨long, member, exceeds⟩ := ih later
        exact ⟨long, List.mem_cons_of_mem _ member, exceeds⟩

/-- A line that does not fit ends the session, unless one before it is rejected, by
induction on the lines.
-/
theorem sessionOf_of_long {capacity : Nat} (offset : Nat) {stream : Bytes}
    (long : ∃ line ∈ stream.splitOn (chr '\n'), capacity ≤ line.length)
    : (∃ place, (sessionOf capacity offset stream).2 = .lineBufferFull place)
      ∨ ∃ place code, (sessionOf capacity offset stream).2 = .rejected place code := by
  induction stream using stream_induction generalizing offset with
  | last line absent =>
      rw [List.splitOn_eq_singleton absent] at long
      obtain ⟨_, member, exceeds⟩ := long
      obtain rfl := List.mem_singleton.mp member
      rw [sessionOf_last absent, if_pos exceeds]
      exact Or.inl ⟨offset, rfl⟩
  | cons line rest absent ih =>
      rw [List.splitOn_append_cons_self_of_not_mem absent] at long
      rw [sessionOf_append absent]
      split
      · exact Or.inl ⟨offset, rfl⟩
      · next short =>
        obtain ⟨other, member, exceeds⟩ := long
        have later := ih (offset + line.length + 1)
          ⟨other, (List.mem_cons.mp member).resolve_left fun same => short (same ▸ exceeds),
            exceeds⟩
        split
        · exact later
        · simp only [readTexts]
          split
          · exact Or.inr ⟨_, _, rfl⟩
          · exact later

end Snowcone.Session
