import Snowcone.Session.Thread

/-! What the session thread delivers depends on the stream alone.
Each loop is followed by what it makes of the pending bytes; the views of a message are
read after the next line has been cut off, which writes only behind them.
-/

namespace Snowcone.Session

open Bytes CMemory WhileLoop IrcParsing

/-- The line that was found is the first of the texts, and the others are still pending. -/
inductive Found (lo : Nat) (b : LineBuffer) : Option Nat → List (Nat × Bytes) → Prop
  | nothing (absent : chr '\n' ∉ b.pending) : Found lo b none []
  | line {place text} (here : CString b.buffer place text) (after : lo ≤ place)
    (before : place + text.length < b.start)
    : Found lo b (some place) ((place, text) :: textsOf b.start b.pending)

/-- A line that was found far enough is found. -/
theorem Found.mono {lo lo' : Nat} {b : LineBuffer} {line : Option Nat}
    {texts : List (Nat × Bytes)} (found : Found lo b line texts) (below : lo' ≤ lo)
    : Found lo' b line texts := by
  cases found with
  | nothing absent => exact .nothing absent
  | line here after before => exact .line here (Nat.le_trans below after) before

/-- What `getNonemptyLine` makes of a buffer. -/
structure Advanced (b : LineBuffer) (line : Option Nat) (b' : LineBuffer) : Prop where
  valid : b'.Valid
  start_le : b.start ≤ b'.start
  end_ : b'.end_ = b.end_
  frame : Frame b.start b'.start b.buffer b'.buffer
  unfinished : unfinished b'.pending = unfinished b.pending
  found : Found b.start b' line (textsOf b.start b.pending)

/-- Trimming a line's text in place. -/
theorem trim_line {mem : CMemory} {start : Nat} {line : Bytes}
    (here : CString mem start (lineText line))
    : CString mem (advance (· == chr ' ') mem start) (shownText line)
      ∧ advance (· == chr ' ') mem start = start + indent line
      ∧ start + indent line + (shownText line).length ≤ start + line.length := by
  obtain ⟨text, ending, later⟩ := trim_refines (p := { mem, msg := start }) here
  change CString mem (advance (· == chr ' ') mem start) (shownText line) at text
  change advance (· == chr ' ') mem start + (shownText line).length = _ at ending
  change start ≤ advance (· == chr ' ') mem start at later
  have shorter := lineText_length_le line
  dsimp only at ending
  refine ⟨text, ?_, ?_⟩ <;> rw [indent] <;> omega

/-- One round finds the first text, or skips a blank line, which has none. -/
theorem lineRound_meets (b : LineBuffer) (valid : b.Valid)
    : (lineRound b).Meets LineBuffer.Valid
        (fun b result => Advanced b result.1 result.2) (fun b => b.pending.length) b := by
  by_cases more : chr '\n' ∈ b.pending
  · obtain ⟨line, rest, split, absent⟩ := List.eq_append_cons_of_mem more
    obtain ⟨b', cuts, cut⟩ := valid.nextLine_of_append split absent
    obtain ⟨here, place, ends⟩ := trim_line cut.text
    have start := cut.start
    have texts := textsOf_append absent rest b.start
    have tail := unfinished_append absent rest
    rw [← split] at texts tail
    simp only [lineRound, cuts, ne_eq, here.load_eq_zero_iff]
    split
    · next shown =>
      refine .leave ?_
      rw [if_neg shown, ← cut.start, ← place] at texts
      exact {
        valid := cut.valid
        start_le := by simp only; omega
        end_ := cut.end_
        frame := cut.frame
        unfinished := by rw [cut.pending, tail]
        found := by
          rw [texts, ← cut.pending]
          exact .line here (by omega) (by simp only; omega)
      }
    · next blank =>
      rw [not_not] at blank
      rw [if_pos blank, ← cut.start, ← cut.pending] at texts
      rw [← cut.pending] at tail
      refine .again cut.valid ?_ ?_
      · rw [cut.pending, split, List.length_append, List.length_cons]
        omega
      · rintro ⟨found, b''⟩ done
        exact {
          valid := done.valid
          start_le := by have := done.start_le; omega
          end_ := done.end_.trans cut.end_
          frame := (cut.frame.mono (Nat.le_refl _) done.start_le).trans
            (done.frame.mono (by omega) (Nat.le_refl _))
          unfinished := done.unfinished.trans tail.symm
          found := texts ▸ done.found.mono (by omega)
        }
  · obtain ⟨cuts, valid'⟩ := valid.nextLine_of_not_mem more
    simp only [lineRound, cuts]
    refine .leave ?_
    exact {
      valid := valid'
      start_le := Nat.le_refl _
      end_ := rfl
      frame := .refl _ _ _
      unfinished := rfl
      found := by rw [textsOf_last more]; exact .nothing more
    }

/-- The next line is found in any valid buffer. -/
theorem getNonemptyLine_advanced {b : LineBuffer} (valid : b.Valid)
    : ∃ line b', getNonemptyLine b = some (line, b') ∧ Advanced b line b' := by
  have total := valid.pending_length
  have outer := valid.end_le
  obtain ⟨⟨line, b'⟩, runs, advanced⟩ := run_total lineRound_meets
    (b.buffer.length + 1) b valid (by omega)
  exact ⟨line, b', runs, advanced⟩

-----------------------------------------------------------------------------------------
-- The lines of one read
-----------------------------------------------------------------------------------------

/-- What the loop over the lines makes of the texts it is to deliver: it stops at the first
one that is rejected, or delivers them all and keeps the incomplete line.
-/
inductive Handled (b : LineBuffer) (texts : List (Nat × Bytes))
    : List Delivery → Except (Nat × IrcErrorCode) LineBuffer → Prop
  | rejects {delivered place code}
    (reads
      : ∀ dropped rest,
          readTexts rest (texts.map (fun text => (dropped + text.1, text.2)))
          = (delivered.map Prod.fst, .rejected (dropped + place) code))
    : Handled b texts delivered (.error (place, code))
  | accepts {delivered b'} (valid : b'.Valid) (drained : b'.pending = unfinished b.pending)
    (end_ : b'.end_ = b.end_) (size : b'.buffer.length = b.buffer.length)
    (reads
      : ∀ dropped rest,
          readTexts rest (texts.map (fun text => (dropped + text.1, text.2)))
          = (delivered.map Prod.fst ++ rest.1, rest.2))
    : Handled b texts delivered (.ok b')

/-- Parsing a line in place does not change what is pending behind it. -/
theorem LineBuffer.Valid.parsed {b : LineBuffer} (valid : b.Valid) {lo hi : Nat}
    {mem : CMemory} (frame : Frame lo hi b.buffer mem) (before : hi ≤ b.start)
    : ({ b with buffer := mem } : LineBuffer).Valid
      ∧ ({ b with buffer := mem } : LineBuffer).pending = b.pending := by
  refine ⟨?_, frame.read (Or.inr before)⟩
  exact {
    start_le := valid.start_le
    search_le := valid.search_le
    end_le := frame.1 ▸ valid.end_le
    scanned := by
      simp only
      rw [frame.read (Or.inr before)]
      exact valid.scanned
  }

/-- The loop over the lines delivers the texts, by induction on them. -/
theorem deliverRound_run (texts : List (Nat × Bytes)) {lo : Nat} {b : LineBuffer}
    {line : Option Nat} (valid : b.Valid) (found : Found lo b line texts)
    (earlier : List Delivery) {bound : Nat} (enough : texts.length < bound)
    : ∃ delivered outcome,
        run deliverRound bound { buff := b, line, delivered := earlier }
          = some (some (earlier ++ delivered, outcome))
        ∧ Handled b texts delivered outcome := by
  induction texts generalizing lo b line earlier bound with
  | nil =>
      obtain ⟨bound, rfl⟩ : ∃ less, bound = less + 1 := ⟨bound - 1, by simp at enough; omega⟩
      cases found with
      | nothing absent =>
          refine ⟨[], .ok b, by simp [run, deliverRound], ?_⟩
          exact .accepts valid (unfinished_last absent).symm rfl rfl (fun _ _ => rfl)
  | cons text more ih =>
      obtain ⟨bound, rfl⟩ : ∃ less, bound = less + 1 := ⟨bound - 1, by simp at enough; omega⟩
      rw [List.length_cons] at enough
      cases found with
      | @line place text here after before =>
          have agrees := parseIrcMessage_refines here
          generalize parses : parseIrcMessage b.buffer place = result at agrees
          generalize reads : messageOf text = reference at agrees
          cases agrees with
          | throws code =>
              refine ⟨[], .error (place, code), by simp [run, deliverRound, parses], ?_⟩
              exact .rejects fun dropped rest => by simp [readTexts, reads]
          | @returns msg result good =>
              obtain ⟨views, mem⟩ := result
              obtain ⟨holds, frame⟩ := good
              dsimp only at holds frame
              obtain ⟨valid', pending⟩ := valid.parsed frame (Nat.le_of_lt before)
              obtain ⟨next, b', advances, advanced⟩ := getNonemptyLine_advanced valid'
              have shown := holds.read_later advanced.frame (Nat.le_of_lt before)
              have tail := advanced.unfinished
              have texts := advanced.found
              rw [pending] at tail texts
              have few : (textsOf b.start b.pending).length < bound := by omega
              obtain ⟨delivered, outcome, runs, handled⟩ := ih advanced.valid texts
                (earlier ++ [(msg, next.isNone)]) few
              refine ⟨(msg, next.isNone) :: delivered, outcome, ?_, ?_⟩
              · rw [List.append_assoc, List.singleton_append] at runs
                simp only [run, deliverRound, parses, advances, shown, runs]
              · cases handled with
                | rejects more =>
                    refine .rejects fun dropped rest => ?_
                    simp only [List.map_cons, readTexts, reads, more]
                | accepts valid'' drained end_ size more =>
                    refine .accepts valid'' (drained.trans tail) ?_ ?_
                      fun dropped rest => ?_
                    · exact end_.trans advanced.end_
                    · exact size.trans (advanced.frame.1.trans frame.1)
                    · simp only [List.map_cons, readTexts, reads, more, List.cons_append]

/-- After a read, the texts of the pending bytes are delivered. -/
theorem deliverLines_handled {b : LineBuffer} (valid : b.Valid)
    : ∃ delivered outcome,
        deliverLines b = some (delivered, outcome)
        ∧ Handled b (textsOf b.start b.pending) delivered outcome := by
  obtain ⟨line, b', advances, advanced⟩ := getNonemptyLine_advanced valid
  have total := valid.pending_length
  have outer := valid.end_le
  have few := textsOf_length_le b.start b.pending
  have size := advanced.frame.1
  have enough : (textsOf b.start b.pending).length < b'.buffer.length + 1 := by omega
  obtain ⟨delivered, outcome, runs, handled⟩ := deliverRound_run _ advanced.valid
    advanced.found [] enough
  refine ⟨delivered, outcome, ?_, ?_⟩
  · simp only [deliverLines, advances, Option.bind_eq_bind, Option.bind_some, runs,
      List.nil_append, Option.join_some]
  · cases handled with
    | rejects reads => exact .rejects reads
    | accepts valid' drained end_ size' reads =>
        exact .accepts valid' (drained.trans advanced.unfinished) (end_.trans advanced.end_)
          (size'.trans size) reads

-----------------------------------------------------------------------------------------
-- The whole session
-----------------------------------------------------------------------------------------

/-- From a shifted buffer that holds an incomplete line, the thread delivers what the
stream means that starts with this line and goes on with the reads.
Witness: induction on the reads; what fits into the buffer is read line by line.
-/
theorem sessionThread_eq {b : LineBuffer} (valid : b.Valid) (front : b.start = 0)
    (incomplete : chr '\n' ∉ b.pending) (dropped : Nat) (reads : List Bytes)
    (offered : Offered b reads)
    : (sessionThread dropped b reads).map (fun ended => (ended.1.map Prod.fst, ended.2))
      = some (sessionOf b.buffer.length dropped (b.pending ++ reads.flatten)) := by
  induction reads generalizing b dropped with
  | nil =>
      have total := valid.pending_length
      have outer := valid.end_le
      rw [List.flatten_nil, List.append_nil, sessionOf_last incomplete, sessionThread,
        LineBuffer.prepare, front]
      by_cases full : b.buffer.length ≤ b.pending.length
      · rw [if_pos (by omega), if_pos full]
        rfl
      · rw [if_neg (by omega), if_neg full]
        rfl
  | cons chunk reads ih =>
      have total := valid.pending_length
      have outer := valid.end_le
      rw [sessionThread]
      by_cases full : b.prepare = 0
      · have long : b.buffer.length ≤ b.pending.length := by
          rw [LineBuffer.prepare] at full
          omega
        rw [if_pos full, front, sessionOf_overflow dropped incomplete long]
        rfl
      · obtain ⟨fits, onward⟩ := offered.resolve_left full
        obtain ⟨valid', pending, size⟩ := valid.receive fits
        have total' := valid'.pending_length
        have outer' := valid'.end_le
        obtain ⟨delivered, outcome, delivers, handled⟩ := deliverLines_handled valid'
        have texts := textsOf_add dropped (b.receive chunk).start (b.pending ++ chunk)
        change (b.receive chunk).start = 0 at front
        rw [front, Nat.add_zero] at texts
        rw [front, Nat.zero_add, pending] at total'
        rw [front, pending] at handled
        have read := sessionOf_beginning b.buffer.length reads.flatten dropped
          (b.pending ++ chunk) (by omega)
        rw [List.flatten_cons, ← List.append_assoc, read, texts]
        simp only [full, if_false, delivers]
        cases handled with
        | rejects more => rw [more]; rfl
        | @accepts b' valid'' drained end_ size' more =>
            have total'' := valid''.pending_length
            obtain ⟨shifted, same, front', size''⟩ := valid''.shift
            have later := ih shifted front' (same ▸ drained ▸ not_mem_unfinished _)
              (dropped + b'.start) (onward _ _ delivers)
            rw [pending] at drained
            rw [drained] at total''
            have place : b'.start
                = (b.pending ++ chunk).length - (unfinished (b.pending ++ chunk)).length := by
              omega
            rw [size'', size', size, same, drained] at later
            rw [more, ← place]
            simp only [Option.map_map]
            generalize sessionThread (dropped + b'.start) b'.shift reads = result at later ⊢
            generalize sessionOf _ _ _ = meaning at later ⊢
            obtain ⟨ended, rfl, rfl⟩ := Option.map_eq_some_iff.mp later
            simp

/-- However a stream is split into reads that the buffer has room for, the session thread
delivers the messages of the stream's lines and ends where the stream says: the reads
matter for nothing but the redraws. Unless a line is rejected before, the buffer is full
exactly when a line is as long as the buffer.
-/
theorem sessionThread_correct (capacity : Nat) {reads : List Bytes}
    (offered : Offered (LineBuffer.new capacity) reads)
    : ∃ delivered ending,
        sessionThread 0 (LineBuffer.new capacity) reads = some (delivered, ending)
        ∧ (delivered.map Prod.fst, ending) = sessionOf capacity 0 reads.flatten
        ∧ (∀ others,
            Offered (LineBuffer.new capacity) others
            → others.flatten = reads.flatten
            → ∃ again,
                sessionThread 0 (LineBuffer.new capacity) others = some (again, ending)
                ∧ again.map Prod.fst = delivered.map Prod.fst)
        ∧ ((∃ place, ending = .lineBufferFull place)
            → ∃ line ∈ reads.flatten.splitOn (chr '\n'), capacity ≤ line.length)
        ∧ ((∃ line ∈ reads.flatten.splitOn (chr '\n'), capacity ≤ line.length)
            → (∃ place, ending = .lineBufferFull place)
              ∨ ∃ place code, ending = .rejected place code) := by
  have runs : ∀ reads, Offered (LineBuffer.new capacity) reads →
      ∃ ended, sessionThread 0 (LineBuffer.new capacity) reads = some ended
        ∧ (ended.1.map Prod.fst, ended.2) = sessionOf capacity 0 reads.flatten := by
    intro reads offered
    have result := sessionThread_eq (LineBuffer.new_valid capacity) rfl
      (by simp [LineBuffer.pending, LineBuffer.new, View.read]) 0 reads offered
    have empty : (LineBuffer.new capacity).pending = [] := by
      simp [LineBuffer.pending, LineBuffer.new, View.read]
    have size : (LineBuffer.new capacity).buffer.length = capacity := by
      simp [LineBuffer.new]
    rw [empty, size, List.nil_append] at result
    exact Option.map_eq_some_iff.mp result
  obtain ⟨⟨delivered, ending⟩, ends, meaning⟩ := runs reads offered
  have same : (sessionOf capacity 0 reads.flatten).2 = ending := by rw [← meaning]
  refine ⟨delivered, ending, ends, meaning, ?_, ?_, ?_⟩
  · intro others offered' flat
    obtain ⟨⟨again, ending'⟩, ends', meaning'⟩ := runs others offered'
    obtain ⟨messages, rfl⟩ := Prod.mk.inj (meaning'.trans (flat ▸ meaning.symm))
    exact ⟨again, ends', messages⟩
  · rintro ⟨place, full⟩
    exact sessionOf_full (same.trans full)
  · intro long
    exact same ▸ sessionOf_of_long 0 long

/-- The stream `A b\r\nC\n` through eight bytes, split between the carriage return and the
line feed.
-/
theorem sessionThread_correct_witness
    : sessionOf 8 0 (lit "A b\r\nC\n")
      = ([
          { tags := [], source := [], command := lit "A", args := [lit "b"] },
          { tags := [], source := [], command := lit "C", args := [] }
        ], .waiting) := by
  have offered : Offered (LineBuffer.new 8) [lit "A b\r", lit "\nC\n"] := by
    refine Or.inr ⟨by decide, fun delivered b delivers => Or.inr ⟨?_, ?_⟩⟩
    · have reads : deliverLines ((LineBuffer.new 8).receive (lit "A b\r"))
          = some ([], .ok {
              buffer := lit "A b\r" ++ [0, 0, 0, 0]
              start := 0
              search := 4
              end_ := 4
            }) := by
        decide
      rw [reads, Option.some.injEq, Prod.mk.injEq, Except.ok.injEq] at delivers
      rw [← delivers.2]
      decide
    · exact fun _ _ _ => trivial
  obtain ⟨delivered, ending, ends, meaning, _⟩ := sessionThread_correct 8 offered
  have runs : sessionThread 0 (LineBuffer.new 8) [lit "A b\r", lit "\nC\n"]
      = some ([
          ({ tags := [], source := [], command := lit "A", args := [lit "b"] }, false),
          ({ tags := [], source := [], command := lit "C", args := [] }, true)
        ], .waiting) := by
    decide +kernel
  rw [runs, Option.some.injEq, Prod.mk.injEq] at ends
  rw [← ends.1, ← ends.2] at meaning
  exact meaning.symm

end Snowcone.Session
