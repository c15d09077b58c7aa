import Snowcone.IrcParsing.Grammar
import Snowcone.IrcParsing.Refinement

/-! What a reader of the returned views sees once a message has been parsed in place. -/

namespace Snowcone.IrcParsing

open Bytes CMemory

/-- The contents of a tag's views. -/
def IrcTag.read (mem : CMemory) (views : IrcTag View) : IrcTag Bytes where
  key := views.key.read mem
  val := views.val.read mem

/-- The contents of a message's views. -/
def IrcMsg.read (mem : CMemory) (views : IrcMsg View) : IrcMsg Bytes where
  tags := views.tags.map (IrcTag.read mem)
  source := views.source.read mem
  command := views.command.read mem
  args := views.args.map (View.read · mem)

/-- The outcome of parsing, every view read from the memory the parser left behind. -/
def readBack (result : Throws (IrcMsg View × CMemory)) : Throws (IrcMsg Bytes) := do
  let (views, mem) ← result
  pure (views.read mem)

/-- The views of tags show their parts. -/
theorem tags_read {lo hi : Nat} {mem : CMemory} {views : List (IrcTag View)}
    {tags : List (IrcTag Bytes)} (holds : List.Forall₂ (IrcTag.Holds lo hi mem) views tags)
    : views.map (IrcTag.read mem) = tags := by
  refine List.forall₂_eq_eq_eq ▸ List.forall₂_map_left_iff.mpr (holds.imp ?_)
  rintro tag ⟨key, val⟩ ⟨keyHolds, valHolds⟩
  simp only [IrcTag.read, IrcTag.mk.injEq]
  exact ⟨keyHolds.1, valHolds.1⟩

/-- A message's views show its parts. -/
theorem IrcMsg.Holds.read {lo hi : Nat} {mem : CMemory} {views : IrcMsg View}
    {msg : IrcMsg Bytes} (holds : views.Holds lo hi mem msg)
    : views.read mem = msg := by
  obtain ⟨tags, source, command, args⟩ := msg
  have sameTags : views.tags.map (IrcTag.read mem) = tags := tags_read holds.tags
  have sameArgs : views.args.map (View.read · mem) = args := by
    refine List.forall₂_eq_eq_eq ▸ List.forall₂_map_left_iff.mpr (holds.args.imp ?_)
    exact fun view text holds => holds.1
  simp only [IrcMsg.read, sameTags, sameArgs, IrcMsg.mk.injEq, true_and, and_true]
  exact ⟨holds.source.1, holds.command.1⟩

/-- A message parsed early is read late: cutting off lines behind it keeps its views. -/
theorem IrcMsg.Holds.read_later {lo hi lo' hi' : Nat} {mem mem' : CMemory}
    {views : IrcMsg View} {msg : IrcMsg Bytes} (holds : views.Holds lo hi mem msg)
    (frame : Frame lo' hi' mem mem') (apart : hi ≤ lo')
    : views.read mem' = msg := by
  have later : views.Holds lo hi mem' msg := {
    tags := tags_frame holds.tags frame (Or.inl apart) (Nat.le_refl _) (Nat.le_refl _)
    source := frame.holds holds.source (Or.inl apart)
    command := frame.holds holds.command (Or.inl apart)
    args := views_frame holds.args frame (Or.inl apart) (Nat.le_refl _) (Nat.le_refl _)
  }
  exact later.read

/-- Reading the views after parsing gives the reference's outcome. -/
theorem Agrees.readBack_eq {lo hi : Nat} {mem : CMemory}
    {result : Throws (IrcMsg View × CMemory)} {reference : Except IrcErrorCode (IrcMsg Bytes)}
    (agrees : Agrees
      (fun msg result => result.1.Holds lo hi result.2 msg ∧ Frame lo hi mem result.2)
      result reference)
    : readBack result = some reference := by
  cases agrees with
  | throws code => rfl
  | returns holds => rw [← holds.1.read]; rfl

/-- A message without bad tags fails on its command, if at all. -/
theorem messageOf_eq_missingCommand_iff {line : Bytes}
    : messageOf line = .error .missingCommand
      ↔ ¬ BadTags line ∧ ¬ ∃ msg, Message line msg := by
  simp only [← messageOf_eq_missingTag_iff, ← messageOf_eq_ok_iff]
  cases messageOf line with
  | ok msg => simp
  | error code => cases code <;> simp

/-- Parsing a null-terminated message in place always ends. Its views, read when all is
done, show what the reference reads from the original bytes; no byte outside the message
is written. It succeeds exactly on the texts of the grammar, a bad tag is reported before
anything else, and otherwise the command is missing.
-/
theorem parseIrcMessage_correct {mem : CMemory} {start : Nat} {line : Bytes}
    (here : CString mem start line)
    : readBack (parseIrcMessage mem start) = some (messageOf line)
      ∧ (∀ views mem',
          parseIrcMessage mem start = some (.ok (views, mem'))
          → Frame start (start + line.length) mem mem')
      ∧ (∀ msg, messageOf line = .ok msg ↔ Message line msg)
      ∧ (messageOf line = .error .missingTag ↔ BadTags line)
      ∧ (messageOf line = .error .missingCommand
          ↔ ¬ BadTags line ∧ ¬ ∃ msg, Message line msg) := by
  have agrees := parseIrcMessage_refines here
  refine ⟨agrees.readBack_eq, ?_, fun msg => messageOf_eq_ok_iff,
    messageOf_eq_missingTag_iff, messageOf_eq_missingCommand_iff⟩
  intro views mem' parses
  rw [parses] at agrees
  generalize messageOf line = reference at agrees
  cases agrees with
  | returns holds => exact holds.2

/-- The message `@k=\s :a b :c d` in a buffer with a byte in front of it and one behind. -/
theorem parseIrcMessage_correct_witness
    : messageOf (lit "@k=\\s :a b :c d")
        = .ok {
            tags := [{ key := lit "k", val := lit " " }]
            source := lit "a"
            command := lit "b"
            args := [lit "c d"]
          } := by
  have here : CString (9 :: lit "@k=\\s :a b :c d" ++ [0, 7]) 1 (lit "@k=\\s :a b :c d") := by
    decide
  exact Option.some.inj ((parseIrcMessage_correct here).1.symm.trans rfl)

end Snowcone.IrcParsing
