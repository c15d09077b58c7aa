import Mathlib.Data.List.Basic

/-! A list of entries beside which a line is being typed. The entries can be viewed one after the
other, and changed while they are viewed.
-/

/-- The line is being typed, or one of the entries is being viewed while the line waits. The
entries on both sides of the one that is viewed are listed from there.
-/
inductive EntryZipper (α : Type) where
  | typing (entries : List α) (line : α)
  | viewing (older : List α) (original current : α) (newer : List α) (line : α)
deriving DecidableEq

namespace EntryZipper

variable {α : Type} (blank : α → Bool)

/-- The entries as they are kept meanwhile. -/
def entries : EntryZipper α → List α
  | typing entries _ => entries
  | viewing older original _ newer _ => older.reverse ++ original :: newer

/-- What can be changed. -/
def current : EntryZipper α → α
  | typing _ line => line
  | viewing _ _ current _ _ => current

/-- The line that is being typed, or waits. -/
def line : EntryZipper α → α
  | typing _ line => line
  | viewing _ _ _ _ line => line

/-- What becomes of an entry that was viewed: it is replaced, or gone if it was made blank. -/
def leave (current : α) : List α := if blank current then [] else [current]

/-- The entries once the one that is viewed is left. -/
def settled : EntryZipper α → List α
  | typing entries _ => entries
  | viewing older _ current newer _ => older.reverse ++ leave blank current ++ newer

/-- What can be changed is changed. -/
def edit : EntryZipper α → α → EntryZipper α
  | typing entries _, changed => typing entries changed
  | viewing older original _ newer line, changed => viewing older original changed newer line

/-- To the entry before; there is nothing before the first one. -/
def older : EntryZipper α → EntryZipper α
  | typing entries line =>
      match entries.reverse with
      | [] => typing entries line
      | entry :: rest => viewing rest entry entry [] line
  | viewing [] original current newer line => viewing [] original current newer line
  | viewing (entry :: rest) _ current newer line =>
      viewing rest entry entry (leave blank current ++ newer) line

/-- To the entry behind; behind the last one is the line. -/
def newer : EntryZipper α → EntryZipper α
  | typing entries line => typing entries line
  | viewing older _ current [] line => typing (older.reverse ++ leave blank current) line
  | viewing older _ current (entry :: rest) line =>
      viewing (leave blank current ++ older) entry entry rest line

/-- The entries are no longer viewed, and there is another line. -/
def discard (zipper : EntryZipper α) (line : α) : EntryZipper α := typing zipper.entries line

/-- What is there becomes the last entry, unless it is the same as the one before. -/
def enter (same : α → α → Bool) (zipper : EntryZipper α) (line : α) : EntryZipper α :=
  if zipper.entries.getLast?.any (same · zipper.current) then zipper.discard line
  else typing (zipper.entries ++ [zipper.current]) line

-----------------------------------------------------------------------------------------
-- Going through the entries
-----------------------------------------------------------------------------------------

section Walking

variable {blank} {zipper : EntryZipper α}

/-- An entry that is not blank stays. -/
theorem leave_of_not_blank {current : α} (notBlank : ¬blank current = true)
    : leave blank current = [current] :=
  if_neg notBlank

/-- What is left in one order or the other is the same. -/
@[simp]
theorem reverse_leave (current : α) : (leave blank current).reverse = leave blank current := by
  rw [leave]
  split <;> rfl

/-- Nothing that stays is blank. -/
theorem not_blank_of_mem_leave {current entry : α} (member : entry ∈ leave blank current)
    : ¬blank entry = true := by
  rw [leave] at member
  split at member
  · cases member
  · next notBlank =>
      obtain rfl := List.mem_singleton.mp member
      exact notBlank

/-- Entries none of which is blank, but for the one that is viewed. -/
def Kept (blank : α → Bool) : EntryZipper α → Prop
  | typing entries _ => ∀ entry ∈ entries, ¬blank entry = true
  | viewing older _ _ newer _ =>
      (∀ entry ∈ older, ¬blank entry = true) ∧ ∀ entry ∈ newer, ¬blank entry = true

/-- Going to an older entry keeps the entries as they are to be, and the line. -/
theorem older_keeps (kept : zipper.Kept blank)
    : (zipper.older blank).Kept blank
      ∧ (zipper.older blank).settled blank = zipper.settled blank
      ∧ (zipper.older blank).line = zipper.line := by
  cases zipper with
  | typing entries line =>
      cases reversed : entries.reverse with
      | nil =>
          have same : (typing entries line).older blank = typing entries line := by
            rw [older, reversed]
          rw [same]
          exact ⟨kept, rfl, rfl⟩
      | cons entry rest =>
          have isOlder : (typing entries line).older blank = viewing rest entry entry [] line := by
            rw [older, reversed]
          have isEntries : entries = rest.reverse ++ [entry] := by
            rw [← List.reverse_reverse entries, reversed, List.reverse_cons]
          subst isEntries
          obtain ⟨olderKept, entryKept⟩ := List.forall_mem_append.mp kept
          have notBlank := entryKept entry List.mem_cons_self
          rw [isOlder]
          refine ⟨⟨fun other member => ?_, nofun⟩, ?_, rfl⟩
          · exact olderKept other (List.mem_reverse.mpr member)
          · rw [settled, settled, leave_of_not_blank notBlank, List.append_nil]
  | viewing before original current behind line =>
      cases before with
      | nil => exact ⟨kept, rfl, rfl⟩
      | cons entry rest =>
          obtain ⟨olderKept, newerKept⟩ := kept
          obtain ⟨notBlank, restKept⟩ := List.forall_mem_cons.mp olderKept
          refine ⟨⟨restKept, ?_⟩, ?_, rfl⟩
          · exact List.forall_mem_append.mpr ⟨fun _ => not_blank_of_mem_leave, newerKept⟩
          · simp [older, settled, leave_of_not_blank notBlank]

/-- Going to a newer entry keeps the entries as they are to be, and the line. -/
theorem newer_keeps (kept : zipper.Kept blank)
    : (zipper.newer blank).Kept blank
      ∧ (zipper.newer blank).settled blank = zipper.settled blank
      ∧ (zipper.newer blank).line = zipper.line := by
  cases zipper with
  | typing entries line => exact ⟨kept, rfl, rfl⟩
  | viewing before original current behind line =>
      obtain ⟨olderKept, newerKept⟩ := kept
      cases behind with
      | nil =>
          refine ⟨?_, ?_, rfl⟩
          · intro entry member
            rcases List.mem_append.mp member with isOlder | isLeft
            · exact olderKept entry (List.mem_reverse.mp isOlder)
            · exact not_blank_of_mem_leave isLeft
          · rw [newer, settled, settled, List.append_nil]
      | cons entry rest =>
          obtain ⟨notBlank, restKept⟩ := List.forall_mem_cons.mp newerKept
          refine ⟨⟨?_, restKept⟩, ?_, rfl⟩
          · exact List.forall_mem_append.mpr ⟨fun _ => not_blank_of_mem_leave, olderKept⟩
          · simp [newer, settled, leave_of_not_blank notBlank]

end Walking

-----------------------------------------------------------------------------------------
-- What entries can be
-----------------------------------------------------------------------------------------

section All

variable {blank} {p : α → Prop} {zipper : EntryZipper α}

/-- All entries have a property, and so do what can be changed and the line. -/
def Forall (p : α → Prop) : EntryZipper α → Prop
  | typing entries line => (∀ entry ∈ entries, p entry) ∧ p line
  | viewing older original current newer line =>
      (∀ entry ∈ older, p entry) ∧ p original ∧ p current ∧ (∀ entry ∈ newer, p entry) ∧ p line

/-- The entries as they are kept. -/
theorem Forall.entries (all : zipper.Forall p) : ∀ entry ∈ zipper.entries, p entry := by
  cases zipper with
  | typing entries line => exact all.1
  | viewing older original current newer line =>
      obtain ⟨before, isOriginal, -, behind, -⟩ := all
      simpa [EntryZipper.entries, or_imp, forall_and] using ⟨before, isOriginal, behind⟩

/-- What can be changed. -/
theorem Forall.current (all : zipper.Forall p) : p zipper.current := by
  cases zipper with
  | typing entries line => exact all.2
  | viewing older original current newer line => exact all.2.2.1

/-- An entry that is left is as it was changed. -/
theorem forall_leave {current : α} (isCurrent : p current)
    : ∀ entry ∈ leave blank current, p entry := by
  rw [leave]
  split
  · nofun
  · intro entry member
    rw [List.mem_singleton.mp member]
    exact isCurrent

/-- Changing what can be changed. -/
theorem Forall.edit (all : zipper.Forall p) {changed : α} (isChanged : p changed)
    : (zipper.edit changed).Forall p := by
  cases zipper with
  | typing entries line => exact ⟨all.1, isChanged⟩
  | viewing older original current newer line =>
      obtain ⟨before, isOriginal, -, behind⟩ := all
      exact ⟨before, isOriginal, isChanged, behind⟩

/-- Going to an older entry brings in nothing. -/
theorem Forall.older (all : zipper.Forall p) : (zipper.older blank).Forall p := by
  cases zipper with
  | typing entries line =>
      rw [EntryZipper.older]
      split
      · exact all
      · next entry rest reversed =>
          have reach : ∀ other ∈ entry :: rest, p other := fun other member =>
            all.1 other (List.mem_reverse.mp (reversed ▸ member))
          obtain ⟨isEntry, isRest⟩ := List.forall_mem_cons.mp reach
          exact ⟨isRest, isEntry, isEntry, by simp, all.2⟩
  | viewing before original current behind line =>
      cases before with
      | nil => exact all
      | cons entry rest =>
          obtain ⟨isBefore, -, isCurrent, isBehind, isLine⟩ := all
          obtain ⟨isEntry, isRest⟩ := List.forall_mem_cons.mp isBefore
          exact ⟨isRest, isEntry, isEntry,
            List.forall_mem_append.mpr ⟨forall_leave isCurrent, isBehind⟩, isLine⟩

/-- Going to a newer entry brings in nothing. -/
theorem Forall.newer (all : zipper.Forall p) : (zipper.newer blank).Forall p := by
  cases zipper with
  | typing entries line => exact all
  | viewing before original current behind line =>
      obtain ⟨isBefore, -, isCurrent, isBehind, isLine⟩ := all
      cases behind with
      | nil =>
          refine ⟨List.forall_mem_append.mpr ⟨fun entry member => ?_, forall_leave isCurrent⟩,
            isLine⟩
          exact isBefore entry (List.mem_reverse.mp member)
      | cons entry rest =>
          obtain ⟨isEntry, isRest⟩ := List.forall_mem_cons.mp isBehind
          exact ⟨List.forall_mem_append.mpr ⟨forall_leave isCurrent, isBefore⟩, isEntry, isEntry,
            isRest, isLine⟩

/-- Leaving the entries alone. -/
theorem Forall.discard (all : zipper.Forall p) {line : α} (isLine : p line)
    : (zipper.discard line).Forall p :=
  ⟨all.entries, isLine⟩

/-- What is entered was there before. -/
theorem Forall.enter (all : zipper.Forall p) (same : α → α → Bool) {line : α} (isLine : p line)
    : (zipper.enter same line).Forall p := by
  rw [EntryZipper.enter]
  split
  · exact all.discard isLine
  · refine ⟨List.forall_mem_append.mpr ⟨all.entries, ?_⟩, isLine⟩
    intro entry member
    rw [List.mem_singleton.mp member]
    exact all.current

end All

end EntryZipper
