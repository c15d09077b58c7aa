import Snowcone.Editing.HistoryZipper
import Snowcone.Foundations.LuaTables

/-! The client's editor with its lines as tables that the buffer, the stash and the history hold
by reference. An edit changes the table of the buffer in place.
-/

namespace Snowcone.Editing

open LuaSequence LuaTables

/-- The fields of an editor, with references to the tables of lines. -/
structure SharedEditor where
  tables : Tables Int
  buffer : Nat
  history : List Nat
  cursor : Int
  first : Int
  retrospect : Option Int
  stash : Option Nat
  yank : List Int
  state : EditState
  tablist : Option (List (List Int))
  tabix : Option Int
  beforeCursor : Bytes
  atCursor : Bytes

namespace SharedEditor

/-- The editor as it is seen through its references. -/
def read (editor : SharedEditor) : Editor :=
  { editor with
    buffer := editor.tables.read editor.buffer
    history := editor.history.map editor.tables.read
    stash := editor.stash.map editor.tables.read }

/-- The fields that hold no line are as in another editor. -/
def showing (editor : SharedEditor) (shown : Editor) : SharedEditor :=
  { shown with
    tables := editor.tables, buffer := editor.buffer, history := editor.history
    stash := editor.stash }

/-- A table of its own for the buffer. -/
def withBuffer (editor : SharedEditor) (line : List Int) : SharedEditor :=
  let (tables, buffer) := editor.tables.alloc line
  { editor with tables, buffer }

/-- `move_to_end` -/
def moveToEnd (editor : SharedEditor) : Except Trouble SharedEditor := do
  return editor.showing (← editor.read.moveToEnd .ircc)

/-- `reset` -/
def reset (editor : SharedEditor) : Except Trouble SharedEditor := do
  let editor := { editor.withBuffer [] with retrospect := none, stash := none }
  return editor.showing (← editor.read.move .ircc 1 .edit)

/-- `confirm` -/
def confirm (lib : Tablex) (editor : SharedEditor) : Except Trouble SharedEditor := do
  let line := editor.tables.read editor.buffer
  if editor.history.getLast?.any (fun last => lib.compareNoOrder (editor.tables.read last) line)
  then editor.reset
  else
    let history ← orHole (LuaSequence.set editor.history (editor.history.length + 1) editor.buffer)
    reset { editor with history }

/-- The buffer itself put into the history, or its entry removed if the buffer is empty; and
whether the entry is still there.
-/
def leaveEntry (editor : SharedEditor) (r : Int) : Except Trouble (List Nat × Bool) :=
  if (LuaSequence.get (editor.tables.read editor.buffer) 1).isSome then do
    let history ← orHole (LuaSequence.set editor.history r editor.buffer)
    return (history, true)
  else do
    let history ← orRaise (remove editor.history r)
    return (history, false)

/-- `older_history` -/
def olderHistory (editor : SharedEditor) : Except Trouble SharedEditor := do
  match editor.retrospect with
  | some r =>
      if 1 < r then
        let (history, _) ← editor.leaveEntry r
        let entry ← orRaise (LuaSequence.get history (r - 1))
        moveToEnd
          { editor.withBuffer (editor.tables.read entry) with history, retrospect := some (r - 1) }
      else return editor
  | none =>
      if (LuaSequence.get editor.history 1).isSome then
        let r := editor.history.length
        let entry ← orRaise (LuaSequence.get editor.history r)
        moveToEnd
          { editor.withBuffer (editor.tables.read entry) with
            stash := some editor.buffer, retrospect := some r }
      else return editor

/-- `newer_history` -/
def newerHistory (editor : SharedEditor) : Except Trouble SharedEditor := do
  match editor.retrospect with
  | none => return editor
  | some r =>
      let (history, stays) ← editor.leaveEntry r
      let r := if stays then r + 1 else r
      match LuaSequence.get history r with
      | none =>
          let buffer ← orRaise editor.stash
          moveToEnd { editor with history, buffer, stash := none, retrospect := none }
      | some entry =>
          moveToEnd
            { editor.withBuffer (editor.tables.read entry) with history, retrospect := some r }

/-- An operation that changes the table of the buffer. -/
def edit (lib : Tablex) (isalnum : Int → Bool) (editor : SharedEditor) (operation : Operation)
    : Except Trouble SharedEditor := do
  let edited ← Editing.perform .ircc lib isalnum editor.read operation
  return { editor.showing edited with tables := editor.tables.write editor.buffer edited.buffer }

/-- `kill_to_beg`, which leaves a copy of what is behind the cursor as the buffer. -/
def killToBeg (lib : Tablex) (editor : SharedEditor) : Except Trouble SharedEditor := do
  let edited ← editor.read.killToBeg .ircc lib
  return (editor.showing edited).withBuffer edited.buffer

/-- An operation on an editor. -/
def perform (lib : Tablex) (isalnum : Int → Bool) (editor : SharedEditor)
    : Operation → Except Trouble SharedEditor
  | .olderHistory => editor.olderHistory
  | .newerHistory => editor.newerHistory
  | .confirm => editor.confirm lib
  | .reset => editor.reset
  | .killToBeg => editor.killToBeg lib
  | operation => editor.edit lib isalnum operation

/-- One step of a run: an operation that raises an error counts as not changing the editor, and
there is no step to an editor with a table that is no sequence.
-/
def step (lib : Tablex) (isalnum : Int → Bool) (editor : SharedEditor) (operation : Operation)
    : Option SharedEditor :=
  match editor.perform lib isalnum operation with
  | .ok editor => some editor
  | .error .raised => some editor
  | .error .hole => none

/-- `_init` -/
def initial : SharedEditor :=
  { Editing.initial with
    tables := { contents := fun _ => [], next := 1 }
    buffer := 0, history := [], stash := none }

/-- The tables that an editor refers to. -/
def refs (editor : SharedEditor) : List Nat :=
  editor.buffer :: (editor.stash.toList ++ editor.history)

/-- No line is held twice: what is done to the buffer is seen nowhere else. -/
def Separate (editor : SharedEditor) : Prop := editor.tables.Apart editor.refs

end SharedEditor

-----------------------------------------------------------------------------------------
-- What is seen through references
-----------------------------------------------------------------------------------------

/-- An operation on shared lines has the outcome of the operation on the lines themselves, and the
lines stay separate.
-/
def Mirrors : Except Trouble SharedEditor → Except Trouble Editor → Prop
  | .ok after, .ok seen => after.read = seen ∧ after.Separate
  | .error trouble, .error other => trouble = other
  | _, _ => False

section Mirroring

variable {α β : Type} {lib : Tablex} {isalnum : Int → Bool} {editor : SharedEditor}
  {value : Option α} {seen : α → β} {shared : α → Except Trouble SharedEditor}
  {plain : β → Except Trouble Editor}

/-- What goes on behind a value that may be missing. -/
theorem mirrors_orRaise (mirrors : ∀ a, value = some a → Mirrors (shared a) (plain (seen a)))
    : Mirrors (orRaise value >>= shared) (orRaise (value.map seen) >>= plain) := by
  cases value with
  | none => exact rfl
  | some a => exact mirrors a rfl

/-- What goes on behind a table that may be no sequence. -/
theorem mirrors_orHole (mirrors : ∀ a, value = some a → Mirrors (shared a) (plain (seen a)))
    : Mirrors (orHole value >>= shared) (orHole (value.map seen) >>= plain) := by
  cases value with
  | none => exact rfl
  | some a => exact mirrors a rfl

/-- The lines are as they were, whatever else is shown. -/
theorem read_showing {shown : Editor} (same : SameHistory editor.read shown)
    : (editor.showing shown).read = { shown with buffer := editor.read.buffer } := by
  have isHistory : editor.history.map editor.tables.read = shown.history := same.history.symm
  have isStash : editor.stash.map editor.tables.read = shown.stash := same.stash.symm
  have isBuffer : editor.read.buffer = editor.tables.read editor.buffer := rfl
  rw [SharedEditor.read, SharedEditor.showing]
  simp only [isHistory, isStash, isBuffer]

/-- `move` -/
theorem mirrors_move (separate : editor.Separate) (x : Int) (state : EditState)
    : Mirrors (do return editor.showing (← editor.read.move .ircc x state))
        (editor.read.move .ircc x state) := by
  have same := @sameHistory_move editor.read editor.read x state (SameHistory.refl _)
  have line : Yields (fun after => after.buffer = editor.read.buffer)
      (editor.read.move .ircc x state) :=
    yields_render fun _ _ => rfl
  cases outcome : editor.read.move .ircc x state with
  | error trouble => exact rfl
  | ok shown =>
      rw [outcome] at same line
      have isRead := read_showing same
      rw [← show shown.buffer = editor.read.buffer from line] at isRead
      exact ⟨isRead, separate⟩

/-- A buffer of its own is apart from the other lines, which stay as they are. -/
theorem withBuffer_seen (line : List Int)
    (others : editor.tables.Apart (editor.stash.toList ++ editor.history))
    : (editor.withBuffer line).read = { editor.read with buffer := line }
      ∧ (editor.withBuffer line).Separate := by
  refine ⟨?_, others.alloc line⟩
  have all := Tables.map_read_alloc line others.isThere
  rw [List.map_append, List.map_append] at all
  obtain ⟨isStash, isHistory⟩ := List.append_inj all (by simp)
  have stash : editor.stash.map (editor.tables.alloc line).1.read
      = editor.stash.map editor.tables.read := by
    cases isThere : editor.stash with
    | none => rfl
    | some ref => simpa [isThere] using isStash
  rw [SharedEditor.read, SharedEditor.withBuffer, SharedEditor.read]
  simp only [Tables.read_alloc, stash, isHistory]

/-- What an editor does without its buffer's table. -/
theorem SharedEditor.Separate.others (separate : editor.Separate)
    : editor.tables.Apart (editor.stash.toList ++ editor.history) :=
  separate.subperm (List.sublist_cons_self ..).subperm

/-- `move_to_end` with a buffer of its own. -/
theorem mirrors_copied (line : List Int)
    (others : editor.tables.Apart (editor.stash.toList ++ editor.history))
    : Mirrors (editor.withBuffer line).moveToEnd
        (Editor.moveToEnd .ircc { editor.read with buffer := line }) := by
  obtain ⟨isRead, separate⟩ := withBuffer_seen line others
  rw [← isRead]
  exact mirrors_move separate _ _

/-- `reset`, whatever the buffer was. -/
theorem mirrors_reset (others : editor.tables.Apart editor.history)
    : Mirrors editor.reset (editor.read.reset .ircc) := by
  obtain ⟨isRead, separate⟩ := @withBuffer_seen
    { editor with retrospect := none, stash := none } [] others
  have isReset : ({ editor.read with buffer := [], retrospect := none, stash := none } : Editor)
      = _ := isRead.symm
  rw [Editor.reset, isReset]
  exact mirrors_move separate 1 .edit

/-- `confirm`: what was the buffer is a line of the history then. -/
theorem mirrors_confirm (separate : editor.Separate)
    : Mirrors (editor.confirm lib) (editor.read.confirm .ircc lib) := by
  have isLast : editor.read.history.getLast?.any (lib.compareNoOrder · editor.read.buffer)
      = editor.history.getLast?.any (fun last => lib.compareNoOrder (editor.tables.read last)
          (editor.tables.read editor.buffer)) := by
    rw [SharedEditor.read, List.getLast?_map, Option.any_map]
  have isLength : editor.read.history.length = editor.history.length := List.length_map ..
  rw [SharedEditor.confirm, Editor.confirm, isLast, isLength]
  split
  · exact mirrors_reset (separate.others.subperm (List.sublist_append_right ..).subperm)
  · rw [show LuaSequence.set editor.read.history (editor.history.length + 1) editor.read.buffer
      = _ from set_map editor.tables.read editor.history _ editor.buffer]
    refine mirrors_orHole fun history isSet => mirrors_reset ?_
    refine separate.subperm ((subperm_of_set isSet).trans ?_)
    exact (List.Sublist.cons_cons _ (List.sublist_append_right ..)).subperm

/-- What goes on behind an entry that is left: the history has no more lines than before and the
buffer.
-/
theorem mirrors_leaveEntry {r : Int} {shared : List Nat × Bool → Except Trouble SharedEditor}
    {plain : List (List Int) × Bool → Except Trouble Editor}
    (mirrors : ∀ history stays, history.Subperm (editor.buffer :: editor.history)
      → Mirrors (shared (history, stays)) (plain (history.map editor.tables.read, stays)))
    : Mirrors (editor.leaveEntry r >>= shared) (editor.read.leaveEntry r >>= plain) := by
  rw [SharedEditor.leaveEntry, Editor.leaveEntry]
  have isBuffer : editor.read.buffer = editor.tables.read editor.buffer := rfl
  have isHistory : editor.read.history = editor.history.map editor.tables.read := rfl
  rw [isBuffer, isHistory, set_map, remove_map]
  split
  · cases isSet : LuaSequence.set editor.history r editor.buffer with
    | none => exact rfl
    | some history => exact mirrors history true (subperm_of_set isSet)
  · cases removed : remove editor.history r with
    | none => exact rfl
    | some history =>
        refine mirrors history false ((sublist_of_remove removed).subperm.trans ?_)
        exact (List.sublist_cons_self ..).subperm

/-- Lines of the history and the stash are apart when the history has no more of them than before
and the buffer.
-/
theorem SharedEditor.Separate.stashed (separate : editor.Separate) {history : List Nat}
    (fewer : history.Subperm (editor.buffer :: editor.history))
    : editor.tables.Apart (editor.stash.toList ++ history) := by
  refine separate.subperm (((List.subperm_append_left _).mpr fewer).trans ?_)
  exact List.perm_middle.subperm

/-- `older_history` -/
theorem mirrors_olderHistory (separate : editor.Separate)
    : Mirrors editor.olderHistory (editor.read.olderHistory .ircc) := by
  have isRetrospect : editor.read.retrospect = editor.retrospect := rfl
  have isHistory : editor.read.history = editor.history.map editor.tables.read := rfl
  rw [SharedEditor.olderHistory, Editor.olderHistory, isRetrospect]
  cases editor.retrospect with
  | some r =>
      dsimp only
      split
      · refine mirrors_leaveEntry fun history stays fewer => ?_
        dsimp only
        rw [get_map]
        refine mirrors_orRaise fun entry _ => ?_
        exact @mirrors_copied { editor with history, retrospect := some (r - 1) } _
          (separate.stashed fewer)
      · exact ⟨rfl, separate⟩
  | none =>
      dsimp only
      rw [isHistory, get_map, Option.isSome_map]
      split
      · rw [List.length_map, get_map]
        refine mirrors_orRaise fun entry _ => ?_
        refine @mirrors_copied { editor with
          stash := some editor.buffer, retrospect := some editor.history.length } _ ?_
        exact separate.subperm (List.Sublist.cons_cons _ (List.sublist_append_right ..)).subperm
      · exact ⟨rfl, separate⟩

/-- `newer_history` -/
theorem mirrors_newerHistory (separate : editor.Separate)
    : Mirrors editor.newerHistory (editor.read.newerHistory .ircc) := by
  have isRetrospect : editor.read.retrospect = editor.retrospect := rfl
  rw [SharedEditor.newerHistory, Editor.newerHistory, isRetrospect]
  cases editor.retrospect with
  | none => exact ⟨rfl, separate⟩
  | some r =>
      dsimp only
      refine mirrors_leaveEntry fun history stays fewer => ?_
      dsimp only
      rw [get_map]
      cases LuaSequence.get history (if stays = true then r + 1 else r) with
      | none =>
          refine mirrors_orRaise fun buffer isStash => ?_
          have separate' : SharedEditor.Separate
              { editor with history, buffer, stash := none, retrospect := none } := by
            have stashed := separate.stashed fewer
            rw [isStash] at stashed
            exact stashed
          exact mirrors_move separate' _ _
      | some entry =>
          exact @mirrors_copied { editor with
            history, retrospect := some (if stays = true then r + 1 else r) } _
            (separate.stashed fewer)

/-- An edit is seen in the buffer alone. -/
theorem mirrors_edit {operation : Operation} (separate : editor.Separate)
    (edits : operation.Edits)
    : Mirrors (editor.edit lib isalnum operation)
        (perform .ircc lib isalnum editor.read operation) := by
  have same := @sameHistory_perform lib isalnum editor.read operation edits
  rw [SharedEditor.edit]
  cases outcome : perform .ircc lib isalnum editor.read operation with
  | error trouble => exact rfl
  | ok edited =>
      rw [outcome] at same
      refine ⟨?_, separate.write editor.buffer edited.buffer⟩
      have isOther : editor.buffer ∉ editor.stash.toList ++ editor.history :=
        (List.nodup_cons.mp separate.nodup).1
      have all := @Tables.map_read_write _ editor.tables _ _ edited.buffer isOther
      rw [List.map_append, List.map_append] at all
      obtain ⟨isStash, isHistory⟩ := List.append_inj all (by simp)
      have stash : editor.stash.map (editor.tables.write editor.buffer edited.buffer).read
          = edited.stash := by
        rw [same.stash]
        cases isThere : editor.stash with
        | none => simp [SharedEditor.read, isThere]
        | some ref => simpa [SharedEditor.read, isThere] using isStash
      have history : editor.history.map (editor.tables.write editor.buffer edited.buffer).read
          = edited.history := isHistory.trans same.history.symm
      rw [SharedEditor.read, SharedEditor.showing]
      simp only [Tables.read_write, stash, history]

/-- `kill_to_beg`: the table of the buffer is no longer held. -/
theorem mirrors_killToBeg (isalnum : Int → Bool) (separate : editor.Separate)
    : Mirrors (editor.killToBeg lib) (editor.read.killToBeg .ircc lib) := by
  have same : Yields (SameHistory editor.read) (editor.read.killToBeg .ircc lib) := by
    refine @sameHistory_perform lib isalnum editor.read .killToBeg ⟨⟨?_, ?_⟩, ?_, ?_⟩ <;>
      rintro ⟨⟩
  rw [SharedEditor.killToBeg]
  cases outcome : editor.read.killToBeg .ircc lib with
  | error trouble => exact rfl
  | ok edited =>
      rw [outcome] at same
      obtain ⟨isRead, isSeparate⟩ := @withBuffer_seen (editor.showing edited) edited.buffer
        separate.others
      rw [read_showing same] at isRead
      exact ⟨isRead, isSeparate⟩

/-- Every operation, by cases. -/
theorem mirrors_perform (lib : Tablex) (isalnum : Int → Bool) (separate : editor.Separate)
    (operation : Operation)
    : Mirrors (editor.perform lib isalnum operation)
        (perform .ircc lib isalnum editor.read operation) := by
  cases operation with
  | olderHistory => exact mirrors_olderHistory separate
  | newerHistory => exact mirrors_newerHistory separate
  | confirm => exact mirrors_confirm separate
  | reset => exact mirrors_reset (separate.others.subperm (List.sublist_append_right ..).subperm)
  | killToBeg => exact mirrors_killToBeg isalnum separate
  | _ =>
      refine mirrors_edit separate ⟨⟨?_, ?_⟩, ?_, ?_⟩ <;>
        rintro ⟨⟩

/-- A step on shared lines is seen as a step on the lines themselves. -/
theorem step_mirrors (lib : Tablex) (isalnum : Int → Bool) (separate : editor.Separate)
    {operation : Operation} {seen : Editor}
    (moves : step .ircc lib isalnum editor.read operation = some seen)
    : ∃ after, editor.step lib isalnum operation = some after ∧ after.read = seen
      ∧ after.Separate := by
  have mirrors := mirrors_perform lib isalnum separate operation
  rw [step] at moves
  rw [SharedEditor.step]
  cases shared : editor.perform lib isalnum operation with
  | ok after =>
      cases plain : perform .ircc lib isalnum editor.read operation with
      | ok seen' =>
          rw [plain] at moves
          obtain rfl := Option.some.inj moves
          rw [shared, plain] at mirrors
          exact ⟨after, rfl, mirrors⟩
      | error trouble =>
          rw [shared, plain] at mirrors
          exact mirrors.elim
  | error trouble =>
      cases plain : perform .ircc lib isalnum editor.read operation with
      | ok seen' =>
          rw [shared, plain] at mirrors
          exact mirrors.elim
      | error other =>
          rw [shared, plain] at mirrors
          obtain rfl : trouble = other := mirrors
          rw [plain] at moves
          cases trouble with
          | raised =>
              obtain rfl := Option.some.inj moves
              exact ⟨editor, rfl, rfl, separate⟩
          | hole => cases moves

end Mirroring

-----------------------------------------------------------------------------------------
-- Whole runs
-----------------------------------------------------------------------------------------

section Runs

variable {lib : Tablex} {start : SharedEditor} {zipper : EntryZipper (List Int)}

/-- A step that does to the editor what it does to a zipper. -/
def FollowsZipper (lib : Tablex) (before : SharedEditor) (operation : Operation)
    (after : SharedEditor) : Prop :=
  ∃ zipper, Abstracts before.read zipper
    ∧ Abstracts after.read (follow lib zipper after.read.buffer operation)

/-- What holds before every step. -/
def Reachable (editor : SharedEditor) : Prop :=
  editor.Separate ∧ ∃ zipper, Zips editor.read zipper

/-- What holds before a step holds behind it. -/
theorem reachable_step (isalnum : Int → Bool) (documented : lib.Documented)
    (separate : start.Separate) (zips : Zips start.read zipper) (operation : Operation)
    : ∃ after, start.step lib isalnum operation = some after ∧ after.Separate
      ∧ Zips after.read (follow lib zipper after.read.buffer operation) := by
  obtain ⟨seen, moves, isZipper⟩ := zips_step isalnum documented zips operation
  obtain ⟨after, moves', rfl, isSeparate⟩ := step_mirrors lib isalnum separate moves
  exact ⟨after, moves', isSeparate, isZipper⟩

/-- In every run of operations, the editor behaves as a zipper over its history, and no line is
held twice.
-/
theorem editor_is_zipper (isalnum : Int → Bool) (documented : lib.Documented)
    (separate : start.Separate) (zips : Zips start.read zipper) (operations : List Operation)
    : (∃ after, Runs.run (SharedEditor.step lib isalnum) start operations = some after
        ∧ after.Separate)
      ∧ Runs.Along (SharedEditor.step lib isalnum) (FollowsZipper lib) start operations := by
  constructor
  · induction operations generalizing start zipper with
    | nil => exact ⟨start, rfl, separate⟩
    | cons operation operations ih =>
        obtain ⟨middle, moves, isSeparate, isZipper⟩ :=
          reachable_step isalnum documented separate zips operation
        obtain ⟨after, runs, isLast⟩ := ih isSeparate isZipper
        exact ⟨after, by rw [Runs.run, moves]; exact runs, isLast⟩
  · refine @Runs.along_of _ _ _ _ Reachable _ operations ⟨separate, zipper, zips⟩ ?_ ?_
    · rintro before operation after ⟨isSeparate, zipper, zips⟩ moves
      obtain ⟨after', moves', separate', zips'⟩ :=
        reachable_step isalnum documented isSeparate zips operation
      obtain rfl := Option.some.inj (moves.symm.trans moves')
      exact ⟨separate', _, zips'⟩
    · rintro before operation after ⟨isSeparate, zipper, zips⟩ moves
      obtain ⟨after', moves', -, zips'⟩ :=
        reachable_step isalnum documented isSeparate zips operation
      obtain rfl := Option.some.inj (moves.symm.trans moves')
      exact ⟨zipper, zips.abstracts, zips'.abstracts⟩

/-- Witness: a line is typed while an entered one is gone back to and changed. -/
theorem editor_is_zipper_witness
    : penlight.Documented
      ∧ (∃ after, Runs.run (SharedEditor.step penlight (fun _ => true)) SharedEditor.initial
            [.add 97, .confirm, .add 98, .olderHistory, .add 99, .newerHistory] = some after
          ∧ after.Separate)
      ∧ Runs.Along (SharedEditor.step penlight (fun _ => true)) (FollowsZipper penlight)
        SharedEditor.initial
        [.add 97, .confirm, .add 98, .olderHistory, .add 99, .newerHistory] := by
  have separate : SharedEditor.initial.Separate := ⟨by decide, by decide⟩
  have zips : Zips SharedEditor.initial.read (.typing [] []) :=
    ⟨shown_initial, .typing rfl rfl, nofun, nofun⟩
  exact ⟨penlight_documented, editor_is_zipper _ penlight_documented separate zips _⟩

end Runs

end Snowcone.Editing
