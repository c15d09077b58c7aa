import Snowcone.Editing.EditorCodes
import Snowcone.Editing.EnteredLines
import Snowcone.Foundations.EntryZipper

/-! The history of the client's editor as a zipper: lines are entered, gone through, and edited
while they are viewed.
-/

namespace Snowcone.Editing

open LuaSequence

/-- The zipper that an editor stands for. The index of the entry that is viewed counts the older
ones.
-/
inductive Abstracts (editor : Editor) : EntryZipper (List Int) → Prop where
  | typing (noEntry : editor.retrospect = none) (noStash : editor.stash = none)
    : Abstracts editor (.typing editor.history editor.buffer)
  | viewing {older newer : List (List Int)} {original line : List Int}
    (isEntry : editor.retrospect = some (older.length + 1 : Int))
    (isStash : editor.stash = some line)
    (isHistory : editor.history = older.reverse ++ original :: newer)
    : Abstracts editor (.viewing older original editor.buffer newer line)

/-- What an operation does to the zipper; one that edits leaves some text. -/
def follow (lib : Tablex) (zipper : EntryZipper (List Int)) (text : List Int)
    : Operation → EntryZipper (List Int)
  | .olderHistory => zipper.older List.isEmpty
  | .newerHistory => zipper.newer List.isEmpty
  | .confirm => zipper.enter lib.compareNoOrder []
  | .reset => zipper.discard []
  | _ => zipper.edit text

section Zipping

variable {lib : Tablex} {isalnum : Int → Bool} {editor after : Editor}
  {zipper : EntryZipper (List Int)} {operation : Operation}

/-- What an editor holds can be edited and is the entries of its zipper. -/
theorem Abstracts.parts (abstracts : Abstracts editor zipper)
    : zipper.current = editor.buffer ∧ zipper.entries = editor.history := by
  cases abstracts with
  | typing noEntry noStash => exact ⟨rfl, rfl⟩
  | viewing isEntry isStash isHistory => exact ⟨rfl, isHistory.symm⟩

/-- An editor with the same history, whatever its buffer is. -/
theorem Abstracts.edited (abstracts : Abstracts editor zipper) (same : SameHistory editor after)
    : Abstracts after (zipper.edit after.buffer) := by
  cases abstracts with
  | typing noEntry noStash =>
      have typing : Abstracts after (.typing after.history after.buffer) :=
        .typing (same.retrospect.trans noEntry) (same.stash.trans noStash)
      rw [same.history] at typing
      exact typing
  | viewing isEntry isStash isHistory =>
      exact .viewing (same.retrospect.trans isEntry) (same.stash.trans isStash)
        (same.history.trans isHistory)

/-- `move_to_end` shows any text and keeps the history. -/
theorem moveToEnd_same (codes : AllGood Encodable editor.buffer)
    : ∃ after, editor.moveToEnd .ircc = .ok after ∧ after.buffer = editor.buffer
      ∧ SameHistory editor after := by
  have all : ∀ code ∈ editor.buffer ++ [], Encodable code := by
    rw [List.append_nil]
    exact codes
  obtain ⟨after, isOk, moved⟩ :=
    move_moved editor .edit (List.append_nil editor.buffer).symm rfl all
  have same := @sameHistory_move editor editor (editor.buffer.length + 1) .edit
    (SameHistory.refl editor)
  rw [isOk] at same
  exact ⟨after, isOk, moved.buffer.trans (List.append_nil _), same⟩

/-- An entry that is left is replaced, or removed if it was made empty. -/
theorem leaveEntry_eq {before behind : List (List Int)} {original : List Int}
    (isHistory : editor.history = before ++ original :: behind)
    : editor.leaveEntry (before.length + 1)
      = .ok (before ++ EntryZipper.leave List.isEmpty editor.buffer ++ behind,
          !editor.buffer.isEmpty) := by
  rw [Editor.leaveEntry, isHistory, set_middle, remove_middle]
  cases editor.buffer with
  | nil =>
      have gone : EntryZipper.leave List.isEmpty ([] : List Int) = [] := rfl
      rw [gone, List.append_nil]
      rfl
  | cons code more =>
      have stays : EntryZipper.leave List.isEmpty (code :: more) = [code :: more] := rfl
      rw [stays, List.append_assoc]
      rfl

/-- `older_history` goes to the entry before. -/
theorem olderHistory_zipper (abstracts : Abstracts editor zipper)
    (codes : zipper.Forall (AllGood Encodable))
    : ∃ after, editor.olderHistory .ircc = .ok after
      ∧ Abstracts after (zipper.older List.isEmpty) := by
  cases abstracts with
  | typing noEntry noStash =>
      rw [Editor.olderHistory, noEntry]
      rcases List.eq_nil_or_concat editor.history with empty | ⟨rest, entry, isHistory⟩
      · refine ⟨editor, by rw [empty]; rfl, ?_⟩
        rw [EntryZipper.older, empty]
        have typing := Abstracts.typing noEntry noStash
        rw [empty] at typing
        exact typing
      · rw [List.concat_eq_append] at isHistory
        have isLast : LuaSequence.get editor.history editor.history.length = some entry := by
          rw [isHistory, List.length_append]
          exact get_middle rest entry []
        have isThere : (LuaSequence.get editor.history 1).isSome := by
          obtain ⟨first, isFirst⟩ := get_eq_some (t := editor.history) (Int.le_refl 1) (by
            rw [isHistory, List.length_append, List.length_singleton]
            omega)
          rw [isFirst]
          rfl
        have isEntry : AllGood Encodable entry :=
          codes.1 entry (by rw [isHistory]; exact List.mem_append_right _ List.mem_cons_self)
        obtain ⟨after, isOk, isBuffer, same⟩ := @moveToEnd_same
          { editor with
            buffer := entry, stash := some editor.buffer
            retrospect := some editor.history.length } isEntry
        refine ⟨after, ?_, ?_⟩
        · simp only [isThere, if_true]
          rw [isLast]
          exact isOk
        · rw [EntryZipper.older, isHistory, List.reverse_append]
          have viewing : Abstracts after (.viewing rest.reverse entry after.buffer []
              editor.buffer) :=
            .viewing (same.retrospect.trans (by simp [isHistory])) same.stash
              (same.history.trans (by rw [List.reverse_reverse]; exact isHistory))
          rw [isBuffer] at viewing
          exact viewing
  | viewing isEntry isStash isHistory =>
      rename_i before behind original line
      rw [Editor.olderHistory, isEntry]
      cases before with
      | nil =>
          refine ⟨editor, if_neg (by simp), ?_⟩
          exact .viewing isEntry isStash isHistory
      | cons entry rest =>
          obtain ⟨isBefore, -, -, -, -⟩ := codes
          have index : ((entry :: rest).length + 1 : Int) = (entry :: rest).reverse.length + 1 := by
            rw [List.length_reverse]
          have left := leaveEntry_eq isHistory
          have isThere : LuaSequence.get ((entry :: rest).reverse
                ++ EntryZipper.leave List.isEmpty editor.buffer ++ behind)
              ((entry :: rest).reverse.length + 1 - 1) = some entry := by
            have found := get_middle rest.reverse entry
              (EntryZipper.leave List.isEmpty editor.buffer ++ behind)
            simpa using found
          obtain ⟨after, isOk, isBuffer, same⟩ := @moveToEnd_same
            { editor with
              history := (entry :: rest).reverse
                ++ EntryZipper.leave List.isEmpty editor.buffer ++ behind
              buffer := entry
              retrospect := some ((entry :: rest).reverse.length + 1 - 1) }
            (isBefore entry List.mem_cons_self)
          refine ⟨after, ?_, ?_⟩
          · have several : (1 : Int) < (entry :: rest).reverse.length + 1 := by
              rw [List.length_reverse, List.length_cons]
              omega
            rw [index]
            simp only [if_pos several]
            rw [left]
            simp only [bind, Except.bind, isThere, orRaise]
            exact isOk
          · have viewing : Abstracts after (.viewing rest entry after.buffer
                (EntryZipper.leave List.isEmpty editor.buffer ++ behind) line) :=
              .viewing (same.retrospect.trans (by simp)) (same.stash.trans isStash)
                (same.history.trans (by simp))
            rw [isBuffer] at viewing
            exact viewing

/-- `newer_history` goes to the entry behind, and from the last one back to the line. -/
theorem newerHistory_zipper (abstracts : Abstracts editor zipper)
    (codes : zipper.Forall (AllGood Encodable))
    : ∃ after, editor.newerHistory .ircc = .ok after
      ∧ Abstracts after (zipper.newer List.isEmpty) := by
  cases abstracts with
  | typing noEntry noStash =>
      exact ⟨editor, by rw [Editor.newerHistory, noEntry]; rfl, .typing noEntry noStash⟩
  | viewing isEntry isStash isHistory =>
      rename_i before behind original line
      obtain ⟨-, -, -, isBehind, isLine⟩ := codes
      have left := leaveEntry_eq isHistory
      rw [List.length_reverse] at left
      have next : (if (!editor.buffer.isEmpty) = true then (before.length + 1 + 1 : Int)
            else before.length + 1)
          = (before.reverse ++ EntryZipper.leave List.isEmpty editor.buffer).length + 1 := by
        rw [List.length_append, List.length_reverse]
        cases editor.buffer <;> simp [EntryZipper.leave]
      rw [Editor.newerHistory, isEntry]
      simp only [left, bind, Except.bind]
      rw [next]
      cases behind with
      | nil =>
          obtain ⟨after, isOk, isBuffer, same⟩ := @moveToEnd_same
            { editor with
              history := before.reverse ++ EntryZipper.leave List.isEmpty editor.buffer
              buffer := line, stash := none, retrospect := none } isLine
          refine ⟨after, ?_, ?_⟩
          · rw [List.append_nil, get_behind, isStash]
            exact isOk
          · have typing := Abstracts.typing same.retrospect same.stash
            rw [same.history, isBuffer] at typing
            exact typing
      | cons entry rest =>
          obtain ⟨after, isOk, isBuffer, same⟩ := @moveToEnd_same
            { editor with
              history := before.reverse ++ EntryZipper.leave List.isEmpty editor.buffer
                ++ entry :: rest
              buffer := entry
              retrospect := some ((before.reverse
                ++ EntryZipper.leave List.isEmpty editor.buffer).length + 1) }
            (isBehind entry List.mem_cons_self)
          refine ⟨after, ?_, ?_⟩
          · rw [get_middle]
            exact isOk
          · have index : some ((before.reverse
                  ++ EntryZipper.leave List.isEmpty editor.buffer).length + 1 : Int)
                = some ((EntryZipper.leave List.isEmpty editor.buffer ++ before).length + 1
                  : Int) := by
              rw [List.length_append, List.length_append, List.length_reverse, Nat.add_comm]
            have viewing : Abstracts after (.viewing
                (EntryZipper.leave List.isEmpty editor.buffer ++ before) entry after.buffer rest
                line) :=
              .viewing (same.retrospect.trans index) (same.stash.trans isStash)
                (same.history.trans (by simp))
            rw [isBuffer] at viewing
            exact viewing

/-- `reset` leaves the history alone. -/
theorem reset_zipper (abstracts : Abstracts editor zipper)
    : ∃ after, editor.reset .ircc = .ok after ∧ Abstracts after (zipper.discard []) := by
  obtain ⟨after, isOk, moved⟩ := @move_moved [] [] 1
    { editor with buffer := [], retrospect := none, stash := none } .edit rfl rfl nofun
  have same := @sameHistory_move
    { editor with buffer := [], retrospect := none, stash := none } _ 1 .edit (SameHistory.refl _)
  have isMoved : Editor.move .ircc
      { editor with buffer := [], retrospect := none, stash := none } 1 .edit = .ok after := isOk
  rw [isMoved] at same
  have typing := Abstracts.typing same.retrospect same.stash
  rw [same.history, moved.buffer] at typing
  rw [EntryZipper.discard, abstracts.parts.2]
  exact ⟨after, isOk, typing⟩

/-- `confirm` puts the line behind the history, unless it counts as equal to the last entry. -/
theorem confirm_zipper (lib : Tablex) (abstracts : Abstracts editor zipper)
    : ∃ after, editor.confirm .ircc lib = .ok after
      ∧ Abstracts after (zipper.enter lib.compareNoOrder []) := by
  obtain ⟨isCurrent, areEntries⟩ := abstracts.parts
  rw [Editor.confirm, EntryZipper.enter, isCurrent, areEntries]
  split
  · exact reset_zipper abstracts
  · rw [set_behind]
    have entered : Abstracts
        { editor with
          history := editor.history ++ [editor.buffer], retrospect := none, stash := none }
        (.typing (editor.history ++ [editor.buffer]) editor.buffer) :=
      .typing rfl rfl
    exact reset_zipper entered

-----------------------------------------------------------------------------------------
-- Every operation
-----------------------------------------------------------------------------------------

/-- An editor that shows its text, and a zipper that it stands for, with texts that can be shown. -/
structure Zips (editor : Editor) (zipper : EntryZipper (List Int)) : Prop
    extends Shown .ircc editor where
  abstracts : Abstracts editor zipper
  codes : zipper.Forall (AllGood Encodable)

/-- A text that is shown can be. -/
theorem encodable_of_shown (shown : Shown .ircc editor) : AllGood Encodable editor.buffer := by
  obtain ⟨front, back, isText⟩ := shown.textAt
  rw [isText.buffer]
  exact isText.codes

/-- What an operation does to the zipper brings in no other texts. -/
theorem forall_follow {p : List Int → Prop} (all : zipper.Forall p) (empty : p [])
    {text : List Int} (isText : p text)
    : (follow lib zipper text operation).Forall p := by
  cases operation with
  | olderHistory => exact all.older
  | newerHistory => exact all.newer
  | confirm => exact all.enter lib.compareNoOrder empty
  | reset => exact all.discard empty
  | _ => exact all.edit isText

/-- An operation that edits does no more to the zipper. -/
theorem follow_edits (edits : operation.Edits) (text : List Int)
    : follow lib zipper text operation = zipper.edit text := by
  obtain ⟨⟨notOlder, notNewer⟩, notConfirm, notReset⟩ := edits
  cases operation with
  | olderHistory => exact (notOlder rfl).elim
  | newerHistory => exact (notNewer rfl).elim
  | confirm => exact (notConfirm rfl).elim
  | reset => exact (notReset rfl).elim
  | _ => rfl

/-- Every operation does to the editor what it does to the zipper. By cases on the operation. -/
theorem zips_step (isalnum : Int → Bool) (documented : lib.Documented)
    (zips : Zips editor zipper) (operation : Operation)
    : ∃ after, step .ircc lib isalnum editor operation = some after
      ∧ Zips after (follow lib zipper after.buffer operation) := by
  obtain ⟨after, moves, shown⟩ := shown_step isalnum documented zips.toShown operation
  refine ⟨after, moves, shown, ?_, forall_follow zips.codes nofun (encodable_of_shown shown)⟩
  have given {target : EntryZipper (List Int)}
      (performs : ∃ result, perform .ircc lib isalnum editor operation = .ok result
        ∧ Abstracts result target)
      : Abstracts after target := by
    obtain ⟨result, isOk, abstracts⟩ := performs
    rw [step, isOk] at moves
    obtain rfl := Option.some.inj moves
    exact abstracts
  by_cases edits : operation.Edits
  · rw [follow_edits edits]
    exact zips.abstracts.edited
      (yields_step (SameHistory.refl editor) (sameHistory_perform edits) moves)
  · cases operation with
    | olderHistory => exact given (olderHistory_zipper zips.abstracts zips.codes)
    | newerHistory => exact given (newerHistory_zipper zips.abstracts zips.codes)
    | confirm => exact given (confirm_zipper lib zips.abstracts)
    | reset => exact given (reset_zipper zips.abstracts)
    | _ =>
        refine (edits ⟨⟨?_, ?_⟩, ?_, ?_⟩).elim <;>
          rintro ⟨⟩

end Zipping

end Snowcone.Editing
