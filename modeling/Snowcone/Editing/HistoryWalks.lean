import Snowcone.Editing.SharedBuffers

/-! Going through the history while entries and the line are edited: what becomes of the entries,
and that the line comes back.
-/

namespace Snowcone.Editing

variable {lib : Tablex} {start : SharedEditor} {zipper : EntryZipper (List Int)}
  {operation : Operation} {operations : List Operation} {text : List Int}

/-- An operation that goes through the history. -/
def Operation.Walks (operation : Operation) : Prop :=
  operation = .olderHistory ∨ operation = .newerHistory

/-- While no entry is viewed, the zipper is that of the history and the line. -/
theorem Abstracts.typed {editor : SharedEditor} (abstracts : Abstracts editor.read zipper)
    (isTyping : editor.retrospect = none)
    : zipper = .typing editor.read.history editor.read.buffer := by
  cases abstracts with
  | typing noEntry noStash => rfl
  | viewing isEntry isStash isHistory =>
      have isViewed : editor.retrospect = _ := isEntry
      rw [isTyping] at isViewed
      cases isViewed

/-- However one goes through the history: once the line is back it is as it was, and the history
is as it was but for the entry that was being viewed, which is replaced by its text or gone.
-/
theorem walk_settles (isalnum : Int → Bool) (documented : lib.Documented)
    (separate : start.Separate) (zips : Zips start.read zipper) (kept : zipper.Kept List.isEmpty)
    (walks : ∀ operation ∈ operations, operation.Walks)
    : ∃ after, Runs.run (SharedEditor.step lib isalnum) start operations = some after
      ∧ (after.retrospect = none
        → after.read.history = zipper.settled List.isEmpty ∧ after.read.buffer = zipper.line) := by
  induction operations generalizing start zipper with
  | nil =>
      refine ⟨start, rfl, fun isTyping => ?_⟩
      rw [zips.abstracts.typed isTyping]
      exact ⟨rfl, rfl⟩
  | cons operation operations ih =>
      obtain ⟨here, later⟩ := List.forall_mem_cons.mp walks
      obtain ⟨middle, moves, isSeparate, isZipper⟩ :=
        reachable_step isalnum documented separate zips operation
      have keeps : (follow lib zipper middle.read.buffer operation).Kept List.isEmpty
          ∧ (follow lib zipper middle.read.buffer operation).settled List.isEmpty
            = zipper.settled List.isEmpty
          ∧ (follow lib zipper middle.read.buffer operation).line = zipper.line := by
        rcases here with rfl | rfl
        · exact EntryZipper.older_keeps kept
        · exact EntryZipper.newer_keeps kept
      obtain ⟨isKept, isSettled, isLine⟩ := keeps
      obtain ⟨after, runs, ends⟩ := ih isSeparate isZipper isKept later
      rw [isSettled, isLine] at ends
      exact ⟨after, by rw [Runs.run, moves]; exact runs, ends⟩

/-- The second of two entries is viewed, and was changed to the one character `c`. -/
def changed : SharedEditor where
  tables := { contents := fun ref => if ref = 0 then [99] else [97], next := 4 }
  buffer := 0
  history := [1, 2]
  cursor := 2
  first := 1
  retrospect := some 2
  stash := some 3
  yank := []
  state := .edit
  tablist := none
  tabix := none
  beforeCursor := [99]
  atCursor := []

/-- Witness: the changed entry is left and come back to, before it is left for the line. -/
theorem walk_settles_witness
    : ∃ after, Runs.run (SharedEditor.step penlight (fun _ => true)) changed
        [.olderHistory, .newerHistory, .newerHistory] = some after
      ∧ (after.retrospect = none
        → after.read.history = [[97], [99]] ∧ after.read.buffer = [97]) := by
  have separate : changed.Separate := ⟨by decide, by decide⟩
  have shown : Shown .ircc changed.read := {
    firstLow := by decide, retrospect := by rintro r ⟨⟩; decide
    low := by decide, high := by decide, firstHigh := by rintro ⟨⟩
    completed := by rintro ⟨⟩, before := rfl, here := rfl }
  have zips : Zips changed.read (.viewing [[97]] [97] [99] [] [97]) := by
    refine ⟨shown, .viewing rfl rfl rfl, ?_⟩
    simp [EntryZipper.Forall, AllGood, Encodable]
  refine walk_settles (fun _ => true) penlight_documented separate zips ?_ ?_
  · simp [EntryZipper.Kept]
  · intro operation member
    simp only [List.mem_cons, List.not_mem_nil, or_false] at member
    rcases member with rfl | rfl | rfl
    · exact .inl rfl
    · exact .inr rfl
    · exact .inr rfl

-----------------------------------------------------------------------------------------
-- Editing on the way
-----------------------------------------------------------------------------------------

/-- An operation that goes through the history or edits what is there: nothing is entered, and
nothing discarded.
-/
def Operation.Stays (operation : Operation) : Prop :=
  operation ≠ .confirm ∧ operation ≠ .reset

/-- What is viewed can be made empty, but nothing else. -/
theorem follow_kept (kept : zipper.Kept List.isEmpty) (stays : operation.Stays)
    : (follow lib zipper text operation).Kept List.isEmpty := by
  cases operation with
  | olderHistory => exact (EntryZipper.older_keeps kept).1
  | newerHistory => exact (EntryZipper.newer_keeps kept).1
  | confirm => exact absurd rfl stays.1
  | reset => exact absurd rfl stays.2
  | _ => cases zipper <;> exact kept

/-- The line is only edited while it is typed. -/
theorem follow_line (kept : zipper.Kept List.isEmpty) (stays : operation.Stays)
    (viewing : ¬ operation.Walks → ∀ entries line, zipper ≠ .typing entries line)
    : (follow lib zipper text operation).line = zipper.line := by
  cases operation with
  | olderHistory => exact (EntryZipper.older_keeps kept).2.2
  | newerHistory => exact (EntryZipper.newer_keeps kept).2.2
  | confirm => exact absurd rfl stays.1
  | reset => exact absurd rfl stays.2
  | _ =>
      cases zipper with
      | viewing => rfl
      | typing entries line =>
          refine absurd rfl (viewing (fun walks => ?_) entries line)
          cases walks with
          | inl isOlder => cases isOlder
          | inr isNewer => cases isNewer

/-- A step that does to the history what it does to a zipper none of whose other entries is empty:
an entry that is left is replaced by its text or gone, and what is viewed is an entry. No table is
held twice.
-/
structure Zipped (lib : Tablex) (before : SharedEditor) (operation : Operation)
    (after : SharedEditor)
    : Prop where
  followed : ∃ zipper, Abstracts before.read zipper ∧ zipper.Kept List.isEmpty
    ∧ Abstracts after.read (follow lib zipper after.read.buffer operation)
  inHistory : ∀ r ∈ after.retrospect, 1 ≤ r ∧ r ≤ after.history.length
  separate : after.Separate

/-- What is viewed is an entry of the history. -/
theorem Abstracts.inHistory {editor : SharedEditor} (abstracts : Abstracts editor.read zipper)
    : ∀ r ∈ editor.retrospect, 1 ≤ r ∧ r ≤ editor.history.length := by
  intro r isViewed
  have sameLength : editor.read.history.length = editor.history.length := List.length_map _
  cases abstracts with
  | typing noEntry noStash =>
      have nothing : editor.retrospect = none := noEntry
      rw [nothing] at isViewed
      cases isViewed
  | @viewing older newer _ _ isEntry _ isHistory =>
      have isIndex : editor.retrospect = some (older.length + 1 : Int) := isEntry
      rw [isIndex] at isViewed
      obtain rfl := Option.some.inj isViewed
      rw [← sameLength, isHistory, List.length_append, List.length_reverse, List.length_cons]
      omega

/-- The line comes back as it was, if it is not edited itself. By induction on the run. -/
theorem line_returns (isalnum : Int → Bool) (documented : lib.Documented)
    (separate : start.Separate) (zips : Zips start.read zipper) (kept : zipper.Kept List.isEmpty)
    (stays : ∀ operation ∈ operations, operation.Stays) {after : SharedEditor}
    (runs : Runs.run (SharedEditor.step lib isalnum) start operations = some after)
    (untouched : Runs.Along (SharedEditor.step lib isalnum)
      (fun before operation _ => before.retrospect = none → operation.Walks) start operations)
    (isTyping : after.retrospect = none)
    : after.read.buffer = zipper.line := by
  induction operations generalizing start zipper with
  | nil =>
      obtain rfl := Option.some.inj runs
      rw [zips.abstracts.typed isTyping]
      rfl
  | cons operation operations ih =>
      obtain ⟨here, later⟩ := List.forall_mem_cons.mp stays
      obtain ⟨middle, moves, isSeparate, isZipper⟩ :=
        reachable_step isalnum documented separate zips operation
      rw [Runs.run, moves] at runs
      obtain ⟨walks, quiet⟩ := (Runs.along_cons moves).mp untouched
      have sameLine : (follow lib zipper middle.read.buffer operation).line = zipper.line := by
        apply follow_line kept here
        intro edits entries line isTyping
        subst isTyping
        cases zips.abstracts with
        | typing noEntry noStash => exact edits (walks noEntry)
      exact (ih isSeparate isZipper (follow_kept kept here) later runs quiet).trans sameLine

/-- What holds before every step on the way. -/
def OnTheWay (editor : SharedEditor) : Prop :=
  editor.Separate ∧ ∃ zipper, Zips editor.read zipper ∧ zipper.Kept List.isEmpty

/-- Every step is one of the zipper, by induction on the run. -/
theorem walk_zips (isalnum : Int → Bool) (documented : lib.Documented) (onTheWay : OnTheWay start)
    (stays : ∀ operation ∈ operations, operation.Stays)
    : (∃ after, Runs.run (SharedEditor.step lib isalnum) start operations = some after
        ∧ OnTheWay after)
      ∧ Runs.Along (SharedEditor.step lib isalnum) (Zipped lib) start operations := by
  induction operations generalizing start with
  | nil => exact ⟨⟨start, rfl, onTheWay⟩, trivial⟩
  | cons operation operations ih =>
      obtain ⟨here, later⟩ := List.forall_mem_cons.mp stays
      obtain ⟨separate, zipper, zips, kept⟩ := onTheWay
      obtain ⟨middle, moves, isSeparate, isZipper⟩ :=
        reachable_step isalnum documented separate zips operation
      have zipped : Zipped lib start operation middle := {
        followed := ⟨zipper, zips.abstracts, kept, isZipper.abstracts⟩
        inHistory := isZipper.abstracts.inHistory
        separate := isSeparate
      }
      obtain ⟨⟨after, runs, ends⟩, along⟩ := ih ⟨isSeparate, _, isZipper, follow_kept kept here⟩
        later
      refine ⟨⟨after, ?_, ends⟩, (Runs.along_cons moves).mpr ⟨zipped, along⟩⟩
      rw [Runs.run, moves]
      exact runs

/-- However one goes through a history of lines that are not empty, and edits the line and the
entries that are viewed: the history is a zipper, whose entries are replaced or go when they are
left, and the line comes back as it was typed. Witness: the zipper, step by step.
-/
theorem history_is_zipper (isalnum : Int → Bool) (documented : lib.Documented)
    (separate : start.Separate) {history : List (List Int)} {line : List Int}
    (zips : Zips start.read (.typing history line)) (nonempty : ∀ entry ∈ history, entry ≠ [])
    (stays : ∀ operation ∈ operations, operation.Stays)
    : (∃ after, Runs.run (SharedEditor.step lib isalnum) start operations = some after)
      ∧ Runs.Along (SharedEditor.step lib isalnum) (Zipped lib) start operations
      ∧ ∀ earlier walk before after, operations = earlier ++ walk
        → Runs.run (SharedEditor.step lib isalnum) start earlier = some before
        → Runs.run (SharedEditor.step lib isalnum) before walk = some after
        → before.retrospect = none → after.retrospect = none
        → Runs.Along (SharedEditor.step lib isalnum)
          (fun before operation _ => before.retrospect = none → operation.Walks) before walk
        → after.read.buffer = before.read.buffer := by
  have onTheWay : OnTheWay start := by
    refine ⟨separate, _, zips, ?_⟩
    intro entry member isBlank
    exact nonempty entry member (List.isEmpty_iff.mp isBlank)
  obtain ⟨⟨last, runs, -⟩, along⟩ := walk_zips isalnum documented onTheWay stays
  refine ⟨⟨last, runs⟩, along, ?_⟩
  intro earlier walk before after whole reaches walks isTyping comesBack untouched
  subst whole
  obtain ⟨earlierStay, walkStays⟩ := List.forall_mem_append.mp stays
  obtain ⟨⟨before', reaches', separate', zipper, zips', kept⟩, -⟩ :=
    walk_zips isalnum documented onTheWay earlierStay
  obtain rfl := Option.some.inj (reaches.symm.trans reaches')
  have isLine := line_returns isalnum documented separate' zips' kept walkStays walks untouched
    comesBack
  rwa [zips'.abstracts.typed isTyping] at isLine

/-- An editor in which a line is typed, with two entries in its history. -/
def typing : SharedEditor where
  tables := { contents := fun ref => if ref = 0 then [120] else [97, 98], next := 3 }
  buffer := 0
  history := [1, 2]
  cursor := 2
  first := 1
  retrospect := none
  stash := none
  yank := []
  state := .edit
  tablist := none
  tabix := none
  beforeCursor := [120]
  atCursor := []

/-- Witness: the last entry is made empty, and goes; the one before it is changed; the line is
there again behind them.
-/
theorem history_is_zipper_witness
    : penlight.Documented
      ∧ (∃ after, Runs.run (SharedEditor.step penlight (fun _ => true)) typing
          [.olderHistory, .killToBeg, .olderHistory, .add 99, .newerHistory] = some after)
      ∧ Runs.Along (SharedEditor.step penlight (fun _ => true)) (Zipped penlight) typing
        [.olderHistory, .killToBeg, .olderHistory, .add 99, .newerHistory]
      ∧ ∃ after, Runs.run (SharedEditor.step penlight (fun _ => true)) typing
          [.olderHistory, .killToBeg, .olderHistory, .add 99, .newerHistory] = some after
        ∧ after.read.history = [[97, 98, 99]] ∧ after.read.buffer = [120] := by
  have separate : typing.Separate := ⟨by decide, by decide⟩
  have shown : Shown .ircc typing.read := {
    firstLow := by decide, retrospect := by rintro r ⟨⟩
    low := by decide, high := by decide, firstHigh := by rintro ⟨⟩
    completed := by rintro ⟨⟩, before := rfl, here := rfl }
  have zips : Zips typing.read (.typing [[97, 98], [97, 98]] [120]) := by
    refine ⟨shown, .typing rfl rfl, ?_⟩
    simp [EntryZipper.Forall, AllGood, Encodable]
  have stays : ∀ operation ∈ [Operation.olderHistory, .killToBeg, .olderHistory, .add 99,
      .newerHistory], operation.Stays := by
    intro operation member
    simp only [List.mem_cons, List.not_mem_nil, or_false] at member
    rcases member with rfl | rfl | rfl | rfl | rfl
    all_goals exact ⟨by simp, by simp⟩
  obtain ⟨reaches, along, -⟩ := history_is_zipper (fun _ => true) penlight_documented separate zips
    (by decide) stays
  exact ⟨penlight_documented, reaches, along, _, rfl, by decide, by decide⟩

end Snowcone.Editing
