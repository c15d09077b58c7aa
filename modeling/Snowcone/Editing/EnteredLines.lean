import Snowcone.Foundations.Destutter
import Snowcone.Editing.EditorText

/-! The lines entered into the client's editor, and what becomes of them in its history. -/

namespace Snowcone.Editing

open LuaSequence

/-- The documented behaviour of `tablex.compare_no_order`: sequences with the same elements, in
whatever order, are equal.
-/
def Tablex.ComparesElements (lib : Tablex) : Prop :=
  ∀ t u, lib.compareNoOrder t u = true ↔ t.Perm u

/-- An operation that does not go through the history. -/
def Operation.StaysOut (operation : Operation) : Prop :=
  operation ≠ .olderHistory ∧ operation ≠ .newerHistory

/-- An operation that changes no more than the text, the cursor and what was cut out. -/
def Operation.Edits (operation : Operation) : Prop :=
  operation.StaysOut ∧ operation ≠ .confirm ∧ operation ≠ .reset

/-- The line that an operation enters, if it is `confirm`. -/
def enters (editor : Editor) : Operation → List (List Int)
  | .confirm => [editor.buffer]
  | _ => []

/-- The lines that are entered in a run. -/
def entered (lib : Tablex) (isalnum : Int → Bool) : Editor → List Operation → List (List Int)
  | _, [] => []
  | editor, operation :: operations =>
      enters editor operation
        ++ match step .ircc lib isalnum editor operation with
          | some next => entered lib isalnum next operations
          | none => []

-----------------------------------------------------------------------------------------
-- What editing leaves alone
-----------------------------------------------------------------------------------------

/-- The history and the place in it are the same. -/
structure SameHistory (editor after : Editor) : Prop where
  history : after.history = editor.history
  retrospect : after.retrospect = editor.retrospect
  stash : after.stash = editor.stash

section Frames

variable {lib : Tablex} {isalnum : Int → Bool} {editor edited : Editor}

/-- Nothing is changed by no operation. -/
theorem SameHistory.refl (editor : Editor) : SameHistory editor editor := ⟨rfl, rfl, rfl⟩

/-- `move` keeps the history. -/
theorem sameHistory_move {x : Int} {state : EditState} (same : SameHistory editor edited)
    : Yields (SameHistory editor) (edited.move .ircc x state) :=
  yields_render fun _ _ => ⟨same.history, same.retrospect, same.stash⟩

/-- The loop of `hexinput` keeps the history, by induction on how often it may turn. -/
theorem sameHistory_hexLoop (last : Int) (most : Nat) (first : Int)
    : Yields (SameHistory editor) (editor.hexLoop .ircc lib last most first) := by
  induction most generalizing first with
  | zero => exact SameHistory.refl _
  | succ most ih =>
      rw [Editor.hexLoop]
      split
      · split
        · refine yields_orRaise fun acc _ => ?_
          split
          · exact SameHistory.refl _
          · exact yields_orHole fun _ _ => sameHistory_move ⟨rfl, rfl, rfl⟩
        · split
          · exact ih (first - 1)
          · exact SameHistory.refl _
      · exact SameHistory.refl _

/-- `hexinput` keeps the history, in both of its forms. -/
theorem sameHistory_hexinput : Yields (SameHistory editor) (editor.hexinput .ircc lib) := by
  rw [Editor.hexinput]
  split
  · refine yields_orRaise fun c _ => ?_
    split
    · exact yields_orHole fun _ _ => yields_orRaise fun _ _ => sameHistory_move ⟨rfl, rfl, rfl⟩
    · exact sameHistory_hexLoop _ _ _
  · exact sameHistory_hexLoop _ _ _

/-- What is put in front of the yank is no matter of the history. -/
theorem sameHistory_addYankLeft (lo hi : Int)
    : SameHistory editor (editor.addYankLeft lib lo hi) := by
  rw [Editor.addYankLeft]
  split <;> exact ⟨rfl, rfl, rfl⟩

/-- A completion keeps the history. -/
theorem sameHistory_complete (tablist : List (List Int)) (tabix : Option Int) (i : Int)
    : Yields (SameHistory editor) (editor.complete .ircc lib tablist tabix i) :=
  yields_orRaise fun _ _ => sameHistory_move ⟨rfl, rfl, rfl⟩

/-- `tab` keeps the history, whether it begins or goes on. -/
theorem sameHistory_tab (dir : Int)
    (mklist : Bytes → Bytes → Option (Option Int × Option (List Bytes)))
    : Yields (SameHistory editor) (editor.tab .ircc lib dir mklist) := by
  rw [Editor.tab]
  split
  · refine yields_orRaise fun tabix _ => yields_orRaise fun tablist _ => ?_
    split
    · trivial
    · exact yields_orRaise fun _ _ => sameHistory_complete _ _ _
  · refine yields_orRaise fun i _ => yields_orRaise fun _ _ => yields_orRaise fun _ _ =>
      yields_orRaise fun made _ => ?_
    obtain ⟨tabix, _ | texts⟩ := made
    · exact ⟨rfl, rfl, rfl⟩
    · exact yields_orRaise fun _ _ => sameHistory_complete _ _ _

/-- Editing keeps the history and the place in it. By cases on the operation. -/
theorem sameHistory_perform {operation : Operation} (edits : operation.Edits)
    : Yields (SameHistory editor) (perform .ircc lib isalnum editor operation) := by
  cases operation with
  | add code => exact yields_orRaise fun _ _ => sameHistory_move ⟨rfl, rfl, rfl⟩
  | backspace =>
      rw [perform, Editor.backspace]
      split
      · exact yields_orRaise fun _ _ => sameHistory_move ⟨rfl, rfl, rfl⟩
      · exact SameHistory.refl _
  | delete => exact yields_orRaise fun _ _ => yields_render fun _ _ => ⟨rfl, rfl, rfl⟩
  | moveToBeg => exact sameHistory_move (.refl _)
  | moveToEnd => exact sameHistory_move (.refl _)
  | moveLeft =>
      rw [perform, Editor.moveLeft]
      split
      · exact sameHistory_move (.refl _)
      · exact SameHistory.refl _
  | moveRight =>
      rw [perform, Editor.moveRight]
      split
      · exact sameHistory_move (.refl _)
      · exact SameHistory.refl _
  | moveNextWord => exact yields_orRaise fun _ _ => sameHistory_move (.refl _)
  | movePrevWord => exact yields_orRaise fun _ _ => sameHistory_move (.refl _)
  | swap =>
      rw [perform, Editor.swap]
      split
      · exact yields_orHole fun _ _ => yields_orHole fun _ _ => yields_orHole fun _ _ =>
          yields_orHole fun _ _ => sameHistory_move ⟨rfl, rfl, rfl⟩
      · exact SameHistory.refl _
  | hexinput => exact sameHistory_hexinput
  | killToBeg =>
      have same : SameHistory editor (editor.addYankLeft lib 1 (editor.cursor - 1)) :=
        sameHistory_addYankLeft _ _
      exact sameHistory_move ⟨same.history, same.retrospect, same.stash⟩
  | killToEnd =>
      rw [perform, Editor.killToEnd]
      split
      · cases unpack editor.buffer editor.cursor editor.buffer.length with
        | none => trivial
        | some moved => exact yields_render fun _ _ => ⟨rfl, rfl, rfl⟩
      · exact yields_render fun _ _ => ⟨rfl, rfl, rfl⟩
  | killPrevWord =>
      refine yields_orRaise fun i _ => ?_
      have same : SameHistory editor (editor.addYankLeft lib i (editor.cursor - 1)) :=
        sameHistory_addYankLeft _ _
      exact sameHistory_move ⟨same.history, same.retrospect, same.stash⟩
  | killNextWord => exact yields_orRaise fun _ _ => sameHistory_move ⟨rfl, rfl, rfl⟩
  | paste => exact sameHistory_move ⟨rfl, rfl, rfl⟩
  | tab dir mklist => exact sameHistory_tab dir mklist
  | olderHistory => exact (edits.1.1 rfl).elim
  | newerHistory => exact (edits.1.2 rfl).elim
  | confirm => exact (edits.2.1 rfl).elim
  | reset => exact (edits.2.2 rfl).elim
  | overflow => trivial

end Frames

-----------------------------------------------------------------------------------------
-- What is entered
-----------------------------------------------------------------------------------------

section Entering

variable {lib : Tablex} {isalnum : Int → Bool} {editor after : Editor}
  {operation : Operation} {operations : List Operation}

/-- Lines that differ for `confirm`. -/
def Tablex.Differ (lib : Tablex) (line next : List Int) : Prop :=
  ¬lib.compareNoOrder line next = true

instance (lib : Tablex) : DecidableRel lib.Differ :=
  fun _ _ => inferInstanceAs (Decidable (¬_))

/-- `reset` keeps the history. -/
theorem reset_history (editor : Editor)
    : ∃ after, editor.reset .ircc = .ok after ∧ after.history = editor.history := by
  obtain ⟨after, isOk, moved⟩ := @move_moved [] [] 1
    { editor with buffer := [], retrospect := none, stash := none } .edit rfl rfl nofun
  exact ⟨after, isOk, moved.history⟩

/-- `confirm` puts the line behind the history unless it counts as equal to the last entry. -/
theorem confirm_history (lib : Tablex) (editor : Editor)
    : ∃ after, editor.confirm .ircc lib = .ok after
      ∧ after.history = if editor.history.getLast?.any (lib.compareNoOrder · editor.buffer)
          then editor.history else editor.history ++ [editor.buffer] := by
  rw [Editor.confirm]
  split
  · exact reset_history editor
  · have isSet : LuaSequence.set editor.history (editor.history.length + 1) editor.buffer
        = some (editor.history ++ [editor.buffer]) := by
      rw [LuaSequence.set, if_neg (by omega), if_pos rfl]
    rw [isSet]
    exact reset_history { editor with history := editor.history ++ [editor.buffer] }

/-- Without going through the history, a step other than `confirm` keeps it. -/
theorem step_history (staysOut : operation.StaysOut) (notConfirm : operation ≠ .confirm)
    (moves : step .ircc lib isalnum editor operation = some after)
    : after.history = editor.history := by
  by_cases isReset : operation = .reset
  · obtain ⟨after', isOk, isHistory⟩ := reset_history editor
    have moves' : step .ircc lib isalnum editor operation = some after' := by
      rw [step, isReset, perform, isOk]
    obtain rfl := Option.some.inj (moves.symm.trans moves')
    exact isHistory
  · exact (yields_step (SameHistory.refl editor)
      (sameHistory_perform ⟨staysOut, notConfirm, isReset⟩) moves).history

/-- The history is the lines entered, without those that repeat the one before for `confirm`. By
induction on the run.
-/
theorem history_run {lines : List (List Int)}
    (staysOut : ∀ operation ∈ operations, operation.StaysOut)
    (isHistory : editor.history = lines.destutter lib.Differ)
    (runs : Runs.run (step .ircc lib isalnum) editor operations = some after)
    : after.history = (lines ++ entered lib isalnum editor operations).destutter lib.Differ := by
  induction operations generalizing editor lines with
  | nil =>
      obtain rfl := Option.some.inj runs
      rw [entered, List.append_nil, isHistory]
  | cons operation operations ih =>
      obtain ⟨staysHere, staysLater⟩ := List.forall_mem_cons.mp staysOut
      obtain ⟨next, moves, later⟩ := Option.bind_eq_some_iff.mp runs
      have lines' : entered lib isalnum editor (operation :: operations)
          = enters editor operation ++ entered lib isalnum next operations := by
        simp only [entered, moves]
      rw [lines', ← List.append_assoc]
      refine ih staysLater ?_ later
      by_cases isConfirm : operation = .confirm
      · subst isConfirm
        obtain ⟨next', isOk, nextHistory⟩ := confirm_history lib editor
        have moves' : step .ircc lib isalnum editor .confirm = some next' := by
          rw [step, perform, isOk]
        obtain rfl := Option.some.inj (moves.symm.trans moves')
        rw [nextHistory, enters, Destutter.destutter_concat, isHistory]
        simp [Tablex.Differ]
      · have noLine : enters editor operation = [] := by
          cases operation with
          | confirm => exact (isConfirm rfl).elim
          | _ => rfl
        rw [noLine, List.append_nil, step_history staysHere isConfirm moves, isHistory]

end Entering

-----------------------------------------------------------------------------------------
-- Repeated lines
-----------------------------------------------------------------------------------------

/-- What should become of the lines entered in a run without going through the history: the run
goes on to its end, and the history is the lines with each run of equal ones collapsed to one.
-/
def KeepsLines (lib : Tablex) (isalnum : Int → Bool) (operations : List Operation) : Prop :=
  ∃ editor, Runs.run (step .ircc lib isalnum) initial operations = some editor
    ∧ editor.history = (entered lib isalnum initial operations).destutter (· ≠ ·)

/-- The history is the lines entered with each run of equal lines collapsed to one, if and only
if no line has exactly the characters of the line before it in another order.
-/
theorem keepsLines_iff (lib : Tablex) (isalnum : Int → Bool) (documented : lib.Documented)
    (compares : lib.ComparesElements) (operations : List Operation)
    (staysOut : ∀ operation ∈ operations, operation.StaysOut)
    : KeepsLines lib isalnum operations
      ↔ (entered lib isalnum initial operations).IsChain
          (fun line next => line.Perm next → line = next) := by
  obtain ⟨editor, runs, -⟩ := editor_shown .ircc lib isalnum documented operations
  have isHistory : editor.history
      = (entered lib isalnum initial operations).destutter lib.Differ :=
    @history_run _ _ _ _ _ [] staysOut rfl runs
  have repeats (line next : List Int) : lib.Differᶜ line next ↔ line.Perm next :=
    not_not.trans (compares line next)
  have : IsEquiv (List Int) (lib.Differᶜ) := {
    refl := fun line => (repeats _ _).mpr (.refl line)
    symm := fun _ _ same => (repeats _ _).mpr ((repeats _ _).mp same).symm
    trans := fun _ _ _ same next => (repeats _ _).mpr
      (((repeats _ _).mp same).trans ((repeats _ _).mp next)) }
  have : IsEquiv (List Int) ((fun line next : List Int => line ≠ next)ᶜ) := {
    refl := fun _ differ => differ rfl
    symm := fun _ _ same differ => same differ.symm
    trans := fun _ _ _ same next differ =>
      differ ((not_not.mp same).trans (not_not.mp next)) }
  have coarser : ∀ line next, lib.Differ line next → line ≠ next := by
    rintro line _ differ rfl
    exact differ ((compares line line).mpr (.refl line))
  have collapses : KeepsLines lib isalnum operations
      ↔ (entered lib isalnum initial operations).destutter lib.Differ
        = (entered lib isalnum initial operations).destutter (· ≠ ·) := by
    rw [← isHistory]
    constructor
    · rintro ⟨editor', runs', isHistory'⟩
      obtain rfl := Option.some.inj (runs.symm.trans runs')
      exact isHistory'
    · exact fun same => ⟨editor, runs, same⟩
  rw [collapses, Destutter.destutter_eq_iff coarser]
  refine iff_of_eq (congrArg (List.IsChain · _) ?_)
  funext line next
  rw [not_not]
  exact propext (imp_congr (repeats line next) Iff.rfl)

/-- The comparison as it is documented. -/
theorem penlight_comparesElements : penlight.ComparesElements :=
  fun _ _ => List.isPerm_iff

/-- Witness: the same line is entered twice. -/
theorem keepsLines_iff_witness
    : penlight.Documented ∧ penlight.ComparesElements
      ∧ (KeepsLines penlight (fun _ => true) [.add 97, .confirm, .add 97, .confirm]
        ↔ (entered penlight (fun _ => true) initial [.add 97, .confirm, .add 97, .confirm]).IsChain
            (fun line next => line.Perm next → line = next)) := by
  refine ⟨penlight_documented, penlight_comparesElements,
    keepsLines_iff penlight _ penlight_documented penlight_comparesElements _ ?_⟩
  intro operation member
  simp only [List.mem_cons, List.not_mem_nil, or_false] at member
  rcases member with rfl | rfl | rfl | rfl <;> exact ⟨nofun, nofun⟩

/-- Of two lines with the same characters in another order, the second is not kept. -/
theorem keepsLines_counterexample
    : (Runs.run (step .ircc penlight (fun _ => true)) initial
        [.add 97, .add 98, .confirm, .add 98, .add 97, .confirm]).map Editor.history
        = some [[97, 98]]
      ∧ ¬KeepsLines penlight (fun _ => true)
        [.add 97, .add 98, .confirm, .add 98, .add 97, .confirm] := by
  have history : (Runs.run (step .ircc penlight (fun _ => true)) initial
      [.add 97, .add 98, .confirm, .add 98, .add 97, .confirm]).map Editor.history
        = some [[97, 98]] := by
    decide +kernel
  have lines : entered penlight (fun _ => true) initial
      [.add 97, .add 98, .confirm, .add 98, .add 97, .confirm] = [[97, 98], [98, 97]] := by
    decide +kernel
  refine ⟨history, ?_⟩
  rintro ⟨editor, runs, isHistory⟩
  rw [runs, Option.map_some, isHistory, lines] at history
  exact absurd history (by decide)

end Snowcone.Editing
