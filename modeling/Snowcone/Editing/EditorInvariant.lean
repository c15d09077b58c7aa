import Snowcone.Editing.Editor
import Snowcone.Foundations.Runs

/-! The cursor of an editor stays inside of its buffer, and what is shown is the text around the
cursor.
-/

namespace Snowcone.Editing

open LuaSequence

/-- What is documented about the functions of `tablex` that editors use. -/
structure Tablex.Documented (lib : Tablex) : Prop where
  sub : ∀ (t : List Int) (first last : Int), 1 ≤ first → first ≤ last + 1 → last ≤ t.length
    → lib.sub t first last = slice t first last
  sub_end : ∀ (t : List Int) (first : Int), 1 ≤ first → first ≤ t.length + 1
    → lib.sub t first (-1) = slice t first t.length
  insertvalues : ∀ (t : List Int) (position : Int) (values : List Int), 1 ≤ position
    → position ≤ t.length + 1
    → lib.insertvalues t position values
      = t.take (position - 1).toNat ++ values ++ t.drop (position - 1).toNat
  removevalues : ∀ (t : List Int) (first last : Int), 1 ≤ first → first ≤ last + 1 → last ≤ t.length
    → lib.removevalues t first last = t.take (first - 1).toNat ++ t.drop last.toNat
  removevalues_end : ∀ (t : List Int) (first : Int), 1 ≤ first → first ≤ t.length + 1
    → lib.removevalues t first (-1) = t.take (first - 1).toNat

/-- The completion at the cursor is an element of the list, and it fits before the cursor. -/
def Completed (editor : Editor) : Prop :=
  ∃ tablist tabix word, editor.tablist = some tablist ∧ editor.tabix = some tabix
    ∧ get tablist tabix = some word ∧ word.length ≤ editor.cursor - 1

/-- What holds wherever the cursor is. -/
structure Sound (editor : Editor) : Prop where
  firstLow : 1 ≤ editor.first
  retrospect : ∀ r, editor.retrospect = some r → 1 ≤ r ∧ r ≤ editor.history.length

/-- The cursor is inside of the buffer. -/
structure Placed (variant : Variant) (editor : Editor) : Prop extends Sound editor where
  low : 1 ≤ editor.cursor
  high : editor.cursor ≤ editor.buffer.length + 1
  firstHigh : variant = .dashboard → editor.first ≤ editor.cursor
  completed : editor.state = .tab → Completed editor

/-- What is shown is the text around the cursor. -/
structure Shown (variant : Variant) (editor : Editor) : Prop extends Placed variant editor where
  before : Utf8.char (slice editor.buffer (editor.start variant) (editor.cursor - 1))
    = some editor.beforeCursor
  here : Utf8.char (slice editor.buffer editor.cursor editor.buffer.length)
    = some editor.atCursor

-----------------------------------------------------------------------------------------
-- Operations that keep it
-----------------------------------------------------------------------------------------

/-- An outcome with the invariant: errors are allowed for, holes are not. -/
def Keeps (variant : Variant) : Except Trouble Editor → Prop
  | .ok editor => Shown variant editor
  | .error .raised => True
  | .error .hole => False

section Keeping

variable {variant : Variant} {α : Type} {value : Option α} {next : α → Except Trouble Editor}
  {editor : Editor}

/-- What goes on behind a value that may be missing. -/
theorem keeps_orRaise (keeps : ∀ a, value = some a → Keeps variant (next a))
    : Keeps variant (orRaise value >>= next) := by
  cases value with
  | none => trivial
  | some a => exact keeps a rfl

/-- What goes on behind a table that is a sequence. -/
theorem keeps_orHole {a : α} (isThere : value = some a) (keeps : Keeps variant (next a))
    : Keeps variant (orHole value >>= next) := by
  rw [isThere]
  exact keeps

/-- The part of the buffer that is shown begins inside of it. -/
theorem Placed.start_bounds (placed : Placed variant editor)
    : 1 ≤ editor.start variant ∧ editor.start variant ≤ editor.cursor := by
  cases variant with
  | ircc => exact ⟨Int.le_refl 1, placed.low⟩
  | dashboard => exact ⟨placed.firstLow, placed.firstHigh rfl⟩

/-- `render` shows what is around the cursor. -/
theorem keeps_render (placed : Placed variant editor) : Keeps variant (editor.render variant) := by
  obtain ⟨startLow, startHigh⟩ := placed.start_bounds
  have low := placed.low
  have high := placed.high
  refine keeps_orRaise fun before isBefore => keeps_orRaise fun here isHere => ?_
  rw [unpack_eq startLow (by omega) (by omega)] at isBefore
  rw [unpack_eq low (by omega) (Int.le_refl _)] at isHere
  exact { placed with before := isBefore, here := isHere }

/-- `move` to a position inside of the buffer. -/
theorem keeps_move (sound : Sound editor) {x : Int} {state : EditState} (low : 1 ≤ x)
    (high : x ≤ editor.buffer.length + 1)
    (completed : state = .tab → Completed { editor with cursor := x })
    : Keeps variant (editor.move variant x state) := by
  have firstLow := sound.firstLow
  refine keeps_render {
    firstLow := ?_, retrospect := sound.retrospect, low, high, firstHigh := ?_
    completed := completed }
  · cases variant with
    | ircc => exact firstLow
    | dashboard =>
        change 1 ≤ if editor.first > x then x else editor.first
        split <;> omega
  · rintro rfl
    change (if editor.first > x then x else editor.first) ≤ x
    split <;> omega

/-- `move` without a completion. -/
theorem keeps_plain_move (sound : Sound editor) {x : Int} {state : EditState} (low : 1 ≤ x)
    (high : x ≤ editor.buffer.length + 1) (notTab : state ≠ .tab)
    : Keeps variant (editor.move variant x state) :=
  keeps_move sound low high (fun isTab => absurd isTab notTab)

/-- `move` in a buffer of some length, with the rest as it was. -/
theorem keeps_move_in {edited : Editor} {x : Int} {state : EditState} (sound : Sound edited)
    {length : Nat} (isLength : edited.buffer.length = length) (low : 1 ≤ x)
    (high : x ≤ length + 1) (notTab : state ≠ .tab)
    : Keeps variant (edited.move variant x state) :=
  keeps_plain_move sound low (isLength ▸ high) notTab

/-- `move_to_end` -/
theorem keeps_moveToEnd (sound : Sound editor) : Keeps variant (editor.moveToEnd variant) :=
  keeps_plain_move sound (by omega) (Int.le_refl _) nofun

/-- `reset` -/
theorem keeps_reset (firstLow : 1 ≤ editor.first) : Keeps variant (editor.reset variant) := by
  rw [Editor.reset]
  refine keeps_plain_move ?_ (Int.le_refl 1) ?_ ?_
  · exact ⟨firstLow, nofun⟩
  · simp
  · rintro ⟨⟩

end Keeping

-----------------------------------------------------------------------------------------
-- Searching for words
-----------------------------------------------------------------------------------------

section Words

variable {editor : Editor} {test : Int → Option Bool}

/-- A search to the left ends between the start of the buffer and where it began, by induction
on the number of steps.
-/
theorem backWhile_bounds {most : Nat} {i j : Int} (low : 1 ≤ i)
    (found : Editor.backWhile test most i = some j)
    : 1 ≤ j ∧ j ≤ i := by
  induction most generalizing i with
  | zero =>
      obtain rfl := Option.some.inj found
      exact ⟨low, Int.le_refl i⟩
  | succ most ih =>
      rw [Editor.backWhile] at found
      split at found
      · next inside =>
          obtain ⟨goes, -, found⟩ := Option.bind_eq_some_iff.mp found
          split at found
          · have bounds := ih (by omega) found
            omega
          · obtain rfl := Option.some.inj found
            exact ⟨low, Int.le_refl i⟩
      · obtain rfl := Option.some.inj found
        exact ⟨low, Int.le_refl i⟩

/-- A search to the right ends between where it began and the end of the buffer, by induction
on the number of steps.
-/
theorem onWhile_bounds {most : Nat} {n i j : Int} (high : i ≤ n + 1)
    (found : Editor.onWhile test n most i = some j)
    : i ≤ j ∧ j ≤ n + 1 := by
  induction most generalizing i with
  | zero =>
      obtain rfl := Option.some.inj found
      exact ⟨Int.le_refl i, high⟩
  | succ most ih =>
      rw [Editor.onWhile] at found
      split at found
      · next inside =>
          obtain ⟨goes, -, found⟩ := Option.bind_eq_some_iff.mp found
          split at found
          · have bounds := ih (by omega) found
            omega
          · obtain rfl := Option.some.inj found
            exact ⟨Int.le_refl i, high⟩
      · obtain rfl := Option.some.inj found
        exact ⟨Int.le_refl i, high⟩

/-- The next word is behind the cursor. -/
theorem searchNextWord_bounds {isalnum : Int → Bool} {j : Int}
    (high : editor.cursor ≤ editor.buffer.length + 1)
    (found : editor.searchNextWord isalnum = some j)
    : editor.cursor ≤ j ∧ j ≤ editor.buffer.length + 1 := by
  rw [Editor.searchNextWord] at found
  split at found
  · have bounds := onWhile_bounds (by omega) found
    omega
  · obtain rfl := Option.some.inj found
    exact ⟨Int.le_refl _, high⟩

/-- The previous word is before the cursor. -/
theorem searchPrevWord_bounds {p : Int → Bool} {j : Int} (low : 1 ≤ editor.cursor)
    (found : editor.searchPrevWord p = some j)
    : 1 ≤ j ∧ j ≤ editor.cursor := by
  obtain ⟨i, skipped, found⟩ := Option.bind_eq_some_iff.mp found
  have startLow : 1 ≤ if 1 < editor.cursor then editor.cursor - 1 else editor.cursor := by
    split <;> omega
  have startHigh : (if 1 < editor.cursor then editor.cursor - 1 else editor.cursor)
      ≤ editor.cursor := by
    split <;> omega
  have middle := backWhile_bounds startLow skipped
  have last := backWhile_bounds middle.1 found
  omega

end Words

-----------------------------------------------------------------------------------------
-- The operations, one by one
-----------------------------------------------------------------------------------------

section Operations

variable {variant : Variant} {lib : Tablex} {isalnum : Int → Bool} {editor : Editor}

/-- `overflow`: the cursor does not move. -/
theorem keeps_overflow (shown : Shown .dashboard editor)
    : Keeps .dashboard (editor.overflow .dashboard) := by
  have low := shown.low
  refine keeps_render { shown with firstLow := Int.le_max_left .., firstHigh := ?_ }
  intro _
  change max 1 (editor.cursor - 12) ≤ editor.cursor
  omega

/-- `move_left`, which stops at the start. -/
theorem keeps_moveLeft (shown : Shown variant editor)
    : Keeps variant (editor.moveLeft variant) := by
  have high := shown.high
  rw [Editor.moveLeft]
  split
  · exact keeps_plain_move shown.toSound (by omega) (by omega) nofun
  · exact shown

/-- `move_right`, which stops behind the last character. -/
theorem keeps_moveRight (shown : Shown variant editor)
    : Keeps variant (editor.moveRight variant) := by
  have low := shown.low
  rw [Editor.moveRight]
  split
  · exact keeps_plain_move shown.toSound (by omega) (by omega) nofun
  · exact shown

/-- `move_next_word`, by the bounds of the search. -/
theorem keeps_moveNextWord (shown : Shown variant editor)
    : Keeps variant (editor.moveNextWord variant isalnum) := by
  have low := shown.low
  refine keeps_orRaise fun j found => ?_
  have bounds := searchNextWord_bounds shown.high found
  exact keeps_plain_move shown.toSound (by omega) bounds.2 nofun

/-- `move_prev_word`, by the bounds of the search. -/
theorem keeps_movePrevWord (shown : Shown variant editor)
    : Keeps variant (editor.movePrevWord variant isalnum) := by
  have high := shown.high
  refine keeps_orRaise fun j found => ?_
  have bounds := searchPrevWord_bounds shown.low found
  exact keeps_plain_move shown.toSound bounds.1 (by omega) nofun

/-- `confirm`, which appends to the history at most. -/
theorem keeps_confirm (shown : Shown variant editor)
    : Keeps variant (editor.confirm variant lib) := by
  have appended : LuaSequence.set editor.history (editor.history.length + 1) editor.buffer
      = some (editor.history ++ [editor.buffer]) := by
    rw [LuaSequence.set, if_neg (by omega), if_pos rfl]
  rw [Editor.confirm]
  split
  · exact keeps_reset shown.firstLow
  · exact keeps_orHole appended (keeps_reset shown.firstLow)

/-- Leaving an entry of the history leaves no hole in it. -/
theorem keeps_leaveEntry {r : Int} {next : List (List Int) × Bool → Except Trouble Editor}
    (low : 1 ≤ r) (high : r ≤ editor.history.length)
    (keeps : ∀ history stays, Keeps variant (next (history, stays)))
    : Keeps variant (editor.leaveEntry r >>= next) := by
  rw [Editor.leaveEntry]
  split
  · obtain ⟨history, isSet, -⟩ := set_eq_some editor.buffer low high
    rw [isSet]
    exact keeps history true
  · cases remove editor.history r with
    | none => trivial
    | some history => exact keeps history false

/-- `older_history`, from an entry or from the buffer that is edited. -/
theorem keeps_olderHistory (shown : Shown variant editor)
    : Keeps variant (editor.olderHistory variant) := by
  rw [Editor.olderHistory]
  split
  · next r isRetrospect =>
      obtain ⟨low, high⟩ := shown.retrospect r isRetrospect
      split
      · refine keeps_leaveEntry low high fun history stays => ?_
        refine keeps_orRaise fun buffer isThere => keeps_moveToEnd ⟨shown.firstLow, ?_⟩
        rintro _ ⟨⟩
        exact bounds_of_get isThere
      · exact shown
  · split
    · refine keeps_orRaise fun buffer isThere => keeps_moveToEnd ⟨shown.firstLow, ?_⟩
      rintro _ ⟨⟩
      exact bounds_of_get isThere
    · exact shown

/-- `newer_history`, to an entry or back to the buffer that was edited. -/
theorem keeps_newerHistory (shown : Shown variant editor)
    : Keeps variant (editor.newerHistory variant) := by
  rw [Editor.newerHistory]
  split
  · exact shown
  · next r isRetrospect =>
      obtain ⟨low, high⟩ := shown.retrospect r isRetrospect
      refine keeps_leaveEntry low high fun history stays => ?_
      dsimp only
      split
      · exact keeps_orRaise fun buffer _ => keeps_moveToEnd ⟨shown.firstLow, nofun⟩
      · next buffer isThere =>
          refine keeps_moveToEnd ⟨shown.firstLow, ?_⟩
          rintro _ ⟨⟩
          exact bounds_of_get isThere

/-- `add`: buffer and cursor move on together. -/
theorem keeps_add (shown : Shown variant editor) (code : Int)
    : Keeps variant (editor.add variant code) := by
  have low := shown.low
  have high := shown.high
  refine keeps_orRaise fun buffer inserted => ?_
  rw [LuaSequence.insert, if_pos ⟨low, high⟩] at inserted
  obtain rfl := Option.some.inj inserted
  have longer := List.length_insertIdx_of_le_length
    (show (editor.cursor - 1).toNat ≤ editor.buffer.length by omega) code
  refine keeps_move_in ?_ longer (by omega) (by omega) (by rintro ⟨⟩)
  exact ⟨shown.firstLow, shown.retrospect⟩

/-- `backspace`: buffer and cursor go back together. -/
theorem keeps_backspace (shown : Shown variant editor)
    : Keeps variant (editor.backspace variant) := by
  have high := shown.high
  rw [Editor.backspace]
  split
  · refine keeps_orRaise fun buffer removed => ?_
    have shorter := length_remove (by omega) (by omega) removed
    refine keeps_move_in ?_ (Eq.refl buffer.length) (by omega) (by omega) (by rintro ⟨⟩)
    exact ⟨shown.firstLow, shown.retrospect⟩
  · exact shown

/-- `delete`: behind the last character there is nothing to remove. -/
theorem keeps_delete (shown : Shown variant editor)
    : Keeps variant (editor.delete variant) := by
  have low := shown.low
  have high := shown.high
  refine keeps_orRaise fun buffer removed => ?_
  have within : editor.cursor ≤ buffer.length + 1 := by
    by_cases isLast : editor.cursor = editor.buffer.length + 1
    · rw [remove, if_pos (.inl ⟨low, high⟩)] at removed
      obtain rfl := Option.some.inj removed
      rw [List.eraseIdx_of_length_le (by omega)]
      exact high
    · have shorter := length_remove low (by omega) removed
      omega
  exact keeps_render {
    firstLow := shown.firstLow, retrospect := shown.retrospect, low, high := within
    firstHigh := shown.firstHigh, completed := by rintro ⟨⟩ }

/-- `swap`: the cases for the place of the cursor leave two characters before it. -/
theorem keeps_swap (shown : Shown variant editor)
    : Keeps variant (editor.swap variant) := by
  have low := shown.low
  have high := shown.high
  rw [Editor.swap]
  split
  · next several =>
      obtain ⟨i, isPosition, iLow, iHigh⟩ : ∃ i : Int,
          i = (if editor.cursor = 1 then 3
            else if editor.cursor ≤ editor.buffer.length then editor.cursor + 1
            else editor.cursor) ∧ 3 ≤ i ∧ i ≤ editor.buffer.length + 1 := by
        refine ⟨_, rfl, ?_⟩
        split
        · omega
        · split <;> omega
      rw [← isPosition]
      obtain ⟨t, isT⟩ := get_eq_some (t := editor.buffer) (i := i - 2) (by omega) (by omega)
      obtain ⟨u, isU⟩ := get_eq_some (t := editor.buffer) (i := i - 1) (by omega) (by omega)
      obtain ⟨middle, isMiddle, sameLength⟩ :=
        set_eq_some (t := editor.buffer) (i := i - 2) u (by omega) (by omega)
      obtain ⟨last, isLast, stillSame⟩ :=
        set_eq_some (t := middle) (i := i - 1) t (by omega) (by omega)
      refine keeps_orHole isT (keeps_orHole isU (keeps_orHole isMiddle (keeps_orHole isLast ?_)))
      refine keeps_move_in ?_ (stillSame.trans sameLength) (by omega) (by omega) (by rintro ⟨⟩)
      exact ⟨shown.firstLow, shown.retrospect⟩
  · exact shown

/-- The loop of `hexinput`, by induction on how often it may turn. -/
theorem keeps_hexLoop (documented : lib.Documented) (shown : Shown variant editor) {last : Int}
    (within : last ≤ editor.cursor - 1) (most : Nat) {first : Int} (upTo : first ≤ last)
    : Keeps variant (editor.hexLoop variant lib last most first) := by
  have high := shown.high
  induction most generalizing first with
  | zero => exact shown
  | succ most ih =>
      rw [Editor.hexLoop]
      split
      · next inside =>
          split
          · refine keeps_orRaise fun acc isValue => ?_
            split
            · exact shown
            · have removed := documented.removevalues editor.buffer first last (by omega)
                (by omega) (by omega)
              have isLength : (lib.removevalues editor.buffer first last).length
                  = editor.buffer.length - (last - first + 1).toNat := by
                rw [removed, List.length_append, List.length_take, List.length_drop]
                omega
              obtain ⟨buffer, isSet, sameLength⟩ :=
                set_eq_some (t := lib.removevalues editor.buffer first last)
                  (i := first - 1) acc (by omega) (by omega)
              refine keeps_orHole isSet ?_
              refine keeps_move_in ?_ (Eq.refl buffer.length) (by omega) (by omega)
                (by rintro ⟨⟩)
              exact ⟨shown.firstLow, shown.retrospect⟩
          · split
            · exact ih (by omega)
            · exact shown
      · exact shown

/-- `hexinput`, for both of its forms. -/
theorem keeps_hexinput (documented : lib.Documented) (shown : Shown variant editor)
    : Keeps variant (editor.hexinput variant lib) := by
  have high := shown.high
  have search : Keeps variant (editor.hexLoop variant lib (editor.cursor - 1)
      (editor.cursor - 1).toNat (editor.cursor - 1)) :=
    keeps_hexLoop documented shown (Int.le_refl _) _ (Int.le_refl _)
  rw [Editor.hexinput]
  split
  · next control =>
      refine keeps_orRaise fun c isLast => ?_
      split
      · obtain ⟨middle, isSet, sameLength⟩ :=
          set_eq_some (t := editor.buffer) (i := editor.cursor - 1 - 1) (c - 0x40)
            (by omega) (by omega)
        refine keeps_orHole isSet (keeps_orRaise fun buffer removed => ?_)
        have shorter := length_remove (by omega) (by omega) removed
        refine keeps_move_in ?_ (Eq.refl buffer.length) (by omega) (by omega) (by rintro ⟨⟩)
        exact ⟨shown.firstLow, shown.retrospect⟩
      · exact search
  · exact search

/-- Adding to the yank changes nothing else but the state. -/
theorem addYankLeft_eq (lib : Tablex) (editor : Editor) (lo hi : Int)
    : ∃ yank, editor.addYankLeft lib lo hi = { editor with yank, state := .kill } := by
  rw [Editor.addYankLeft]
  split
  · next isKill => exact ⟨_, by rw [← isKill]⟩
  · exact ⟨_, rfl⟩

/-- `kill_to_beg` puts the cursor at the start. -/
theorem keeps_killToBeg (shown : Shown variant editor)
    : Keeps variant (editor.killToBeg variant lib) := by
  obtain ⟨yank, isKill⟩ := addYankLeft_eq lib editor 1 (editor.cursor - 1)
  rw [Editor.killToBeg, isKill]
  refine keeps_plain_move ?_ (Int.le_refl 1) (by omega) (by rintro ⟨⟩)
  exact ⟨shown.firstLow, shown.retrospect⟩

/-- `kill_to_end` leaves what is before the cursor. -/
theorem keeps_killToEnd (documented : lib.Documented) (shown : Shown variant editor)
    : Keeps variant (editor.killToEnd variant lib) := by
  have low := shown.low
  have high := shown.high
  have kept := documented.removevalues_end editor.buffer editor.cursor low high
  have within : editor.cursor
      ≤ (lib.removevalues editor.buffer editor.cursor (-1)).length + 1 := by
    rw [kept, List.length_take]
    omega
  have rendered (yank : List Int)
    : Keeps variant (Editor.render variant { editor with
        yank, state := .kill, buffer := lib.removevalues editor.buffer editor.cursor (-1) }) :=
    keeps_render {
      firstLow := shown.firstLow, retrospect := shown.retrospect, low, high := within
      firstHigh := shown.firstHigh, completed := nofun }
  rw [Editor.killToEnd]
  split
  · rw [unpack_eq low (by omega) (Int.le_refl _)]
    exact rendered _
  · exact rendered _

/-- A part of the buffer that is removed makes it shorter. -/
theorem length_removevalues (documented : lib.Documented) {t : List Int} {first : Int}
    (last : Int) (low : 1 ≤ first) (ordered : first ≤ last + 1) (high : last ≤ t.length)
    : (lib.removevalues t first last).length + (last + 1 - first) = t.length := by
  rw [documented.removevalues t first last low ordered high, List.length_append,
    List.length_take, List.length_drop]
  omega

/-- Values that are inserted make the buffer longer. -/
theorem length_insertvalues (documented : lib.Documented) {t : List Int} {position : Int}
    (values : List Int) (low : 1 ≤ position) (high : position ≤ t.length + 1)
    : (lib.insertvalues t position values).length = t.length + values.length := by
  rw [documented.insertvalues t position values low high, List.length_append,
    List.length_append, List.length_take, List.length_drop]
  omega

/-- `kill_prev_word`, by the bounds of the search. -/
theorem keeps_killPrevWord (documented : lib.Documented) (shown : Shown variant editor)
    : Keeps variant (editor.killPrevWord variant lib isalnum) := by
  have high := shown.high
  refine keeps_orRaise fun i found => ?_
  obtain ⟨low, upTo⟩ := searchPrevWord_bounds shown.low found
  have shorter := length_removevalues documented (t := editor.buffer) (editor.cursor - 1) low
    (by omega) (by omega)
  obtain ⟨yank, isKill⟩ := addYankLeft_eq lib editor i (editor.cursor - 1)
  dsimp only
  rw [isKill]
  refine keeps_move_in ?_ rfl low ?_ (by rintro ⟨⟩)
  · exact ⟨shown.firstLow, shown.retrospect⟩
  · dsimp only
    omega

/-- `kill_next_word`, by the bounds of the search. -/
theorem keeps_killNextWord (documented : lib.Documented) (shown : Shown variant editor)
    : Keeps variant (editor.killNextWord variant lib isalnum) := by
  have low := shown.low
  refine keeps_orRaise fun j found => ?_
  obtain ⟨upTo, high⟩ := searchNextWord_bounds shown.high found
  have shorter := length_removevalues documented (t := editor.buffer) (j - 1) low
    (by omega) (by omega)
  refine keeps_move_in ?_ rfl low ?_ (by rintro ⟨⟩)
  · exact ⟨shown.firstLow, shown.retrospect⟩
  · dsimp only
    omega

/-- `paste`: the cursor moves behind what comes in. -/
theorem keeps_paste (documented : lib.Documented) (shown : Shown variant editor)
    : Keeps variant (editor.paste variant lib) := by
  have low := shown.low
  have high := shown.high
  have longer := length_insertvalues documented (t := editor.buffer) editor.yank low high
  refine keeps_move_in ?_ longer (by omega) (by omega) (by rintro ⟨⟩)
  exact ⟨shown.firstLow, shown.retrospect⟩

/-- The part of `tab` that completes the text before the cursor. -/
theorem keeps_complete (documented : lib.Documented) (shown : Shown variant editor)
    {tablist : List (List Int)} {tabix : Option Int} {i : Int} (low : 1 ≤ i)
    (upTo : i ≤ editor.cursor)
    : Keeps variant (editor.complete variant lib tablist tabix i) := by
  have high := shown.high
  refine keeps_orRaise fun new selected => ?_
  obtain ⟨index, rfl, isNew⟩ := Option.bind_eq_some_iff.mp selected
  have shorter := length_removevalues documented (t := editor.buffer) (editor.cursor - 1) low
    (by omega) (by omega)
  have longer := length_insertvalues documented
    (t := lib.removevalues editor.buffer i (editor.cursor - 1)) new low (by omega)
  refine keeps_move ?_ (by omega) ?_ (fun _ => ⟨tablist, index, new, rfl, rfl, isNew, ?_⟩)
  · exact ⟨shown.firstLow, shown.retrospect⟩
  · dsimp only
    omega
  · dsimp only
    omega

/-- `tab`, at the first completion or at the next one. -/
theorem keeps_tab (documented : lib.Documented) (shown : Shown variant editor) (dir : Int)
    (mklist : Bytes → Bytes → Option (Option Int × Option (List Bytes)))
    : Keeps variant (editor.tab variant lib dir mklist) := by
  rw [Editor.tab]
  split
  · next isTab =>
      obtain ⟨tablist, tabix, word, isList, isIndex, isWord, fits⟩ := shown.completed isTab
      refine keeps_orRaise fun index sameIndex => keeps_orRaise fun list sameList => ?_
      obtain rfl : tabix = index := by simpa [isIndex] using sameIndex
      obtain rfl : tablist = list := by simpa [isList] using sameList
      split
      · trivial
      · refine keeps_orRaise fun old isOld => ?_
        obtain rfl : word = old := by simpa [isWord] using isOld
        exact keeps_complete documented shown (by omega) (by omega)
  · next notTab =>
      refine keeps_orRaise fun i found => ?_
      obtain ⟨low, upTo⟩ := searchPrevWord_bounds shown.low found
      refine keeps_orRaise fun starting _ => keeps_orRaise fun seed _ =>
        keeps_orRaise fun answer _ => ?_
      rcases answer with ⟨tabix, _ | texts⟩
      · exact { shown with completed := fun isTab => absurd isTab notTab }
      · exact keeps_orRaise fun tablist _ => keeps_complete documented shown low upTo

end Operations

-----------------------------------------------------------------------------------------
-- Runs
-----------------------------------------------------------------------------------------

section Runs

variable {variant : Variant} {lib : Tablex} {editor : Editor}

/-- Every operation keeps the invariant, by cases on the operation. -/
theorem keeps_perform (isalnum : Int → Bool) (documented : lib.Documented)
    (shown : Shown variant editor) (operation : Operation)
    : Keeps variant (perform variant lib isalnum editor operation) := by
  cases operation with
  | add code => exact keeps_add shown code
  | backspace => exact keeps_backspace shown
  | delete => exact keeps_delete shown
  | moveToBeg => exact keeps_plain_move shown.toSound (Int.le_refl 1) (by omega) nofun
  | moveToEnd => exact keeps_moveToEnd shown.toSound
  | moveLeft => exact keeps_moveLeft shown
  | moveRight => exact keeps_moveRight shown
  | moveNextWord => exact keeps_moveNextWord shown
  | movePrevWord => exact keeps_movePrevWord shown
  | swap => exact keeps_swap shown
  | hexinput =>
      rw [perform]
      split
      · exact keeps_hexinput documented shown
      · trivial
  | killToBeg => exact keeps_killToBeg shown
  | killToEnd => exact keeps_killToEnd documented shown
  | killPrevWord => exact keeps_killPrevWord documented shown
  | killNextWord => exact keeps_killNextWord documented shown
  | paste => exact keeps_paste documented shown
  | tab dir mklist => exact keeps_tab documented shown dir mklist
  | olderHistory => exact keeps_olderHistory shown
  | newerHistory => exact keeps_newerHistory shown
  | confirm => exact keeps_confirm shown
  | reset => exact keeps_reset shown.firstLow
  | overflow =>
      rw [perform]
      split
      · next isDashboard =>
          subst isDashboard
          exact keeps_overflow shown
      · trivial

/-- Every step is possible, and it keeps the invariant. -/
theorem shown_step (isalnum : Int → Bool) (documented : lib.Documented)
    (shown : Shown variant editor) (operation : Operation)
    : ∃ after, step variant lib isalnum editor operation = some after ∧ Shown variant after := by
  have keeps := keeps_perform isalnum documented shown operation
  rw [step]
  cases outcome : perform variant lib isalnum editor operation with
  | ok after =>
      rw [outcome] at keeps
      exact ⟨after, rfl, keeps⟩
  | error trouble =>
      rw [outcome] at keeps
      cases trouble with
      | raised => exact ⟨editor, rfl, shown⟩
      | hole => exact keeps.elim

/-- A new editor is empty. -/
theorem shown_initial : Shown variant initial where
  firstLow := Int.le_refl 1
  retrospect := nofun
  low := Int.le_refl 1
  high := Int.le_refl 1
  firstHigh := fun _ => Int.le_refl 1
  completed := nofun
  before := by cases variant <;> rfl
  here := rfl

/-- After any sequence of operations the buffer is a sequence, the cursor is inside of it, and
the shown texts are the UTF-8 text before and from the cursor on. By induction on the
operations.
-/
theorem editor_shown (variant : Variant) (lib : Tablex) (isalnum : Int → Bool)
    (documented : lib.Documented) (operations : List Operation)
    : ∃ editor, Runs.run (step variant lib isalnum) initial operations = some editor
      ∧ Shown variant editor := by
  have goesOn (operations : List Operation) (before : Editor) (shown : Shown variant before)
    : ∃ editor, Runs.run (step variant lib isalnum) before operations = some editor
      ∧ Shown variant editor := by
    induction operations generalizing before with
    | nil => exact ⟨before, rfl, shown⟩
    | cons operation operations ih =>
        obtain ⟨middle, moves, isShown⟩ :=
          shown_step isalnum documented shown operation
        obtain ⟨editor, runs, isLast⟩ := ih middle isShown
        exact ⟨editor, by rw [Runs.run, moves]; exact runs, isLast⟩
  exact goesOn operations initial shown_initial

/-- Functions as they are documented; negative positions count from the end. -/
def penlight : Tablex :=
  let position (t : List Int) (i : Int) := if i < 0 then t.length + 1 + i else i
  { sub := fun t first last => slice t (position t first) (position t last)
    insertvalues := fun t i values => t.take (i - 1).toNat ++ values ++ t.drop (i - 1).toNat
    removevalues := fun t first last =>
      t.take (position t first - 1).toNat ++ t.drop (position t last).toNat
    compareNoOrder := fun t u => t.isPerm u }

/-- Such functions are as documented. -/
theorem penlight_documented : penlight.Documented where
  sub t first last low ordered _ := by
    simp only [penlight]
    rw [if_neg (by omega), if_neg (by omega)]
  sub_end t first low _ := by
    simp only [penlight]
    rw [if_neg (by omega), if_pos (by omega)]
    congr 1
    omega
  insertvalues _ _ _ _ _ := rfl
  removevalues t first last low ordered _ := by
    simp only [penlight]
    rw [if_neg (by omega), if_neg (by omega)]
  removevalues_end t first low _ := by
    simp only [penlight]
    rw [if_neg (by omega), if_pos (by omega), List.drop_eq_nil_of_le (by omega),
      List.append_nil]

/-- Witness: some text is typed, killed and pasted. -/
theorem editor_shown_witness
    : penlight.Documented
      ∧ ∃ editor, Runs.run (step .dashboard penlight (fun _ => true)) initial
          [.add 104, .add 105, .moveLeft, .killToEnd, .paste, .overflow] = some editor
        ∧ Shown .dashboard editor :=
  ⟨penlight_documented, editor_shown _ _ _ penlight_documented _⟩

end Runs

end Snowcone.Editing
