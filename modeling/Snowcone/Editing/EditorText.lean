import Snowcone.Editing.EditorInvariant

/-! The text of the client's editor before and from the cursor on, and what the functions of
`tablex` do to a part of it.
-/

namespace Snowcone.Editing

open LuaSequence

/-- A code that `utf8.char` writes. -/
def Encodable (code : Int) : Prop := 0 ≤ code ∧ code ≤ 0x7fffffff

/-- The text before the cursor, and the text from the cursor on. -/
structure TextAt (editor : Editor) (front back : List Int) : Prop where
  buffer : editor.buffer = front ++ back
  cursor : editor.cursor = front.length + 1
  codes : ∀ code ∈ front ++ back, Encodable code

-----------------------------------------------------------------------------------------
-- Parts of a sequence
-----------------------------------------------------------------------------------------

section Parts

variable {lib : Tablex} {before part after : List Int} {first last : Int}

/-- The part of a sequence between two positions. -/
theorem slice_part (isFirst : first = before.length + 1) (isLast : last + 1 = first + part.length)
    : slice (before ++ part ++ after) first last = part := by
  have dropped : (first - 1).toNat = before.length := by omega
  have taken : (last - first + 1).toNat = part.length := by omega
  rw [slice, dropped, taken, List.append_assoc, List.drop_left, List.take_left]

/-- What is unpacked of a sequence between two positions. -/
theorem unpack_part (isFirst : first = before.length + 1)
    (isLast : last + 1 = first + part.length)
    : unpack (before ++ part ++ after) first last = some part := by
  rw [unpack_eq (by omega) (by omega), slice_part isFirst isLast]
  rw [List.length_append, List.length_append]
  omega

/-- `tablex.sub` between two positions. -/
theorem Tablex.Documented.sub_part (documented : lib.Documented)
    (isFirst : first = before.length + 1) (isLast : last + 1 = first + part.length)
    : lib.sub (before ++ part ++ after) first last = part := by
  rw [documented.sub _ first last (by omega) (by omega), slice_part isFirst isLast]
  rw [List.length_append, List.length_append]
  omega

/-- `tablex.sub` up to the end. -/
theorem Tablex.Documented.sub_rest (documented : lib.Documented)
    (isFirst : first = before.length + 1)
    : lib.sub (before ++ part) first (-1) = part := by
  have isLength : (before ++ part).length = _ := List.length_append
  have whole : slice (before ++ part ++ []) first (before ++ part).length = part :=
    slice_part isFirst (by omega)
  rw [List.append_nil] at whole
  rw [documented.sub_end _ first (by omega) (by omega), whole]

/-- `tablex.removevalues` between two positions. -/
theorem Tablex.Documented.removevalues_part (documented : lib.Documented)
    (isFirst : first = before.length + 1) (isLast : last + 1 = first + part.length)
    : lib.removevalues (before ++ part ++ after) first last = before ++ after := by
  have isLength : (before ++ part ++ after).length
      = before.length + part.length + after.length := by
    rw [List.length_append, List.length_append]
  have taken : (first - 1).toNat = before.length := by omega
  have dropped : last.toNat = (before ++ part).length := by
    rw [List.length_append]
    omega
  rw [documented.removevalues _ first last (by omega) (by omega) (by omega), dropped,
    List.drop_left, taken, List.append_assoc, List.take_left]

/-- `tablex.removevalues` up to the end. -/
theorem Tablex.Documented.removevalues_rest (documented : lib.Documented)
    (isFirst : first = before.length + 1)
    : lib.removevalues (before ++ part) first (-1) = before := by
  have isLength : (before ++ part).length = _ := List.length_append
  have taken : (first - 1).toNat = before.length := by omega
  rw [documented.removevalues_end _ first (by omega) (by omega), taken, List.take_left]

/-- `tablex.insertvalues` at a position. -/
theorem Tablex.Documented.insertvalues_part (documented : lib.Documented)
    (isFirst : first = before.length + 1)
    : lib.insertvalues (before ++ after) first part = before ++ part ++ after := by
  have isLength : (before ++ after).length = _ := List.length_append
  have split : (first - 1).toNat = before.length := by omega
  rw [documented.insertvalues _ first part (by omega) (by omega), split, List.take_left,
    List.drop_left]

/-- The value at a position. -/
theorem get_part {code : Int} (isFirst : first = before.length + 1)
    : get (before ++ code :: after) first = some code := by
  have index : (first - 1).toNat = before.length := by omega
  rw [LuaSequence.get, if_pos (by omega), index, List.getElem?_append_right (Nat.le_refl _),
    Nat.sub_self]
  rfl

/-- Another value written at a position. -/
theorem set_part {code : Int} (value : Int) (isFirst : first = before.length + 1)
    : LuaSequence.set (before ++ code :: after) first value = some (before ++ value :: after) := by
  have isLength : (before ++ code :: after).length = _ := List.length_append
  have index : (first - 1).toNat = before.length := by omega
  rw [List.length_cons] at isLength
  rw [LuaSequence.set, if_pos ⟨by omega, by omega⟩, index,
    List.set_append_right _ _ (Nat.le_refl _), Nat.sub_self]
  rfl

/-- The value at a position removed. -/
theorem remove_part {code : Int} (isFirst : first = before.length + 1)
    : LuaSequence.remove (before ++ code :: after) first = some (before ++ after) := by
  have isLength : (before ++ code :: after).length = _ := List.length_append
  have index : (first - 1).toNat = before.length := by omega
  rw [List.length_cons] at isLength
  rw [LuaSequence.remove, if_pos (.inl ⟨by omega, by omega⟩), index,
    List.eraseIdx_append_of_length_le (Nat.le_refl _), Nat.sub_self]
  rfl

end Parts

/-- What goes on behind a value that is there. -/
theorem orRaise_bind {α β : Type} (value : α) (next : α → Except Trouble β)
    : (orRaise (some value) >>= next) = next value :=
  rfl

-----------------------------------------------------------------------------------------
-- Outcomes
-----------------------------------------------------------------------------------------

/-- An outcome that has a property, unless it is an error. -/
def Yields (holds : Editor → Prop) : Except Trouble Editor → Prop
  | .ok editor => holds editor
  | .error _ => True

section Outcomes

variable {holds : Editor → Prop} {variant : Variant} {editor : Editor} {α : Type}
  {value : Option α} {next : α → Except Trouble Editor}

/-- What goes on behind a value that may be missing. -/
theorem yields_orRaise (yields : ∀ a, value = some a → Yields holds (next a))
    : Yields holds (orRaise value >>= next) := by
  cases value with
  | none => trivial
  | some a => exact yields a rfl

/-- What goes on behind a table that may be no sequence. -/
theorem yields_orHole (yields : ∀ a, value = some a → Yields holds (next a))
    : Yields holds (orHole value >>= next) := by
  cases value with
  | none => trivial
  | some a => exact yields a rfl

/-- `render` changes what is shown. -/
theorem yields_render
    (isHeld : ∀ before here, holds { editor with beforeCursor := before, atCursor := here })
    : Yields holds (editor.render variant) :=
  yields_orRaise fun before _ => yields_orRaise fun here _ => isHeld before here

/-- A step leads to what the operation yields, or changes nothing. -/
theorem yields_step {lib : Tablex} {isalnum : Int → Bool} {operation : Operation}
    {after : Editor} (unchanged : holds editor)
    (yields : Yields holds (perform variant lib isalnum editor operation))
    (moves : step variant lib isalnum editor operation = some after)
    : holds after := by
  rw [step] at moves
  cases outcome : perform variant lib isalnum editor operation with
  | ok result =>
      rw [outcome] at moves yields
      obtain rfl := Option.some.inj moves
      exact yields
  | error trouble =>
      rw [outcome] at moves
      cases trouble with
      | raised =>
          obtain rfl := Option.some.inj moves
          exact unchanged
      | hole => cases moves

end Outcomes

-----------------------------------------------------------------------------------------
-- Showing the text
-----------------------------------------------------------------------------------------

section Showing

variable {editor : Editor} {front back : List Int}

/-- Codes that can be written are, by induction on the codes. -/
theorem char_of_encodable {codes : List Int} (encodable : ∀ code ∈ codes, Encodable code)
    : ∃ text, Utf8.char codes = some text := by
  have each : ∃ texts, codes.mapM Utf8.charOf = some texts := by
    induction codes with
    | nil => exact ⟨[], rfl⟩
    | cons code codes ih =>
        obtain ⟨here, later⟩ := List.forall_mem_cons.mp encodable
        obtain ⟨texts, isTexts⟩ := ih later
        have isText : Utf8.charOf code = some (Utf8.charBytes code.toNat) := if_pos here
        exact ⟨_, by rw [List.mapM_cons, isText, isTexts]; rfl⟩
  obtain ⟨texts, isTexts⟩ := each
  exact ⟨texts.flatten, by rw [Utf8.char, isTexts]; rfl⟩

/-- Codes that are written can be, by induction on the codes. -/
theorem encodable_of_char {codes : List Int} {text : Bytes} (isText : Utf8.char codes = some text)
    : ∀ code ∈ codes, Encodable code := by
  obtain ⟨texts, isTexts, -⟩ := Option.map_eq_some_iff.mp isText
  clear isText
  induction codes generalizing texts with
  | nil => simp
  | cons code codes ih =>
      rw [List.mapM_cons] at isTexts
      obtain ⟨_, isHere, isTexts⟩ := Option.bind_eq_some_iff.mp isTexts
      obtain ⟨_, isLater, -⟩ := Option.bind_eq_some_iff.mp isTexts
      refine List.forall_mem_cons.mpr ⟨?_, ih _ isLater⟩
      rw [Utf8.charOf] at isHere
      split at isHere
      · assumption
      · cases isHere

/-- A cursor inside of a buffer whose codes can be written has a text on both of its sides. -/
theorem textAt_of_bounds (low : 1 ≤ editor.cursor) (high : editor.cursor ≤ editor.buffer.length + 1)
    (codes : ∀ code ∈ editor.buffer, Encodable code)
    : ∃ front back, TextAt editor front back := by
  refine ⟨editor.buffer.take (editor.cursor - 1).toNat,
    editor.buffer.drop (editor.cursor - 1).toNat, (List.take_append_drop _ _).symm, ?_, ?_⟩
  · rw [List.length_take]
    omega
  · rw [List.take_append_drop]
    exact codes

/-- An editor that shows its text has a text on both sides of the cursor. -/
theorem Shown.textAt (shown : Shown .ircc editor) : ∃ front back, TextAt editor front back := by
  have low := shown.low
  have high := shown.high
  refine textAt_of_bounds low high fun code member => ?_
  have parts : editor.buffer = slice editor.buffer (editor.start .ircc) (editor.cursor - 1)
      ++ slice editor.buffer editor.cursor editor.buffer.length := by
    have first : editor.start .ircc = 1 := rfl
    have all : (↑editor.buffer.length - editor.cursor + 1).toNat
        = (editor.buffer.drop (editor.cursor - 1).toNat).length := by
      rw [List.length_drop]
      omega
    rw [slice, slice, first, all, List.take_length]
    have taken : (editor.cursor - 1 - 1 + 1).toNat = (editor.cursor - 1).toNat := by omega
    rw [taken]
    exact (List.take_append_drop _ _).symm
  rw [parts] at member
  rcases List.mem_append.mp member with isBefore | isHere
  · exact encodable_of_char shown.before code isBefore
  · exact encodable_of_char shown.here code isHere

/-- `render` and `move` leave a text on both sides of the cursor, and beside the state they
change nothing else but what is shown.
-/
structure Moved (editor : Editor) (state : EditState) (front back : List Int) (after : Editor)
    : Prop extends TextAt after front back where
  state : after.state = state
  yank : after.yank = editor.yank
  tablist : after.tablist = editor.tablist
  tabix : after.tabix = editor.tabix
  history : after.history = editor.history
  stash : after.stash = editor.stash

/-- `render` shows both sides. -/
theorem TextAt.render_moved (isText : TextAt editor front back)
    : ∃ after, editor.render .ircc = .ok after ∧ Moved editor editor.state front back after := by
  obtain ⟨before, isBefore⟩ := char_of_encodable
    fun code member => isText.codes code (List.mem_append_left back member)
  obtain ⟨here, isHere⟩ := char_of_encodable
    fun code member => isText.codes code (List.mem_append_right front member)
  have isCursor := isText.cursor
  have length := congrArg List.length isText.buffer
  rw [List.length_append] at length
  have unpackedFront : unpack editor.buffer 1 (editor.cursor - 1) = some front := by
    rw [isText.buffer]
    exact @unpack_part [] front back 1 _ rfl (by omega)
  have unpackedBack : unpack editor.buffer editor.cursor editor.buffer.length = some back := by
    have unpacked : unpack (front ++ back ++ []) editor.cursor editor.buffer.length = some back :=
      unpack_part isCursor (by omega)
    rwa [List.append_nil, ← isText.buffer] at unpacked
  refine ⟨{ editor with beforeCursor := before, atCursor := here }, ?_, ?_⟩
  · rw [Editor.render, Editor.start, unpackedFront, unpackedBack, Option.bind_some,
      Option.bind_some, isBefore, isHere]
    rfl
  · exact {
      isText with
      state := rfl, yank := rfl, tablist := rfl, tabix := rfl, history := rfl, stash := rfl }

/-- `move` to where the text is parted. -/
theorem move_moved {x : Int} (editor : Editor) (state : EditState)
    (isBuffer : editor.buffer = front ++ back) (isX : x = front.length + 1)
    (codes : ∀ code ∈ front ++ back, Encodable code)
    : ∃ after, editor.move .ircc x state = .ok after ∧ Moved editor state front back after := by
  have isText : TextAt { editor with cursor := x, state } front back := ⟨isBuffer, isX, codes⟩
  obtain ⟨after, rendered, moved⟩ := isText.render_moved
  exact ⟨after, rendered, { moved with }⟩

end Showing

-----------------------------------------------------------------------------------------
-- Words around the cursor
-----------------------------------------------------------------------------------------

section Words

variable {editor : Editor} {front back : List Int} {test : Int → Option Bool}

/-- A search to the left ends where its test can be made at every position, by induction on the
number of steps.
-/
theorem backWhile_total {most : Nat} {i : Int}
    (tests : ∀ j, 1 < j → j ≤ i → ∃ answer, test j = some answer)
    : ∃ j, Editor.backWhile test most i = some j := by
  induction most generalizing i with
  | zero => exact ⟨i, rfl⟩
  | succ most ih =>
      rw [Editor.backWhile]
      split
      · next inside =>
          obtain ⟨answer, isAnswer⟩ := tests i inside (Int.le_refl i)
          rw [isAnswer]
          cases answer with
          | true => exact ih fun j low high => tests j low (by omega)
          | false => exact ⟨i, rfl⟩
      · exact ⟨i, rfl⟩

/-- A search to the right ends where its test can be made at every position, by induction on
the number of steps.
-/
theorem onWhile_total {most : Nat} {n i : Int}
    (tests : ∀ j, i ≤ j → j ≤ n → ∃ answer, test j = some answer)
    : ∃ j, Editor.onWhile test n most i = some j := by
  induction most generalizing i with
  | zero => exact ⟨i, rfl⟩
  | succ most ih =>
      rw [Editor.onWhile]
      split
      · next inside =>
          obtain ⟨answer, isAnswer⟩ := tests i (Int.le_refl i) inside
          rw [isAnswer]
          cases answer with
          | true => exact ih fun j low high => tests j (by omega) high
          | false => exact ⟨i, rfl⟩
      · exact ⟨i, rfl⟩

/-- The text before the cursor is parted at the start of its last word. -/
theorem TextAt.searchPrevWord_parts (isText : TextAt editor front back) (p : Int → Bool)
    : ∃ before word, front = before ++ word
      ∧ editor.searchPrevWord p = some ((before.length : Int) + 1) := by
  have isCursor := isText.cursor
  have length := congrArg List.length isText.buffer
  rw [List.length_append] at length
  have found : ∃ j, editor.searchPrevWord p = some j := by
    rw [Editor.searchPrevWord]
    have begin : ∃ i, (if 1 < editor.cursor then editor.cursor - 1 else editor.cursor) = i
        ∧ 1 ≤ i ∧ i ≤ front.length + 1 ∧ (1 < i → i ≤ front.length) := by
      refine ⟨_, rfl, ?_⟩
      split <;> omega
    obtain ⟨i, isI, low, high, inside⟩ := begin
    obtain ⟨k, skipped⟩ := @backWhile_total (fun i => (get editor.buffer i).map (fun c => !p c))
      i.toNat i (by
        intro j above upTo
        obtain ⟨code, isCode⟩ := get_eq_some (t := editor.buffer) (i := j) (by omega) (by omega)
        exact ⟨_, by rw [isCode]; rfl⟩)
    have bounds := backWhile_bounds low skipped
    obtain ⟨j, isFound⟩ := @backWhile_total (fun i => (get editor.buffer (i - 1)).map p)
      k.toNat k (by
        intro j above upTo
        obtain ⟨code, isCode⟩ :=
          get_eq_some (t := editor.buffer) (i := j - 1) (by omega) (by omega)
        exact ⟨_, by rw [isCode]; rfl⟩)
    exact ⟨j, by simp only [isI, skipped, Option.bind_eq_bind, Option.bind_some, isFound]⟩
  obtain ⟨j, found⟩ := found
  obtain ⟨low, upTo⟩ := searchPrevWord_bounds (by omega) found
  refine ⟨front.take (j - 1).toNat, front.drop (j - 1).toNat,
    (List.take_append_drop _ _).symm, ?_⟩
  rw [found, List.length_take]
  congr 1
  omega

/-- The text from the cursor on is parted at the end of its first word. -/
theorem TextAt.searchNextWord_parts (isText : TextAt editor front back) (isalnum : Int → Bool)
    : ∃ word after, back = word ++ after
      ∧ editor.searchNextWord isalnum = some ((front.length : Int) + word.length + 1) := by
  have isCursor := isText.cursor
  have length := congrArg List.length isText.buffer
  rw [List.length_append] at length
  have found : ∃ j, editor.searchNextWord isalnum = some j := by
    rw [Editor.searchNextWord]
    split
    · refine onWhile_total fun j low high => ?_
      obtain ⟨c, isC⟩ := get_eq_some (t := editor.buffer) (i := j - 1) (by omega) (by omega)
      obtain ⟨d, isD⟩ := get_eq_some (t := editor.buffer) (i := j) (by omega) high
      rw [isC, isD]
      cases isAlnum : isalnum c with
      | true => exact ⟨isalnum d, by simp [isAlnum]⟩
      | false => exact ⟨true, by simp [isAlnum]⟩
    · exact ⟨editor.cursor, rfl⟩
  obtain ⟨j, found⟩ := found
  obtain ⟨low, upTo⟩ := searchNextWord_bounds (by omega) found
  refine ⟨back.take (j - editor.cursor).toNat, back.drop (j - editor.cursor).toNat,
    (List.take_append_drop _ _).symm, ?_⟩
  rw [found, List.length_take]
  congr 1
  omega

end Words

/-- A text with the cursor in the middle of a word. -/
def typed : Editor := { initial with buffer := [97, 98, 32, 99, 100], cursor := 5 }

/-- It is a text on both sides of the cursor. -/
theorem typed_textAt : TextAt typed [97, 98, 32, 99] [100] where
  buffer := rfl
  cursor := rfl
  codes := by
    intro code member
    have high : ∀ code ∈ typed.buffer, 0 ≤ code ∧ code ≤ 0x7fffffff := by decide
    exact high code member

end Snowcone.Editing
