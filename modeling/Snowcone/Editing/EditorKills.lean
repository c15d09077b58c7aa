import Snowcone.Editing.EditorText

/-! What consecutive kill operations collect is one piece of the text, in its order, and pasting
it brings the text back.
-/

namespace Snowcone.Editing

open LuaSequence

/-- An operation that kills text. -/
inductive Kill where
  | toBeg
  | toEnd
  | prevWord
  | nextWord
deriving DecidableEq

/-- A kill as an operation of the editor. -/
def Kill.operation : Kill → Operation
  | .toBeg => .killToBeg
  | .toEnd => .killToEnd
  | .prevWord => .killPrevWord
  | .nextWord => .killNextWord

/-- Kills one after the other; an error that one of them raises is the outcome. -/
def kills (lib : Tablex) (isalnum : Int → Bool) (editor : Editor) (kills : List Kill)
    : Except Trouble Editor :=
  kills.foldlM (fun editor kill => perform .ircc lib isalnum editor kill.operation) editor

/-- What the kills before have collected; a kill after anything else begins anew. -/
def Editor.killed (editor : Editor) : List Int := if editor.state = .kill then editor.yank else []

/-- Some kills have been made, and with what they collected put back there is the original
text.
-/
structure Killing (editor : Editor) (original front back : List Int) : Prop
    extends TextAt editor front back where
  state : editor.state = .kill
  original : front ++ editor.yank ++ back = original

section Kills

variable {lib : Tablex} {isalnum : Int → Bool} {editor : Editor}
  {original front back before part after : List Int}

/-- A part of a text has no other codes. -/
theorem encodable_of_sublist {text : List Int} (codes : ∀ code ∈ text, Encodable code)
    (sublist : part.Sublist text)
    : ∀ code ∈ part, Encodable code :=
  fun code member => codes code (sublist.subset member)

/-- `add_yank_left` puts a part of the buffer before what has been killed. -/
theorem addYankLeft_part (documented : lib.Documented) {lo hi : Int}
    (isBuffer : editor.buffer = before ++ part ++ after) (isLow : lo = before.length + 1)
    (isHigh : hi + 1 = lo + part.length)
    : editor.addYankLeft lib lo hi
      = { editor with yank := part ++ editor.killed, state := .kill } := by
  have isPart : lib.sub editor.buffer lo hi = part := by
    rw [isBuffer]
    exact documented.sub_part isLow isHigh
  rw [Editor.addYankLeft, Editor.killed, isPart]
  split
  · next isKill =>
      have inserted : lib.insertvalues editor.yank 1 part = part ++ editor.yank :=
        @Tablex.Documented.insertvalues_part lib [] part editor.yank 1 documented rfl
      rw [inserted, ← isKill]
  · rw [List.append_nil]

/-- `kill_to_beg` puts the text before the cursor before what has been killed. -/
theorem killToBeg_killing (documented : lib.Documented) (isText : TextAt editor front back)
    : ∃ killed, editor.killToBeg .ircc lib = .ok killed
      ∧ Killing killed (front ++ editor.killed ++ back) [] back := by
  have isCursor := isText.cursor
  have added : editor.addYankLeft lib 1 (editor.cursor - 1)
      = { editor with yank := front ++ editor.killed, state := .kill } :=
    @addYankLeft_part lib editor [] front back documented 1 _ isText.buffer rfl (by omega)
  have rest : lib.sub editor.buffer editor.cursor (-1) = back := by
    rw [isText.buffer]
    exact documented.sub_rest isCursor
  have codes : ∀ code ∈ [] ++ back, Encodable code :=
    encodable_of_sublist isText.codes (List.sublist_append_right front back)
  obtain ⟨killed, moves, moved⟩ := @move_moved [] back 1
    { editor with yank := front ++ editor.killed, state := .kill, buffer := back } .kill
    rfl rfl codes
  refine ⟨killed, ?_, { moved with original := ?_ }⟩
  · rw [Editor.killToBeg, added, rest]
    exact moves
  · rw [moved.yank, List.nil_append]

/-- `kill_to_end` puts the text from the cursor on behind what has been killed. -/
theorem killToEnd_killing (documented : lib.Documented) (isText : TextAt editor front back)
    : ∃ killed, editor.killToEnd .ircc lib = .ok killed
      ∧ Killing killed (front ++ editor.killed ++ back) front [] := by
  have isCursor := isText.cursor
  have length := congrArg List.length isText.buffer
  rw [List.length_append] at length
  have kept : lib.removevalues editor.buffer editor.cursor (-1) = front := by
    rw [isText.buffer]
    exact documented.removevalues_rest isCursor
  have codes : ∀ code ∈ front ++ [], Encodable code := by
    rw [List.append_nil]
    exact encodable_of_sublist isText.codes (List.sublist_append_left front back)
  have isRest : TextAt { editor with
      yank := editor.killed ++ back, state := .kill, buffer := front } front [] :=
    ⟨(List.append_nil front).symm, isCursor, codes⟩
  obtain ⟨killed, renders, moved⟩ := isRest.render_moved
  refine ⟨killed, ?_, { moved with original := ?_ }⟩
  · rw [Editor.killToEnd, kept]
    rw [Editor.killed] at renders
    split
    · next isKill =>
        have appended : unpack (front ++ back ++ []) editor.cursor editor.buffer.length
            = some back :=
          unpack_part isCursor (by omega)
        rw [List.append_nil, ← isText.buffer] at appended
        rw [if_pos isKill] at renders
        rw [appended]
        exact renders
    · next notKill =>
        have rest : lib.sub editor.buffer editor.cursor (-1) = back := by
          rw [isText.buffer]
          exact documented.sub_rest isCursor
        rw [if_neg notKill] at renders
        rw [rest]
        exact renders
  · rw [moved.yank, List.append_nil, List.append_assoc]

/-- `kill_prev_word` puts the word before the cursor before what has been killed. -/
theorem killPrevWord_killing (documented : lib.Documented) (isText : TextAt editor front back)
    : ∃ killed before, editor.killPrevWord .ircc lib isalnum = .ok killed
      ∧ Killing killed (front ++ editor.killed ++ back) before back := by
  obtain ⟨before, word, rfl, found⟩ := isText.searchPrevWord_parts isalnum
  have isCursor := isText.cursor
  rw [List.length_append] at isCursor
  have added := @addYankLeft_part lib editor before word back documented
    (before.length + 1) (editor.cursor - 1) isText.buffer rfl (by omega)
  have removed : lib.removevalues editor.buffer (before.length + 1) (editor.cursor - 1)
      = before ++ back := by
    rw [isText.buffer]
    exact documented.removevalues_part rfl (by omega)
  have codes := encodable_of_sublist isText.codes
    ((List.sublist_append_left before word).append (List.Sublist.refl back))
  obtain ⟨killed, moves, moved⟩ := @move_moved before back (before.length + 1)
    { editor with yank := word ++ editor.killed, state := .kill, buffer := before ++ back } .kill
    rfl rfl codes
  refine ⟨killed, before, ?_, { moved with original := ?_ }⟩
  · rw [← moves, ← removed, Editor.killPrevWord, found, orRaise_bind]
    dsimp only
    rw [added]
  · rw [moved.yank]
    simp only [List.append_assoc]

/-- `kill_next_word` puts the word behind the cursor behind what has been killed. -/
theorem killNextWord_killing (documented : lib.Documented) (isText : TextAt editor front back)
    : ∃ killed after, editor.killNextWord .ircc lib isalnum = .ok killed
      ∧ Killing killed (front ++ editor.killed ++ back) front after := by
  obtain ⟨word, after, rfl, found⟩ := isText.searchNextWord_parts isalnum
  have isCursor := isText.cursor
  have isBuffer : editor.buffer = front ++ word ++ after := by
    rw [isText.buffer, List.append_assoc]
  have region : lib.sub editor.buffer editor.cursor (front.length + word.length + 1 - 1)
      = word := by
    rw [isBuffer]
    exact documented.sub_part isCursor (by omega)
  have removed : lib.removevalues editor.buffer editor.cursor (front.length + word.length + 1 - 1)
      = front ++ after := by
    rw [isBuffer]
    exact documented.removevalues_part isCursor (by omega)
  have collected : (if editor.state = .kill
      then lib.insertvalues editor.yank (editor.yank.length + 1) word else word)
      = editor.killed ++ word := by
    rw [Editor.killed]
    split
    · have inserted : lib.insertvalues (editor.yank ++ []) (editor.yank.length + 1) word
          = editor.yank ++ word ++ [] :=
        documented.insertvalues_part rfl
      rwa [List.append_nil, List.append_nil] at inserted
    · rfl
  have codes := encodable_of_sublist isText.codes
    ((List.Sublist.refl front).append (List.sublist_append_right word after))
  obtain ⟨killed, moves, moved⟩ := @move_moved front after editor.cursor
    { editor with yank := editor.killed ++ word, buffer := front ++ after } .kill
    rfl isCursor codes
  refine ⟨killed, after, ?_, { moved with original := ?_ }⟩
  · rw [← moves, ← removed, ← collected, Editor.killNextWord, found, orRaise_bind]
    dsimp only
    rw [region]
  · rw [moved.yank]
    simp only [List.append_assoc]

/-- A kill takes one more piece from beside of what has been killed. -/
theorem kill_killing (isalnum : Int → Bool) (documented : lib.Documented)
    (isText : TextAt editor front back) (kill : Kill)
    : ∃ killed before after, perform .ircc lib isalnum editor kill.operation = .ok killed
      ∧ Killing killed (front ++ editor.killed ++ back) before after := by
  cases kill with
  | toBeg =>
      obtain ⟨killed, kills, killing⟩ := killToBeg_killing documented isText
      exact ⟨killed, [], back, kills, killing⟩
  | toEnd =>
      obtain ⟨killed, kills, killing⟩ := killToEnd_killing documented isText
      exact ⟨killed, front, [], kills, killing⟩
  | prevWord =>
      obtain ⟨killed, before, kills, killing⟩ := killPrevWord_killing documented isText
      exact ⟨killed, before, back, kills, killing⟩
  | nextWord =>
      obtain ⟨killed, after, kills, killing⟩ := killNextWord_killing documented isText
      exact ⟨killed, front, after, kills, killing⟩

/-- Further kills keep what has been killed one piece of the original text, by induction on
the kills.
-/
theorem Killing.kills (documented : lib.Documented) (killing : Killing editor original front back)
    (more : List Kill)
    : ∃ killed before after, kills lib isalnum editor more = .ok killed
      ∧ Killing killed original before after := by
  induction more generalizing editor front back with
  | nil => exact ⟨editor, front, back, rfl, killing⟩
  | cons kill more ih =>
      obtain ⟨middle, before, after, first, isKilling⟩ :=
        kill_killing isalnum documented killing.toTextAt kill
      have soFar : editor.killed = editor.yank := if_pos killing.state
      rw [soFar, killing.original] at isKilling
      obtain ⟨killed, start, rest, later, isLast⟩ := ih isKilling
      refine ⟨killed, start, rest, ?_, isLast⟩
      rw [Editing.kills, List.foldlM_cons, first]
      exact later

/-- `paste` puts the yank text back behind what is before the cursor. -/
theorem paste_killed (documented : lib.Documented) (killing : Killing editor original front back)
    (codes : ∀ code ∈ original, Encodable code)
    : ∃ pasted, editor.paste .ircc lib = .ok pasted
      ∧ TextAt pasted (front ++ editor.yank) back := by
  have inserted : lib.insertvalues editor.buffer editor.cursor editor.yank
      = front ++ editor.yank ++ back := by
    rw [killing.buffer]
    exact documented.insertvalues_part killing.cursor
  have isCursor := killing.cursor
  have allCodes : ∀ code ∈ front ++ editor.yank ++ back, Encodable code := by
    rw [killing.original]
    exact codes
  obtain ⟨pasted, moves, moved⟩ := @move_moved (front ++ editor.yank) back
    (editor.cursor + editor.yank.length)
    { editor with buffer := front ++ editor.yank ++ back } .edit rfl
    (by rw [List.length_append]; omega) allCodes
  exact ⟨pasted, by rw [Editor.paste, inserted, moves], moved.toTextAt⟩

/-- Any kills one after the other collect one piece of the text, in its order, and leave what
was before it and behind it; pasting the piece gives the original text, with the cursor behind
the piece.
-/
theorem kills_then_paste (documented : lib.Documented) (isText : TextAt editor front back)
    (notKill : editor.state ≠ .kill) (kill : Kill) (more : List Kill)
    : ∃ killed before after, kills lib isalnum editor (kill :: more) = .ok killed
      ∧ TextAt killed before after
      ∧ editor.buffer = before ++ killed.yank ++ after
      ∧ ∃ pasted, killed.paste .ircc lib = .ok pasted
        ∧ pasted.buffer = editor.buffer
        ∧ pasted.cursor = before.length + killed.yank.length + 1 := by
  obtain ⟨middle, start, rest, first, killing⟩ :=
    kill_killing isalnum documented isText kill
  have soFar : editor.killed = [] := if_neg notKill
  rw [soFar, List.append_nil] at killing
  obtain ⟨killed, before, after, later, isLast⟩ := killing.kills documented more
  obtain ⟨pasted, pastes, isPasted⟩ := paste_killed documented isLast isText.codes
  refine ⟨killed, before, after, ?_, isLast.toTextAt, ?_, pasted, pastes, ?_, ?_⟩
  · rw [kills, List.foldlM_cons, first]
    exact later
  · rw [isText.buffer, isLast.original]
  · rw [isPasted.buffer, isLast.original, isText.buffer]
  · rw [isPasted.cursor, List.length_append]
    rfl

/-- Witness: the start of a word is killed, then what is behind it and what is before it. -/
theorem kills_then_paste_witness
    : penlight.Documented ∧ typed.state ≠ .kill
      ∧ ∃ killed before after,
        kills penlight (fun c => c != 32) typed [.prevWord, .toEnd, .toBeg] = .ok killed
        ∧ TextAt killed before after
        ∧ typed.buffer = before ++ killed.yank ++ after
        ∧ ∃ pasted, killed.paste .ircc penlight = .ok pasted
          ∧ pasted.buffer = typed.buffer
          ∧ pasted.cursor = before.length + killed.yank.length + 1 :=
  ⟨penlight_documented, nofun,
    kills_then_paste penlight_documented typed_textAt nofun .prevWord [.toEnd, .toBeg]⟩

end Kills

end Snowcone.Editing
