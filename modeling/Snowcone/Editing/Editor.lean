import Snowcone.Foundations.LuaSequence
import Snowcone.Foundations.Utf8

/-! The line editors of the client and of the dashboard. -/

namespace Snowcone.Editing

open LuaSequence

/-- Which editor: the one of the dashboard scrolls. -/
inductive Variant where
  | ircc
  | dashboard
deriving DecidableEq

/-- What the last operation was part of. -/
inductive EditState where
  | edit
  | kill
  | tab
deriving DecidableEq

/-- The fields of an editor. -/
structure Editor where
  buffer : List Int
  history : List (List Int)
  cursor : Int
  first : Int
  retrospect : Option Int
  stash : Option (List Int)
  yank : List Int
  state : EditState
  tablist : Option (List (List Int))
  tabix : Option Int
  beforeCursor : Bytes
  atCursor : Bytes

/-- The functions of Penlight's `tablex` that editors use; those that change a table return
what becomes of it.
-/
structure Tablex where
  sub : List Int → Int → Int → List Int
  insertvalues : List Int → Int → List Int → List Int
  removevalues : List Int → Int → Int → List Int
  compareNoOrder : List Int → List Int → Bool

/-- What an operation can run into: an error, or a table that is no sequence any more. -/
inductive Trouble where
  | raised
  | hole
deriving DecidableEq

/-- A value that has to be there, or an error is raised. -/
def orRaise {α : Type} : Option α → Except Trouble α
  | some value => .ok value
  | none => .error .raised

/-- A table that has to be a sequence. -/
def orHole {α : Type} : Option α → Except Trouble α
  | some value => .ok value
  | none => .error .hole

section Operations

variable (variant : Variant) (lib : Tablex) (isalnum : Int → Bool)

namespace Editor

/-- The position from which on the buffer is shown. -/
def start (editor : Editor) : Int :=
  match variant with
  | .ircc => 1
  | .dashboard => editor.first

/-- `render` -/
def render (editor : Editor) : Except Trouble Editor := do
  let buffer := editor.buffer
  let before ← orRaise ((unpack buffer (editor.start variant) (editor.cursor - 1)).bind Utf8.char)
  let here ← orRaise ((unpack buffer editor.cursor buffer.length).bind Utf8.char)
  return { editor with beforeCursor := before, atCursor := here }

/-- `move` -/
def move (editor : Editor) (x : Int) (state : EditState) : Except Trouble Editor :=
  let first :=
    match variant with
    | .ircc => editor.first
    | .dashboard => if editor.first > x then x else editor.first
  render variant { editor with cursor := x, first, state }

/-- `overflow` -/
def overflow (editor : Editor) : Except Trouble Editor :=
  render variant { editor with first := max 1 (editor.cursor - 12) }

/-- `reset` -/
def reset (editor : Editor) : Except Trouble Editor :=
  move variant { editor with buffer := [], retrospect := none, stash := none } 1 .edit

/-- `move_to_beg` -/
def moveToBeg (editor : Editor) : Except Trouble Editor := editor.move variant 1 .edit

/-- `move_to_end` -/
def moveToEnd (editor : Editor) : Except Trouble Editor :=
  editor.move variant (editor.buffer.length + 1) .edit

/-- `move_left` -/
def moveLeft (editor : Editor) : Except Trouble Editor :=
  if editor.cursor > 1 then editor.move variant (editor.cursor - 1) .edit else return editor

/-- `move_right` -/
def moveRight (editor : Editor) : Except Trouble Editor :=
  if editor.cursor ≤ editor.buffer.length then editor.move variant (editor.cursor + 1) .edit
  else return editor

/-- `confirm` -/
def confirm (editor : Editor) : Except Trouble Editor := do
  if editor.history.getLast?.any (lib.compareNoOrder · editor.buffer) then editor.reset variant
  else
    let history ← orHole (set editor.history (editor.history.length + 1) editor.buffer)
    reset variant { editor with history }

/-- The buffer put back into the history, or its entry removed if the buffer is empty; and
whether the entry is still there.
-/
def leaveEntry (editor : Editor) (r : Int) : Except Trouble (List (List Int) × Bool) :=
  if (get editor.buffer 1).isSome then do
    let history ← orHole (set editor.history r editor.buffer)
    return (history, true)
  else do
    let history ← orRaise (remove editor.history r)
    return (history, false)

/-- `older_history` -/
def olderHistory (editor : Editor) : Except Trouble Editor := do
  match editor.retrospect with
  | some r =>
      if 1 < r then
        let (history, _) ← editor.leaveEntry r
        let buffer ← orRaise (get history (r - 1))
        moveToEnd variant { editor with history, buffer, retrospect := some (r - 1) }
      else return editor
  | none =>
      if (get editor.history 1).isSome then
        let r := editor.history.length
        let buffer ← orRaise (get editor.history r)
        moveToEnd variant
          { editor with buffer, stash := some editor.buffer, retrospect := some r }
      else return editor

/-- `newer_history` -/
def newerHistory (editor : Editor) : Except Trouble Editor := do
  match editor.retrospect with
  | none => return editor
  | some r =>
      let (history, stays) ← editor.leaveEntry r
      let r := if stays then r + 1 else r
      match get history r with
      | none =>
          let buffer ← orRaise editor.stash
          moveToEnd variant { editor with history, buffer, stash := none, retrospect := none }
      | some buffer => moveToEnd variant { editor with history, buffer, retrospect := some r }

/-- `while 1 < i and test(i) do i = i - 1 end`, at most so many times. -/
def backWhile (test : Int → Option Bool) : Nat → Int → Option Int
  | 0, i => some i
  | most + 1, i =>
      if 1 < i then do
        if ← test i then backWhile test most (i - 1) else some i
      else some i

/-- `while i <= n and test(i) do i = i + 1 end`, at most so many times. -/
def onWhile (test : Int → Option Bool) (n : Int) : Nat → Int → Option Int
  | 0, i => some i
  | most + 1, i =>
      if i ≤ n then do
        if ← test i then onWhile test n most (i + 1) else some i
      else some i

/-- `search_next_word` -/
def searchNextWord (editor : Editor) : Option Int :=
  let b := editor.buffer
  let i := editor.cursor
  let n := b.length
  if i ≤ n then
    onWhile (fun i => do
      if isalnum (← get b (i - 1)) then return isalnum (← get b i) else return true)
      n (n - i).toNat (i + 1)
  else some i

/-- `search_prev_word` -/
def searchPrevWord (p : Int → Bool) (editor : Editor) : Option Int := do
  let b := editor.buffer
  let i := if 1 < editor.cursor then editor.cursor - 1 else editor.cursor
  let i ← backWhile (fun i => (get b i).map (fun c => !p c)) i.toNat i
  backWhile (fun i => (get b (i - 1)).map p) i.toNat i

/-- `move_next_word` -/
def moveNextWord (editor : Editor) : Except Trouble Editor := do
  editor.move variant (← orRaise (editor.searchNextWord isalnum)) .edit

/-- `move_prev_word` -/
def movePrevWord (editor : Editor) : Except Trouble Editor := do
  editor.move variant (← orRaise (editor.searchPrevWord isalnum)) .edit

-----------------------------------------------------------------------------------------
-- Editing
-----------------------------------------------------------------------------------------

/-- `add` -/
def add (editor : Editor) (code : Int) : Except Trouble Editor := do
  let buffer ← orRaise (insert editor.buffer editor.cursor code)
  move variant { editor with buffer } (editor.cursor + 1) .edit

/-- `backspace` -/
def backspace (editor : Editor) : Except Trouble Editor := do
  let i := editor.cursor
  if 1 < i then
    let buffer ← orRaise (remove editor.buffer (i - 1))
    move variant { editor with buffer } (i - 1) .edit
  else return editor

/-- `delete` -/
def delete (editor : Editor) : Except Trouble Editor := do
  let buffer ← orRaise (remove editor.buffer editor.cursor)
  render variant { editor with buffer, state := .edit }

/-- `swap` -/
def swap (editor : Editor) : Except Trouble Editor := do
  let n := editor.buffer.length
  let i := editor.cursor
  if n > 1 then
    let i := if i = 1 then 3 else if i ≤ n then i + 1 else i
    let t ← orHole (get editor.buffer (i - 2))
    let u ← orHole (get editor.buffer (i - 1))
    let buffer ← orHole (set editor.buffer (i - 2) u)
    let buffer ← orHole (set buffer (i - 1) t)
    move variant { editor with buffer } i .edit
  else return editor

/-- `hexdigits` -/
def hexdigits (code : Int) : Option Int :=
  if 48 ≤ code ∧ code ≤ 57 then some (code - 48)
  else if 65 ≤ code ∧ code ≤ 70 then some (code - 55)
  else if 97 ≤ code ∧ code ≤ 102 then some (code - 87)
  else none

/-- The value of hexadecimal digits, in the arithmetic of 64 bits. -/
def hexValue (digits : List Int) : Option Int :=
  digits.foldlM (fun acc code => (hexdigits code).map (fun digit =>
    (16 * acc + digit).bmod 0x10000000000000000)) 0

/-- The loop of `hexinput` for `x` and digits, at most so many times. -/
def hexLoop (editor : Editor) (last : Int) : Nat → Int → Except Trouble Editor
  | 0, _ => .ok editor
  | most + 1, first => do
      let b := editor.buffer
      if 1 < first then
        if get b (first - 1) = some 120 then
          let acc ← orRaise ((unpack b first last).bind hexValue)
          if acc = 0 ∨ acc = 10 ∨ acc = 13 ∨ acc > 0x10ffff then return editor
          else
            let buffer ← orHole (set (lib.removevalues b first last) (first - 1) acc)
            move variant { editor with buffer } first .edit
        else if ((get b (first - 1)).bind hexdigits).isSome then
          hexLoop editor last most (first - 1)
        else return editor
      else return editor

/-- `hexinput` -/
def hexinput (editor : Editor) : Except Trouble Editor := do
  let b := editor.buffer
  let last := editor.cursor - 1
  let search := editor.hexLoop variant lib last last.toNat last
  if 1 < last ∧ get b (last - 1) = some 0x5e then
    let c ← orRaise (get b last)
    if 0x41 ≤ c ∧ c ≤ 0x5f ∧ c ≠ 10 ∧ c ≠ 13 then
      let b ← orHole (set b (last - 1) (c - 0x40))
      let buffer ← orRaise (remove b last)
      move variant { editor with buffer } last .edit
    else search
  else search

/-- `add_yank_left` -/
def addYankLeft (editor : Editor) (lo hi : Int) : Editor :=
  let t := lib.sub editor.buffer lo hi
  if editor.state = .kill then { editor with yank := lib.insertvalues editor.yank 1 t }
  else { editor with yank := t, state := .kill }

/-- `kill_to_beg` -/
def killToBeg (editor : Editor) : Except Trouble Editor :=
  let editor := editor.addYankLeft lib 1 (editor.cursor - 1)
  move variant { editor with buffer := lib.sub editor.buffer editor.cursor (-1) } 1 .kill

/-- `kill_to_end`; `table.move` appends what is moved behind the yank. -/
def killToEnd (editor : Editor) : Except Trouble Editor := do
  let yank ←
    if editor.state = .kill then do
      let moved ← orHole (unpack editor.buffer editor.cursor editor.buffer.length)
      pure (editor.yank ++ moved)
    else pure (lib.sub editor.buffer editor.cursor (-1))
  let buffer := lib.removevalues editor.buffer editor.cursor (-1)
  render variant { editor with yank, state := .kill, buffer }

/-- `kill_prev_word` -/
def killPrevWord (editor : Editor) : Except Trouble Editor := do
  let i ← orRaise (editor.searchPrevWord isalnum)
  let j := editor.cursor - 1
  let editor := editor.addYankLeft lib i j
  move variant { editor with buffer := lib.removevalues editor.buffer i j } i .kill

/-- `kill_next_word` -/
def killNextWord (editor : Editor) : Except Trouble Editor := do
  let i := editor.cursor
  let j := (← orRaise (editor.searchNextWord isalnum)) - 1
  let region := lib.sub editor.buffer i j
  let buffer := lib.removevalues editor.buffer i j
  let yank :=
    if editor.state = .kill then lib.insertvalues editor.yank (editor.yank.length + 1) region
    else region
  move variant { editor with buffer, yank } i .kill

/-- `paste` -/
def paste (editor : Editor) : Except Trouble Editor :=
  move variant
    { editor with buffer := lib.insertvalues editor.buffer editor.cursor editor.yank }
    (editor.cursor + editor.yank.length) .edit

/-- The part of `tab` that puts the selected completion in place of the text from `i` on. -/
def complete (editor : Editor) (tablist : List (List Int)) (tabix : Option Int) (i : Int)
    : Except Trouble Editor := do
  let buffer := lib.removevalues editor.buffer i (editor.cursor - 1)
  let new ← orRaise (tabix.bind (get tablist))
  move variant
    { editor with buffer := lib.insertvalues buffer i new, tablist := some tablist, tabix }
    (i + new.length) .tab

/-- `tab`; `mklist` returns the index and the list, or raises an error. -/
def tab (editor : Editor) (dir : Int)
    (mklist : Bytes → Bytes → Option (Option Int × Option (List Bytes)))
    : Except Trouble Editor := do
  let cur := editor.cursor
  if editor.state = .tab then
    let tabix ← orRaise editor.tabix
    let tablist ← orRaise editor.tablist
    if tablist = [] then .error .raised
    else
      let next := (tabix + dir - 1).bmod 0x10000000000000000 % tablist.length + 1
      let old ← orRaise (get tablist tabix)
      editor.complete variant lib tablist (some next) (cur - old.length)
  else
    let i ← orRaise (editor.searchPrevWord (fun c => c != 32))
    let starting ← orRaise ((unpack editor.buffer 1 (i - 1)).bind Utf8.char)
    let seed ← orRaise ((unpack editor.buffer i (cur - 1)).bind Utf8.char)
    match ← orRaise (mklist starting seed) with
    | (tabix, none) => return { editor with tabix, tablist := none }
    | (tabix, some texts) =>
        let tablist ← orRaise (texts.mapM Utf8.codepoint)
        editor.complete variant lib tablist tabix i

end Editor

-----------------------------------------------------------------------------------------
-- Runs
-----------------------------------------------------------------------------------------

/-- An operation of an editor. -/
inductive Operation where
  | add (code : Int)
  | backspace
  | delete
  | moveToBeg
  | moveToEnd
  | moveLeft
  | moveRight
  | moveNextWord
  | movePrevWord
  | swap
  | hexinput
  | killToBeg
  | killToEnd
  | killPrevWord
  | killNextWord
  | paste
  | tab (dir : Int) (mklist : Bytes → Bytes → Option (Option Int × Option (List Bytes)))
  | olderHistory
  | newerHistory
  | confirm
  | reset
  | overflow

/-- An operation on an editor: `hexinput` is only there in the client, and `overflow` only in
the dashboard.
-/
def perform (editor : Editor) : Operation → Except Trouble Editor
  | .add code => editor.add variant code
  | .backspace => editor.backspace variant
  | .delete => editor.delete variant
  | .moveToBeg => editor.moveToBeg variant
  | .moveToEnd => editor.moveToEnd variant
  | .moveLeft => editor.moveLeft variant
  | .moveRight => editor.moveRight variant
  | .moveNextWord => editor.moveNextWord variant isalnum
  | .movePrevWord => editor.movePrevWord variant isalnum
  | .swap => editor.swap variant
  | .hexinput => if variant = .ircc then editor.hexinput variant lib else .error .raised
  | .killToBeg => editor.killToBeg variant lib
  | .killToEnd => editor.killToEnd variant lib
  | .killPrevWord => editor.killPrevWord variant lib isalnum
  | .killNextWord => editor.killNextWord variant lib isalnum
  | .paste => editor.paste variant lib
  | .tab dir mklist => editor.tab variant lib dir mklist
  | .olderHistory => editor.olderHistory variant
  | .newerHistory => editor.newerHistory variant
  | .confirm => editor.confirm variant lib
  | .reset => editor.reset variant
  | .overflow => if variant = .dashboard then editor.overflow variant else .error .raised

/-- One step of a run: an operation that raises an error counts as not changing the editor, and
there is no step to an editor with a table that is no sequence.
-/
def step (editor : Editor) (operation : Operation) : Option Editor :=
  match perform variant lib isalnum editor operation with
  | .ok editor => some editor
  | .error .raised => some editor
  | .error .hole => none

/-- `_init` -/
def initial : Editor where
  buffer := []
  history := []
  cursor := 1
  first := 1
  retrospect := none
  stash := none
  yank := []
  state := .edit
  tablist := none
  tabix := none
  beforeCursor := []
  atCursor := []

end Operations

end Snowcone.Editing
