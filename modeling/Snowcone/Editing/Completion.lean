import Mathlib.Algebra.Ring.Int.Defs
import Snowcone.Editing.EditorCodes

/-! Completing a word with `tab`: further tabs change nothing but the word, and go through the
list of completions in a circle.
-/

namespace Snowcone.Editing

open LuaSequence

/-- What `tab` asks for the list of completions. -/
abbrev MakeList := Bytes → Bytes → Option (Option Int × Option (List Bytes))

/-- Tabs one after the other, each with its direction; an error that one of them raises is the
outcome.
-/
def tabs (lib : Tablex) (editor : Editor) (calls : List (Int × MakeList))
    : Except Trouble Editor :=
  calls.foldlM (fun editor call => editor.tab .ircc lib call.1 call.2) editor

/-- An element of the list of completions stands directly before the cursor. -/
structure Completing (editor : Editor) (words : List (List Int)) (index : Int)
    (before word after : List Int) : Prop where
  tablist : editor.tablist = some words
  tabix : editor.tabix = some index
  selected : get words index = some word
  buffer : editor.buffer = before ++ word ++ after
  cursor : editor.cursor = before.length + word.length + 1

section Completions

variable {lib : Tablex} {editor : Editor} {words : List (List Int)} {index : Int}
  {front back before word after new : List Int}

/-- The position after some steps in a circle. -/
theorem circle_step (index dir : Int) (n : Nat) (more : Int)
    : ((index - 1 + dir) % n + 1 - 1 + more) % n = (index - 1 + (dir + more)) % n := by
  have shifted : (index - 1 + dir) % n + 1 - 1 + more = (index - 1 + dir) % n + more := by omega
  rw [shifted, Int.emod_add_emod]
  congr 1
  omega

/-- `complete` puts an element of the list in the place of the text before the cursor. -/
theorem complete_replaces (documented : lib.Documented)
    (isBuffer : editor.buffer = before ++ word ++ after)
    (isCursor : editor.cursor = before.length + word.length + 1)
    (selected : get words index = some new)
    : editor.complete .ircc lib words (some index) (before.length + 1)
      = Editor.move .ircc { editor with
          buffer := before ++ new ++ after, tablist := some words, tabix := some index }
        (before.length + 1 + new.length) .tab := by
  have removed : lib.removevalues editor.buffer (before.length + 1) (editor.cursor - 1)
      = before ++ after := by
    rw [isBuffer]
    exact documented.removevalues_part rfl (by omega)
  have inserted : lib.insertvalues (before ++ after) (before.length + 1) new
      = before ++ new ++ after :=
    documented.insertvalues_part rfl
  rw [Editor.complete, Option.bind_some, selected, orRaise_bind, removed, inserted]

/-- Where its codes can be written, the element stands before the cursor then. -/
theorem complete_completing (documented : lib.Documented)
    (isText : TextAt editor (before ++ word) after) (selected : get words index = some new)
    (codes : ∀ code ∈ new, Encodable code)
    : ∃ editor', editor.complete .ircc lib words (some index) (before.length + 1) = .ok editor'
      ∧ editor'.state = .tab ∧ Completing editor' words index before new after
      ∧ TextAt editor' (before ++ new) after := by
  have isCursor := isText.cursor
  rw [List.length_append] at isCursor
  have others := isText.codes
  have allCodes : ∀ code ∈ before ++ new ++ after, Encodable code := by
    intro code member
    simp only [List.mem_append] at member others
    rcases member with (isBefore | isNew) | isAfter
    · exact others code (.inl (.inl isBefore))
    · exact codes code isNew
    · exact others code (.inr isAfter)
  obtain ⟨editor', moves, moved⟩ := @move_moved (before ++ new) after
    (before.length + 1 + new.length)
    { editor with buffer := before ++ new ++ after, tablist := some words, tabix := some index }
    .tab rfl (by rw [List.length_append]; omega) allCodes
  refine ⟨editor', ?_, moved.state, ?_, moved.toTextAt⟩
  · rw [complete_replaces documented isText.buffer (by omega) selected, moves]
  · have isLast := moved.cursor
    rw [List.length_append] at isLast
    exact ⟨moved.tablist, moved.tabix, selected, moved.buffer, by omega⟩

/-- A further tab puts the next element in the place of the one before the cursor. -/
theorem tab_again (editor : Editor) (dir : Int) (mklist : MakeList) (isTab : editor.state = .tab)
    (completing : Completing editor words index before word after)
    : editor.tab .ircc lib dir mklist
      = editor.complete .ircc lib words
        (some ((index + dir - 1).bmod 0x10000000000000000 % words.length + 1))
        (before.length + 1) := by
  have some : words ≠ [] := by
    rintro rfl
    have bounds := bounds_of_get completing.selected
    simp only [List.length_nil] at bounds
    omega
  have isStart : editor.cursor - word.length = before.length + 1 := by
    rw [completing.cursor]
    omega
  rw [Editor.tab, if_pos isTab, completing.tabix, completing.tablist]
  change (if words = [] then _ else
    orRaise (get words index) >>= fun old => editor.complete _ _ _ _ (editor.cursor - old.length))
    = _
  rw [if_neg some, completing.selected, orRaise_bind, isStart]

/-- Further tabs go through the list in a circle, by induction on the tabs. -/
theorem tabs_again (documented : lib.Documented) (later : List (Int × MakeList))
    (steps : ∀ call ∈ later, call.1 = 1 ∨ call.1 = -1)
    (small : words.length < 0x8000000000000000)
    (codes : ∀ word ∈ words, ∀ code ∈ word, Encodable code)
    (isTab : editor.state = .tab) (completing : Completing editor words index before word after)
    (isText : TextAt editor (before ++ word) after)
    : ∃ editor' new, tabs lib editor later = .ok editor'
      ∧ get words ((index - 1 + (later.map Prod.fst).sum) % words.length + 1) = some new
      ∧ TextAt editor' (before ++ new) after := by
  have bounds := bounds_of_get completing.selected
  induction later generalizing editor index word with
  | nil =>
      refine ⟨editor, word, rfl, ?_, isText⟩
      rw [List.map_nil, List.sum_nil, Int.add_zero, Int.emod_eq_of_lt (by omega) (by omega),
        Int.sub_add_cancel, completing.selected]
  | cons call later ih =>
      obtain ⟨dir, mklist⟩ := call
      obtain ⟨isStep, others⟩ := List.forall_mem_cons.mp steps
      have small' : (index + dir - 1).bmod 0x10000000000000000 = index - 1 + dir := by
        rw [Int.bmod_eq_iff (by decide)]
        omega
      have nonneg := Int.emod_nonneg (index - 1 + dir)
        (show (words.length : Int) ≠ 0 by omega)
      have below := Int.emod_lt_of_pos (index - 1 + dir) (show (0 : Int) < words.length by omega)
      obtain ⟨new, selected⟩ := get_eq_some (t := words)
        (i := (index - 1 + dir) % words.length + 1) (by omega) (by omega)
      obtain ⟨middle, completes, isTab', completing', isText'⟩ := complete_completing documented
        isText selected (codes new (mem_of_get selected))
      obtain ⟨editor', last, tabs', isLast, isText''⟩ :=
        ih others isTab' completing' isText' (by omega)
      refine ⟨editor', last, ?_, ?_, isText''⟩
      · rw [tabs, List.foldlM_cons, tab_again editor dir mklist isTab completing, small', completes]
        exact tabs'
      · rw [circle_step] at isLast
        exact isLast

/-- A list has as many elements as what they are mapped to, by induction on the list. -/
theorem length_of_mapM {α β : Type} {f : α → Option β} {list : List α} {values : List β}
    (isValues : list.mapM f = some values)
    : values.length = list.length := by
  induction list generalizing values with
  | nil =>
      obtain rfl := Option.some.inj isValues
      rfl
  | cons first list ih =>
      rw [List.mapM_cons] at isValues
      obtain ⟨value, -, isValues⟩ := Option.bind_eq_some_iff.mp isValues
      obtain ⟨rest, isRest, isValues⟩ := Option.bind_eq_some_iff.mp isValues
      obtain rfl := Option.some.inj isValues
      rw [List.length_cons, List.length_cons, ih isRest]

/-- A code that `utf8.codepoint` reads can be written. -/
theorem decode_encodable {text rest : Bytes} {code : Nat}
    (decoded : Utf8.decode text = some (code, rest))
    : Encodable code := by
  cases text with
  | nil => cases decoded
  | cons c text =>
      rw [Utf8.decode] at decoded
      split at decoded
      · next isAscii =>
          obtain ⟨rfl, rfl⟩ := Prod.mk.inj (Option.some.inj decoded)
          have small := UInt8.lt_iff_toNat_lt.mp isAscii
          exact ⟨by omega, by change c.toNat < 128 at small; omega⟩
      · split at decoded
        · cases decoded
        · dsimp only at decoded
          split at decoded
          · cases decoded
          · split at decoded
            · cases decoded
            · next inRange =>
                obtain ⟨rfl, rfl⟩ := Prod.mk.inj (Option.some.inj decoded)
                exact ⟨by omega, by omega⟩

/-- The codes that `utf8.codepoint` reads can be written, by induction on their number. -/
theorem codesOf_encodable {most : Nat} {text : Bytes} {codes : List Int}
    (isCodes : Utf8.codesOf most text = some codes)
    : ∀ code ∈ codes, Encodable code := by
  induction most generalizing text codes with
  | zero =>
      cases text with
      | nil =>
          obtain rfl := Option.some.inj isCodes
          nofun
      | cons c text => cases isCodes
  | succ most ih =>
      cases text with
      | nil =>
          obtain rfl := Option.some.inj isCodes
          nofun
      | cons c text =>
          simp only [Utf8.codesOf] at isCodes
          split at isCodes
          · cases isCodes
          · next code rest decoded =>
              obtain ⟨later, isLater, rfl⟩ := Option.map_eq_some_iff.mp isCodes
              exact List.forall_mem_cons.mpr ⟨decode_encodable decoded, ih isLater⟩

/-- The words of a list of completions can be written. -/
theorem words_encodable {texts : List Bytes} (isWords : texts.mapM Utf8.codepoint = some words)
    : ∀ word ∈ words, ∀ code ∈ word, Encodable code :=
  @good_codepoints Encodable _ _ (fun _ _ _ isCodes => codesOf_encodable isCodes) isWords

/-- A first tab asks for the completions of the word before the cursor. -/
theorem tab_first (lib : Tablex) (isText : TextAt editor front back)
    (notTab : editor.state ≠ .tab) (dir : Int) (mklist : MakeList)
    : ∃ before word starting seed, front = before ++ word
      ∧ editor.searchPrevWord (fun c => c != 32) = some ((before.length : Int) + 1)
      ∧ Utf8.char before = some starting ∧ Utf8.char word = some seed
      ∧ ∀ index texts, mklist starting seed = some (index, some texts)
        → editor.tab .ircc lib dir mklist
          = orRaise (texts.mapM Utf8.codepoint) >>= fun words =>
            editor.complete .ircc lib words index (before.length + 1) := by
  obtain ⟨before, word, rfl, found⟩ := isText.searchPrevWord_parts (fun c => c != 32)
  have isCursor := isText.cursor
  have isBuffer := isText.buffer
  have codes := isText.codes
  rw [List.length_append] at isCursor
  have beforeCodes : ∀ code ∈ before, Encodable code :=
    fun code member => codes code (by simp [member])
  have wordCodes : ∀ code ∈ word, Encodable code :=
    fun code member => codes code (by simp [member])
  obtain ⟨starting, isStarting⟩ := char_of_encodable beforeCodes
  obtain ⟨seed, isSeed⟩ := char_of_encodable wordCodes
  refine ⟨before, word, starting, seed, rfl, found, isStarting, isSeed, ?_⟩
  intro index texts isList
  have unpackedBefore : unpack editor.buffer 1 ((before.length : Int) + 1 - 1) = some before := by
    rw [isBuffer, List.append_assoc]
    exact @unpack_part [] before (word ++ back) 1 _ rfl (by omega)
  have unpackedWord : unpack editor.buffer ((before.length : Int) + 1) (editor.cursor - 1)
      = some word := by
    rw [isBuffer]
    exact unpack_part rfl (by omega)
  rw [Editor.tab, if_neg notTab, found, orRaise_bind, unpackedBefore, unpackedWord,
    Option.bind_some, Option.bind_some, isStarting, isSeed, orRaise_bind, orRaise_bind, isList]
  rfl

/-- Tabs without another operation between them: the first one asks for the completions of the
word before the cursor and puts the one at the given index in its place, or raises an error where
one of them is no UTF-8; the further ones go on in a circle. What is before the word and behind
the cursor stays.
-/
theorem tabs_complete (documented : lib.Documented) (isText : TextAt editor front back)
    (notTab : editor.state ≠ .tab) (dir : Int) (mklist : MakeList)
    (later : List (Int × MakeList)) (steps : ∀ call ∈ later, call.1 = 1 ∨ call.1 = -1)
    : ∃ before word starting seed, front = before ++ word
      ∧ editor.searchPrevWord (fun c => c != 32) = some ((before.length : Int) + 1)
      ∧ Utf8.char before = some starting ∧ Utf8.char word = some seed
      ∧ ∀ index texts, mklist starting seed = some (some index, some texts)
        → 1 ≤ index → index ≤ texts.length → texts.length < 0x8000000000000000
        → (texts.mapM Utf8.codepoint = none
            → tabs lib editor ((dir, mklist) :: later) = .error .raised)
          ∧ ∀ words, texts.mapM Utf8.codepoint = some words
            → ∃ after new, tabs lib editor ((dir, mklist) :: later) = .ok after
              ∧ get words ((index - 1 + (later.map Prod.fst).sum) % words.length + 1) = some new
              ∧ TextAt after (before ++ new) back := by
  obtain ⟨before, word, starting, seed, rfl, found, isStarting, isSeed, isFirst⟩ :=
    tab_first lib isText notTab dir mklist
  refine ⟨before, word, starting, seed, rfl, found, isStarting, isSeed, ?_⟩
  intro index texts isList low high small
  have first := isFirst (some index) texts isList
  constructor
  · intro isNone
    rw [tabs, List.foldlM_cons, first, isNone]
    rfl
  · intro words isWords
    have length := length_of_mapM isWords
    have codes := words_encodable isWords
    obtain ⟨new, selected⟩ := get_eq_some (t := words) (i := index) low (by omega)
    obtain ⟨middle, completes, isTab, completing, isMiddle⟩ := complete_completing documented
      isText selected (codes new (mem_of_get selected))
    obtain ⟨after, last, tabs', isLast, isAfter⟩ := tabs_again documented later steps
      (by omega) codes isTab completing isMiddle
    refine ⟨after, last, ?_, isLast, isAfter⟩
    rw [tabs, List.foldlM_cons, first, isWords, orRaise_bind, completes]
    exact tabs'

end Completions

-----------------------------------------------------------------------------------------
-- In every run
-----------------------------------------------------------------------------------------

/-- Where the last operation was a completion, its element is directly before the cursor. -/
def Selected (editor : Editor) : Prop :=
  editor.state = .tab
    → ∃ words index before word after, Completing editor words index before word after

/-- Nothing has changed, or the last operation was no completion. -/
def Elsewhere (editor after : Editor) : Prop := after = editor ∨ after.state ≠ .tab

section Reachable

variable {lib : Tablex} {isalnum : Int → Bool} {editor edited : Editor}

/-- `move` without a completion. -/
theorem elsewhere_move (x : Int) {state : EditState} (notTab : state ≠ .tab)
    : Yields (Elsewhere editor) (edited.move .ircc x state) :=
  yields_render fun _ _ => .inr notTab

/-- What goes on behind an entry that is left. -/
theorem elsewhere_leaveEntry {r : Int} {next : List (List Int) × Bool → Except Trouble Editor}
    (yields : ∀ history stays, Yields (Elsewhere editor) (next (history, stays)))
    : Yields (Elsewhere editor) (edited.leaveEntry r >>= next) := by
  rw [Editor.leaveEntry]
  split
  · cases LuaSequence.set edited.history r edited.buffer with
    | none => trivial
    | some history => exact yields history true
  · cases LuaSequence.remove edited.history r with
    | none => trivial
    | some history => exact yields history false

/-- The loop of `hexinput`, by induction on how often it may turn. -/
theorem elsewhere_hexLoop (last : Int) (most : Nat) (first : Int)
    : Yields (Elsewhere editor) (editor.hexLoop .ircc lib last most first) := by
  induction most generalizing first with
  | zero => exact .inl rfl
  | succ most ih =>
      rw [Editor.hexLoop]
      split
      · split
        · refine yields_orRaise fun acc _ => ?_
          split
          · exact .inl rfl
          · exact yields_orHole fun _ _ => elsewhere_move _ (by rintro ⟨⟩)
        · split
          · exact ih (first - 1)
          · exact .inl rfl
      · exact .inl rfl

/-- `hexinput`, for both of its forms. -/
theorem elsewhere_hexinput : Yields (Elsewhere editor) (editor.hexinput .ircc lib) := by
  rw [Editor.hexinput]
  split
  · refine yields_orRaise fun c _ => ?_
    split
    · exact yields_orHole fun _ _ => yields_orRaise fun _ _ => elsewhere_move _ (by rintro ⟨⟩)
    · exact elsewhere_hexLoop _ _ _
  · exact elsewhere_hexLoop _ _ _

/-- Every operation but `tab` forgets that there was a completion, unless it changes nothing. By
cases on the operation.
-/
theorem elsewhere_perform {operation : Operation}
    (notTab : ∀ dir mklist, operation ≠ .tab dir mklist)
    : Yields (Elsewhere editor) (perform .ircc lib isalnum editor operation) := by
  cases operation with
  | add code => exact yields_orRaise fun _ _ => elsewhere_move _ (by rintro ⟨⟩)
  | backspace =>
      rw [perform, Editor.backspace]
      split
      · exact yields_orRaise fun _ _ => elsewhere_move _ (by rintro ⟨⟩)
      · exact .inl rfl
  | delete => exact yields_orRaise fun _ _ => yields_render fun _ _ => .inr (by rintro ⟨⟩)
  | moveToBeg => exact elsewhere_move _ (by rintro ⟨⟩)
  | moveToEnd => exact elsewhere_move _ (by rintro ⟨⟩)
  | moveLeft =>
      rw [perform, Editor.moveLeft]
      split
      · exact elsewhere_move _ (by rintro ⟨⟩)
      · exact .inl rfl
  | moveRight =>
      rw [perform, Editor.moveRight]
      split
      · exact elsewhere_move _ (by rintro ⟨⟩)
      · exact .inl rfl
  | moveNextWord => exact yields_orRaise fun _ _ => elsewhere_move _ (by rintro ⟨⟩)
  | movePrevWord => exact yields_orRaise fun _ _ => elsewhere_move _ (by rintro ⟨⟩)
  | swap =>
      rw [perform, Editor.swap]
      split
      · exact yields_orHole fun _ _ => yields_orHole fun _ _ => yields_orHole fun _ _ =>
          yields_orHole fun _ _ => elsewhere_move _ (by rintro ⟨⟩)
      · exact .inl rfl
  | hexinput => exact elsewhere_hexinput
  | killToBeg => exact elsewhere_move _ (by rintro ⟨⟩)
  | killToEnd =>
      rw [perform, Editor.killToEnd]
      split
      · cases unpack editor.buffer editor.cursor editor.buffer.length with
        | none => trivial
        | some moved => exact yields_render fun _ _ => .inr (by rintro ⟨⟩)
      · exact yields_render fun _ _ => .inr (by rintro ⟨⟩)
  | killPrevWord => exact yields_orRaise fun _ _ => elsewhere_move _ (by rintro ⟨⟩)
  | killNextWord => exact yields_orRaise fun _ _ => elsewhere_move _ (by rintro ⟨⟩)
  | paste => exact elsewhere_move _ (by rintro ⟨⟩)
  | tab dir mklist => exact (notTab dir mklist rfl).elim
  | olderHistory =>
      rw [perform, Editor.olderHistory]
      split
      · split
        · exact elsewhere_leaveEntry fun _ _ =>
            yields_orRaise fun _ _ => elsewhere_move _ (by rintro ⟨⟩)
        · exact .inl rfl
      · split
        · exact yields_orRaise fun _ _ => elsewhere_move _ (by rintro ⟨⟩)
        · exact .inl rfl
  | newerHistory =>
      rw [perform, Editor.newerHistory]
      split
      · exact .inl rfl
      · refine elsewhere_leaveEntry fun _ _ => ?_
        dsimp only
        split
        · exact yields_orRaise fun _ _ => elsewhere_move _ (by rintro ⟨⟩)
        · exact elsewhere_move _ (by rintro ⟨⟩)
  | confirm =>
      rw [perform, Editor.confirm]
      split
      · exact elsewhere_move _ (by rintro ⟨⟩)
      · exact yields_orHole fun _ _ => elsewhere_move _ (by rintro ⟨⟩)
  | reset => exact elsewhere_move _ (by rintro ⟨⟩)
  | overflow => trivial

/-- A completion puts its element before the cursor. -/
theorem selected_complete (documented : lib.Documented) {before word after : List Int}
    {words : List (List Int)} {index : Option Int}
    (isBuffer : editor.buffer = before ++ word ++ after)
    (isCursor : editor.cursor = before.length + word.length + 1)
    : Yields (fun editor' => ∃ index new, Completing editor' words index before new after)
      (editor.complete .ircc lib words index (before.length + 1)) := by
  cases isIndex : index with
  | none => trivial
  | some i =>
      cases selected : get words i with
      | none =>
          rw [Editor.complete, Option.bind_some, selected]
          trivial
      | some new =>
          rw [complete_replaces documented isBuffer isCursor selected]
          refine yields_render fun _ _ => ⟨i, new, rfl, rfl, selected, rfl, ?_⟩
          dsimp only
          omega

/-- An outcome that has a property has every weaker one. -/
theorem Yields.weaken {holds weaker : Editor → Prop} {outcome : Except Trouble Editor}
    (yields : Yields holds outcome) (implies : ∀ editor, holds editor → weaker editor)
    : Yields weaker outcome := by
  cases outcome with
  | ok editor => exact implies editor yields
  | error trouble => trivial

/-- A further tab puts an element in the place of the one that is before the cursor. -/
theorem tab_replaces (documented : lib.Documented) {words : List (List Int)} {index : Int}
    {before word after : List Int} (isTab : editor.state = .tab)
    (completing : Completing editor words index before word after) (dir : Int)
    (mklist : MakeList)
    : Yields (fun editor' => ∃ index new, Completing editor' words index before new after)
      (editor.tab .ircc lib dir mklist) := by
  rw [tab_again editor dir mklist isTab completing]
  exact selected_complete documented completing.buffer completing.cursor

/-- `tab` leaves an element before the cursor, or there is no completion. -/
theorem selected_tab (documented : lib.Documented) (shown : Shown .ircc editor)
    (selected : Selected editor) (dir : Int) (mklist : MakeList)
    : Yields Selected (editor.tab .ircc lib dir mklist) := by
  have isSelected {editor' : Editor} {words : List (List Int)} {before after : List Int}
      (completes : ∃ index new, Completing editor' words index before new after)
      : Selected editor' := by
    obtain ⟨index, new, completing⟩ := completes
    exact fun _ => ⟨words, index, before, new, after, completing⟩
  by_cases isTab : editor.state = .tab
  · obtain ⟨words, index, before, word, after, completing⟩ := selected isTab
    exact (tab_replaces documented isTab completing dir mklist).weaken fun _ => isSelected
  · obtain ⟨front, back, isText⟩ := shown.textAt
    obtain ⟨before, word, rfl, found⟩ := isText.searchPrevWord_parts (fun c => c != 32)
    have isCursor := isText.cursor
    rw [List.length_append] at isCursor
    rw [Editor.tab, if_neg isTab, found, orRaise_bind]
    refine yields_orRaise fun starting _ => yields_orRaise fun seed _ =>
      yields_orRaise fun answer _ => ?_
    rcases answer with ⟨tabix, _ | texts⟩
    · exact fun isTab' => absurd isTab' isTab
    · refine yields_orRaise fun words _ => ?_
      exact (selected_complete documented isText.buffer (by omega)).weaken fun _ => isSelected

/-- Every step keeps the element of a completion before the cursor. -/
theorem selected_step (documented : lib.Documented) (shown : Shown .ircc editor)
    (selected : Selected editor) {operation : Operation} {after : Editor}
    (moves : step .ircc lib isalnum editor operation = some after)
    : Selected after := by
  have yields : Yields Selected (perform .ircc lib isalnum editor operation) := by
    by_cases isTab : ∃ dir mklist, operation = .tab dir mklist
    · obtain ⟨dir, mklist, rfl⟩ := isTab
      exact selected_tab documented shown selected dir mklist
    · have notTab (dir : Int) (mklist : MakeList) : operation ≠ .tab dir mklist :=
        fun same => isTab ⟨dir, mklist, same⟩
      refine (elsewhere_perform notTab).weaken fun editor' changed => ?_
      rcases changed with rfl | notTab
      · exact selected
      · exact fun isTab' => absurd isTab' notTab
  rw [step] at moves
  cases outcome : perform .ircc lib isalnum editor operation with
  | ok result =>
      rw [outcome] at moves yields
      obtain rfl := Option.some.inj moves
      exact yields
  | error trouble =>
      rw [outcome] at moves
      cases trouble with
      | raised =>
          obtain rfl := Option.some.inj moves
          exact selected
      | hole => cases moves

/-- After any operations: where the last one was a completion, the text directly before the
cursor is the current element of the list.
-/
theorem selected_reachable (documented : lib.Documented) {operations : List Operation}
    (run : Runs.Reaches (step .ircc lib isalnum) initial operations editor)
    : Shown .ircc editor ∧ Selected editor := by
  refine @Runs.Reaches.invariant _ _ _ _ _ _
    (fun editor => Shown .ircc editor ∧ Selected editor) run ⟨shown_initial, nofun⟩ ?_
  rintro before operation after ⟨shown, selected⟩ moves
  obtain ⟨after', moves', isShown⟩ := shown_step isalnum documented shown operation
  obtain rfl := Option.some.inj (moves.symm.trans moves')
  exact ⟨isShown, selected_step documented shown selected moves⟩

/-- Completing with `tab`: a first tab and further ones change nothing but the word before the
cursor, which becomes the element that is reached in a circle, or the first one raises an error
where a completion is no UTF-8. And wherever the last operation of a run was a completion, its
element is directly before the cursor, and a further tab replaces just that.
-/
theorem completion_correct (lib : Tablex) (documented : lib.Documented)
    : (∀ editor front back dir mklist later, TextAt editor front back → editor.state ≠ .tab
        → (∀ call ∈ later, call.1 = 1 ∨ call.1 = -1)
        → ∃ before word starting seed, front = before ++ word
          ∧ editor.searchPrevWord (fun c => c != 32) = some ((before.length : Int) + 1)
          ∧ Utf8.char before = some starting ∧ Utf8.char word = some seed
          ∧ ∀ index texts, mklist starting seed = some (some index, some texts)
            → 1 ≤ index → index ≤ texts.length → texts.length < 0x8000000000000000
            → (texts.mapM Utf8.codepoint = none
                → tabs lib editor ((dir, mklist) :: later) = .error .raised)
              ∧ ∀ words, texts.mapM Utf8.codepoint = some words
                → ∃ after new, tabs lib editor ((dir, mklist) :: later) = .ok after
                  ∧ get words ((index - 1 + (later.map Prod.fst).sum) % words.length + 1)
                    = some new
                  ∧ TextAt after (before ++ new) back)
      ∧ ∀ isalnum operations editor,
        Runs.Reaches (step .ircc lib isalnum) initial operations editor → editor.state = .tab
        → ∃ words index before word after, Completing editor words index before word after
          ∧ ∀ dir mklist editor', editor.tab .ircc lib dir mklist = .ok editor'
            → ∃ index new, Completing editor' words index before new after := by
  constructor
  · intro editor front back dir mklist later isText notTab steps
    exact tabs_complete documented isText notTab dir mklist later steps
  · intro isalnum operations editor run isTab
    obtain ⟨-, selected⟩ := selected_reachable documented run
    obtain ⟨words, index, before, word, after, completing⟩ := selected isTab
    refine ⟨words, index, before, word, after, completing, ?_⟩
    intro dir mklist editor' isOk
    have replaces := tab_replaces documented isTab completing dir mklist
    rw [isOk] at replaces
    exact replaces

/-- Three completions, the first of which is selected. -/
def threeWords : MakeList := fun _ _ => some (some 1, some [[97], [98, 98], [99]])

/-- Witness: a word is completed, and the completions are gone through backwards. -/
theorem completion_correct_witness
    : penlight.Documented
      ∧ (∃ before word starting seed, [97, 98, 32, 99] = before ++ word
          ∧ typed.searchPrevWord (fun c => c != 32) = some ((before.length : Int) + 1)
          ∧ Utf8.char before = some starting ∧ Utf8.char word = some seed
          ∧ ∀ (index : Int) texts, threeWords starting seed = some (some index, some texts)
            → 1 ≤ index → index ≤ texts.length → texts.length < 0x8000000000000000
            → (texts.mapM Utf8.codepoint = none
                → tabs penlight typed [(1, threeWords), (-1, threeWords)] = .error .raised)
              ∧ ∀ words, texts.mapM Utf8.codepoint = some words
                → ∃ after new,
                  tabs penlight typed [(1, threeWords), (-1, threeWords)] = .ok after
                  ∧ get words ((index - 1 + [(-1 : Int)].sum) % words.length + 1) = some new
                  ∧ TextAt after (before ++ new) [100])
      ∧ ∃ editor, Runs.run (step .ircc penlight (fun _ => true)) initial
          [.add 99, .tab 1 threeWords] = some editor
        ∧ ∃ words index before word after, Completing editor words index before word after := by
  refine ⟨penlight_documented, ?_, ?_⟩
  · exact (completion_correct penlight penlight_documented).1 typed _ _ 1 threeWords
      [(-1, threeWords)] typed_textAt nofun (by simp)
  · obtain ⟨editor, runs, -⟩ := editor_shown .ircc penlight (fun _ => true) penlight_documented
      [.add 99, .tab 1 threeWords]
    refine ⟨editor, runs, ?_⟩
    have isTab : editor.state = .tab := by
      have states : (Runs.run (step .ircc penlight (fun _ => true)) initial
          [.add 99, .tab 1 threeWords]).map Editor.state = some .tab := by
        decide +kernel
      rw [runs] at states
      exact Option.some.inj states
    obtain ⟨words, index, before, word, after, completing, -⟩ :=
      (completion_correct penlight penlight_documented).2 _ _ editor
        (Runs.reaches_of_run runs) isTab
    exact ⟨words, index, before, word, after, completing⟩

/-- Where it is not so: a first tab backwards puts in the same element as a first tab forwards,
and a completion that is no UTF-8 raises an error.
-/
theorem completion_counterexample
    : (tabs penlight initial [(1, threeWords)]).toOption.map Editor.buffer = some [97]
      ∧ (tabs penlight initial [(-1, threeWords)]).toOption.map Editor.buffer = some [97]
      ∧ tabs penlight initial [(1, fun _ _ => some (some 1, some [[0xff]]))]
        = .error .raised := by
  refine ⟨?_, ?_, rfl⟩
  · decide +kernel
  · decide +kernel

end Reachable

end Snowcone.Editing
