import Snowcone.Editing.HexInput

/-! Which codes come into the texts that an editor holds, and that no line break comes into its
buffer unless `hexinput` puts it there.
-/

namespace Snowcone.Editing

open LuaSequence

/-- A code that does not break out of a line. -/
def Unbroken (code : Int) : Prop := code ≠ 0 ∧ code ≠ 10 ∧ code ≠ 13

/-- A text of nothing but good codes. -/
def AllGood (good : Int → Prop) (text : List Int) : Prop := ∀ code ∈ text, good code

/-- All texts that an editor holds are of good codes. -/
structure Within (good : Int → Prop) (editor : Editor) : Prop where
  buffer : AllGood good editor.buffer
  yank : AllGood good editor.yank
  history : ∀ line ∈ editor.history, AllGood good line
  stash : ∀ line, editor.stash = some line → AllGood good line
  tablist : ∀ list, editor.tablist = some list → ∀ word ∈ list, AllGood good word

/-- What an operation brings in is of good codes: the code that is added, and the texts that may
complete a word, one of which is selected.
-/
def Operation.Supplies (good : Int → Prop) : Operation → Prop
  | .add code => good code ∧ Encodable code
  | .tab _ mklist =>
      ∀ starting seed tabix texts, mklist starting seed = some (tabix, some texts)
        → (tabix.bind (get texts)).isSome
          ∧ ∀ text ∈ texts, ∀ codes, Utf8.codepoint text = some codes → AllGood good codes
  | _ => True

section Codes

variable {good : Int → Prop} {variant : Variant} {lib : Tablex} {isalnum : Int → Bool}
  {editor : Editor}

/-- `render` changes no text. -/
theorem within_render (within : Within good editor)
    : Yields (Within good) (editor.render variant) :=
  yields_render fun _ _ => { within with }

/-- `move` changes no text. -/
theorem within_move (within : Within good editor) (x : Int) (state : EditState)
    : Yields (Within good) (editor.move variant x state) :=
  within_render { within with }

/-- A buffer that is changed, with the rest as it was. -/
theorem Within.edited (within : Within good editor) {buffer : List Int}
    (isGood : AllGood good buffer)
    : Within good { editor with buffer } :=
  { within with buffer := isGood }

/-- `reset` forgets texts. -/
theorem within_reset (within : Within good editor)
    : Yields (Within good) (editor.reset variant) := by
  refine within_move ?_ 1 .edit
  exact { within with buffer := nofun, stash := nofun }

/-- `confirm` puts the buffer into the history. -/
theorem within_confirm (within : Within good editor)
    : Yields (Within good) (editor.confirm variant lib) := by
  rw [Editor.confirm]
  split
  · exact within_reset within
  · refine yields_orHole fun history isSet => within_reset { within with history := ?_ }
    intro line member
    rcases mem_of_set isSet member with earlier | rfl
    · exact within.history line earlier
    · exact within.buffer

/-- Leaving an entry puts at most the buffer into the history. -/
theorem within_leaveEntry (within : Within good editor) {r : Int}
    {next : List (List Int) × Bool → Except Trouble Editor}
    (yields : ∀ history stays, (∀ line ∈ history, AllGood good line)
      → Yields (Within good) (next (history, stays)))
    : Yields (Within good) (editor.leaveEntry r >>= next) := by
  rw [Editor.leaveEntry]
  split
  · cases isSet : set editor.history r editor.buffer with
    | none => trivial
    | some history =>
        refine yields history true fun line member => ?_
        rcases mem_of_set isSet member with earlier | rfl
        · exact within.history line earlier
        · exact within.buffer
  · cases removed : remove editor.history r with
    | none => trivial
    | some history =>
        exact yields history false fun line member =>
          within.history line (mem_of_remove removed member)

/-- `older_history` goes to a line of the history. -/
theorem within_olderHistory (within : Within good editor)
    : Yields (Within good) (editor.olderHistory variant) := by
  rw [Editor.olderHistory]
  split
  · split
    · refine within_leaveEntry within fun history stays isGood => ?_
      refine yields_orRaise fun buffer isThere => within_move ?_ _ _
      exact { within with history := isGood, buffer := isGood buffer (mem_of_get isThere) }
    · exact within
  · split
    · refine yields_orRaise fun buffer isThere => within_move ?_ _ _
      refine { within with buffer := within.history buffer (mem_of_get isThere), stash := ?_ }
      rintro _ ⟨⟩
      exact within.buffer
    · exact within

/-- `newer_history` goes to a line of the history, or back to the stash. -/
theorem within_newerHistory (within : Within good editor)
    : Yields (Within good) (editor.newerHistory variant) := by
  rw [Editor.newerHistory]
  split
  · exact within
  · refine within_leaveEntry within fun history stays isGood => ?_
    dsimp only
    split
    · refine yields_orRaise fun buffer isStash => within_move ?_ _ _
      exact {
        within with
        history := isGood, buffer := within.stash buffer isStash, stash := by rintro _ ⟨⟩ }
    · next buffer isThere =>
        refine within_move ?_ _ _
        exact { within with history := isGood, buffer := isGood buffer (mem_of_get isThere) }

/-- `add` brings in one code. -/
theorem within_add (within : Within good editor) {code : Int} (isGood : good code)
    : Yields (Within good) (editor.add variant code) := by
  refine yields_orRaise fun buffer inserted => within_move (within.edited ?_) _ _
  intro other member
  rcases mem_of_insert inserted member with earlier | rfl
  · exact within.buffer other earlier
  · exact isGood

/-- `backspace` brings in nothing. -/
theorem within_backspace (within : Within good editor)
    : Yields (Within good) (editor.backspace variant) := by
  rw [Editor.backspace]
  split
  · exact yields_orRaise fun buffer removed =>
      within_move (within.edited fun code member =>
        within.buffer code (mem_of_remove removed member)) _ _
  · exact within

/-- `delete` brings in nothing. -/
theorem within_delete (within : Within good editor)
    : Yields (Within good) (editor.delete variant) :=
  yields_orRaise fun _ removed => within_render {
    within with buffer := fun code member => within.buffer code (mem_of_remove removed member) }

/-- `swap` writes what was there before. -/
theorem within_swap (within : Within good editor) : Yields (Within good) (editor.swap variant) := by
  rw [Editor.swap]
  split
  · refine yields_orHole fun t isT => yields_orHole fun u isU =>
      yields_orHole fun middle isMiddle => yields_orHole fun buffer isLast =>
        within_move (within.edited ?_) _ _
    intro code member
    rcases mem_of_set isLast member with inMiddle | rfl
    · rcases mem_of_set isMiddle inMiddle with earlier | rfl
      · exact within.buffer code earlier
      · exact within.buffer code (mem_of_get isU)
    · exact within.buffer code (mem_of_get isT)
  · exact within

-----------------------------------------------------------------------------------------
-- Killing and completing
-----------------------------------------------------------------------------------------

section Parts

variable {t values : List Int} {first last position : Int}

/-- `tablex.removevalues` brings in nothing. -/
theorem good_removevalues (documented : lib.Documented) (isGood : AllGood good t)
    (low : 1 ≤ first) (ordered : first ≤ last + 1) (high : last ≤ t.length)
    : AllGood good (lib.removevalues t first last) := by
  intro code member
  rw [documented.removevalues t first last low ordered high] at member
  rcases List.mem_append.mp member with isBefore | isAfter
  · exact isGood code (List.mem_of_mem_take isBefore)
  · exact isGood code (List.mem_of_mem_drop isAfter)

/-- `tablex.sub` brings in nothing. -/
theorem good_sub (documented : lib.Documented) (isGood : AllGood good t) (low : 1 ≤ first)
    (ordered : first ≤ last + 1) (high : last ≤ t.length)
    : AllGood good (lib.sub t first last) := by
  intro code member
  rw [documented.sub t first last low ordered high] at member
  exact isGood code (mem_of_slice member)

/-- `tablex.insertvalues` brings in the values. -/
theorem good_insertvalues (documented : lib.Documented) (isGood : AllGood good t)
    (areGood : AllGood good values) (low : 1 ≤ position) (high : position ≤ t.length + 1)
    : AllGood good (lib.insertvalues t position values) := by
  intro code member
  rw [documented.insertvalues t position values low high] at member
  simp only [List.mem_append] at member
  rcases member with (isBefore | isValue) | isAfter
  · exact isGood code (List.mem_of_mem_take isBefore)
  · exact areGood code isValue
  · exact isGood code (List.mem_of_mem_drop isAfter)

end Parts

/-- `add_yank_left` takes a part of the buffer. -/
theorem within_addYankLeft (documented : lib.Documented) (within : Within good editor) {lo hi : Int}
    (low : 1 ≤ lo) (ordered : lo ≤ hi + 1) (high : hi ≤ editor.buffer.length)
    : Within good (editor.addYankLeft lib lo hi) := by
  have isPart := good_sub documented within.buffer low ordered high
  rw [Editor.addYankLeft]
  split
  · exact {
      within with
      yank := good_insertvalues documented within.yank isPart (Int.le_refl 1) (by omega) }
  · exact { within with yank := isPart }

/-- `kill_to_beg` keeps the end of the buffer. -/
theorem within_killToBeg (documented : lib.Documented) (placed : Placed variant editor)
    (within : Within good editor)
    : Yields (Within good) (editor.killToBeg variant lib) := by
  have low := placed.low
  have high := placed.high
  have added := within_addYankLeft documented within (Int.le_refl 1)
    (show 1 ≤ editor.cursor - 1 + 1 by omega) (by omega)
  obtain ⟨yank, isKill⟩ := addYankLeft_eq lib editor 1 (editor.cursor - 1)
  rw [Editor.killToBeg, isKill]
  rw [isKill] at added
  refine within_move (added.edited fun code member => ?_) _ _
  change code ∈ lib.sub editor.buffer editor.cursor (-1) at member
  rw [documented.sub_end _ _ low high] at member
  exact within.buffer code (mem_of_slice member)

/-- `kill_to_end` keeps the start of the buffer. -/
theorem within_killToEnd (documented : lib.Documented) (placed : Placed variant editor)
    (within : Within good editor)
    : Yields (Within good) (editor.killToEnd variant lib) := by
  have low := placed.low
  have high := placed.high
  have kept : AllGood good (lib.removevalues editor.buffer editor.cursor (-1)) := by
    intro code member
    rw [documented.removevalues_end _ _ low high] at member
    exact within.buffer code (List.mem_of_mem_take member)
  rw [Editor.killToEnd]
  split
  · rw [unpack_eq low (by omega) (Int.le_refl _)]
    refine within_render { within with yank := ?_, buffer := kept }
    intro code member
    rcases List.mem_append.mp member with isYank | isMoved
    · exact within.yank code isYank
    · exact within.buffer code (mem_of_slice isMoved)
  · refine within_render { within with yank := ?_, buffer := kept }
    intro code member
    rw [documented.sub_end _ _ low high] at member
    exact within.buffer code (mem_of_slice member)

/-- `kill_prev_word` keeps what is around the word. -/
theorem within_killPrevWord (documented : lib.Documented) (placed : Placed variant editor)
    (within : Within good editor)
    : Yields (Within good) (editor.killPrevWord variant lib isalnum) := by
  have high := placed.high
  refine yields_orRaise fun i found => ?_
  obtain ⟨low, upTo⟩ := searchPrevWord_bounds placed.low found
  have added := within_addYankLeft documented within low
    (show i ≤ editor.cursor - 1 + 1 by omega) (by omega)
  exact within_move (added.edited (good_removevalues documented added.buffer low (by omega)
    (by
      obtain ⟨yank, isKill⟩ := addYankLeft_eq lib editor i (editor.cursor - 1)
      rw [isKill]
      dsimp only
      omega))) _ _

/-- `kill_next_word` keeps what is around the word. -/
theorem within_killNextWord (documented : lib.Documented) (placed : Placed variant editor)
    (within : Within good editor)
    : Yields (Within good) (editor.killNextWord variant lib isalnum) := by
  have low := placed.low
  refine yields_orRaise fun j found => ?_
  obtain ⟨upTo, high⟩ := searchNextWord_bounds placed.high found
  have region := good_sub documented within.buffer low
    (show editor.cursor ≤ j - 1 + 1 by omega) (by omega)
  have kept := good_removevalues documented within.buffer low
    (show editor.cursor ≤ j - 1 + 1 by omega) (by omega)
  refine within_move ?_ _ _
  refine { within with buffer := kept, yank := ?_ }
  dsimp only
  split
  · exact good_insertvalues documented within.yank region (by omega) (Int.le_refl _)
  · exact region

/-- `paste` brings in the yank text. -/
theorem within_paste (documented : lib.Documented) (placed : Placed variant editor)
    (within : Within good editor)
    : Yields (Within good) (editor.paste variant lib) :=
  within_move (within.edited (good_insertvalues documented within.buffer within.yank placed.low
    placed.high)) _ _

/-- A completion brings in an element of the list. -/
theorem within_complete (documented : lib.Documented) (placed : Placed variant editor)
    (within : Within good editor) {tablist : List (List Int)} {tabix : Option Int} {i : Int}
    (areGood : ∀ word ∈ tablist, AllGood good word) (low : 1 ≤ i) (upTo : i ≤ editor.cursor)
    : Yields (Within good) (editor.complete variant lib tablist tabix i) := by
  have high := placed.high
  refine yields_orRaise fun new selected => ?_
  obtain ⟨index, rfl, isNew⟩ := Option.bind_eq_some_iff.mp selected
  have kept := good_removevalues documented within.buffer low
    (show i ≤ editor.cursor - 1 + 1 by omega) (by omega)
  have shorter := length_removevalues documented (t := editor.buffer) (editor.cursor - 1) low
    (by omega) (by omega)
  refine within_move ?_ _ _
  refine { within with buffer := ?_, tablist := ?_ }
  · exact good_insertvalues documented kept (areGood new (mem_of_get isNew)) low (by omega)
  · rintro _ ⟨⟩
    exact areGood

/-- The codes of texts, by induction on the texts. -/
theorem good_codepoints {texts : List Bytes} {tablist : List (List Int)}
    (isGood : ∀ text ∈ texts, ∀ codes, Utf8.codepoint text = some codes → AllGood good codes)
    (isList : texts.mapM Utf8.codepoint = some tablist)
    : ∀ word ∈ tablist, AllGood good word := by
  induction texts generalizing tablist with
  | nil =>
      obtain rfl := Option.some.inj isList
      nofun
  | cons text texts ih =>
      rw [List.mapM_cons] at isList
      obtain ⟨codes, isCodes, isList⟩ := Option.bind_eq_some_iff.mp isList
      obtain ⟨rest, isRest, isList⟩ := Option.bind_eq_some_iff.mp isList
      obtain rfl := Option.some.inj isList
      obtain ⟨here, later⟩ := List.forall_mem_cons.mp isGood
      exact List.forall_mem_cons.mpr ⟨here codes isCodes, ih later isRest⟩

/-- `tab` brings in what completes the word. -/
theorem within_tab (documented : lib.Documented) (placed : Placed variant editor)
    (within : Within good editor) (dir : Int)
    {mklist : Bytes → Bytes → Option (Option Int × Option (List Bytes))}
    (supplies : (Operation.tab dir mklist).Supplies good)
    : Yields (Within good) (editor.tab variant lib dir mklist) := by
  rw [Editor.tab]
  split
  · next isTab =>
      obtain ⟨tablist, tabix, word, isList, isIndex, isWord, fits⟩ := placed.completed isTab
      refine yields_orRaise fun index sameIndex => yields_orRaise fun list sameList => ?_
      obtain rfl : tabix = index := by simpa [isIndex] using sameIndex
      split
      · trivial
      · refine yields_orRaise fun old isOld => ?_
        obtain rfl : tablist = list := by simpa [isList] using sameList
        obtain rfl : word = old := by simpa [isWord] using isOld
        exact within_complete documented placed within (within.tablist tablist isList) (by omega)
          (by omega)
  · refine yields_orRaise fun i found => ?_
    obtain ⟨low, upTo⟩ := searchPrevWord_bounds placed.low found
    refine yields_orRaise fun starting _ => yields_orRaise fun seed _ =>
      yields_orRaise fun answer isAnswer => ?_
    rcases answer with ⟨tabix, _ | texts⟩
    · exact { within with tablist := by rintro _ ⟨⟩ }
    · refine yields_orRaise fun tablist isList => ?_
      have areGood := good_codepoints (supplies starting seed tabix texts isAnswer).2 isList
      exact within_complete documented placed within areGood low upTo

/-- A text around the cursor that is of good codes, with the other texts as they were. -/
theorem Moved.within {state : EditState} {front back : List Int} {after : Editor}
    (moved : Moved editor state front back after) (within : Within good editor)
    (isGood : AllGood good (front ++ back))
    : Within good after where
  buffer := by
    rw [moved.buffer]
    exact isGood
  yank := by
    rw [moved.yank]
    exact within.yank
  history := by
    rw [moved.history]
    exact within.history
  stash := by
    rw [moved.stash]
    exact within.stash
  tablist := by
    rw [moved.tablist]
    exact within.tablist

/-- Every operation but `hexinput` brings in no other codes than it is given, by cases on the
operation.
-/
theorem within_perform (documented : lib.Documented) (placed : Placed .ircc editor)
    (within : Within good editor) {operation : Operation} (supplies : operation.Supplies good)
    (notHexinput : operation ≠ .hexinput)
    : Yields (Within good) (perform .ircc lib isalnum editor operation) := by
  cases operation with
  | add code => exact within_add within supplies.1
  | backspace => exact within_backspace within
  | delete => exact within_delete within
  | moveToBeg => exact within_move within _ _
  | moveToEnd => exact within_move within _ _
  | moveLeft =>
      rw [perform, Editor.moveLeft]
      split
      · exact within_move within _ _
      · exact within
  | moveRight =>
      rw [perform, Editor.moveRight]
      split
      · exact within_move within _ _
      · exact within
  | moveNextWord => exact yields_orRaise fun _ _ => within_move within _ _
  | movePrevWord => exact yields_orRaise fun _ _ => within_move within _ _
  | swap => exact within_swap within
  | hexinput => exact (notHexinput rfl).elim
  | killToBeg => exact within_killToBeg documented placed within
  | killToEnd => exact within_killToEnd documented placed within
  | killPrevWord => exact within_killPrevWord documented placed within
  | killNextWord => exact within_killNextWord documented placed within
  | paste => exact within_paste documented placed within
  | tab dir mklist => exact within_tab documented placed within dir supplies
  | olderHistory => exact within_olderHistory within
  | newerHistory => exact within_newerHistory within
  | confirm => exact within_confirm within
  | reset => exact within_reset within
  | overflow => trivial

end Codes

-----------------------------------------------------------------------------------------
-- Line breaks
-----------------------------------------------------------------------------------------

section LineBreaks

variable {lib : Tablex} {editor : Editor}

/-- The loop of `hexinput` refuses line breaks, by induction on how often it may turn. -/
theorem within_hexLoop (documented : lib.Documented) (placed : Placed .ircc editor)
    (within : Within Unbroken editor) {last : Int} (inBuffer : last ≤ editor.cursor - 1)
    (most : Nat) {first : Int} (upTo : first ≤ last)
    : Yields (Within Unbroken) (editor.hexLoop .ircc lib last most first) := by
  have high := placed.high
  induction most generalizing first with
  | zero => exact within
  | succ most ih =>
      rw [Editor.hexLoop]
      split
      · split
        · refine yields_orRaise fun acc isValue => ?_
          split
          · exact within
          · next isPut =>
              refine yields_orHole fun buffer isSet => within_move (within.edited ?_) _ _
              have kept := good_removevalues documented within.buffer (by omega)
                (show first ≤ last + 1 by omega) (by omega)
              intro code member
              rcases mem_of_set isSet member with earlier | rfl
              · exact kept code earlier
              · exact ⟨by omega, by omega, by omega⟩
        · split
          · exact ih (by omega)
          · exact within
      · exact within

/-- `hexinput` brings in no line break where the text before the cursor fits. -/
theorem within_hexinput (documented : lib.Documented) (shown : Shown .ircc editor)
    (within : Within Unbroken editor) {front back : List Int} (isText : TextAt editor front back)
    (fits : HexinputFits front)
    : Yields (Within Unbroken) (editor.hexinput .ircc lib) := by
  by_cases pair : ∃ before c, front = before ++ [0x5e, c] ∧ 0x41 ≤ c ∧ c ≤ 0x5f
  · obtain ⟨before, c, isFront, low, high⟩ := pair
    obtain ⟨after, isOk, moved⟩ := hexinput_control lib isText isFront low high
    obtain ⟨notLf, notCr⟩ := fits.breaks before c isFront
    have isGood := within.buffer
    rw [isText.buffer, isFront] at isGood
    rw [isOk]
    refine moved.within within fun code member => ?_
    simp only [List.mem_append, List.mem_singleton] at member
    rcases member with (isBefore | rfl) | isBack
    · exact isGood code (by simp [isBefore])
    · exact ⟨by omega, by omega, by omega⟩
    · exact isGood code (by simp [isBack])
  · have noPair : ∀ before c, front = before ++ [0x5e, c] → ¬(0x41 ≤ c ∧ c ≤ 0x5f) :=
      fun before c isFront bounds => pair ⟨before, c, isFront, bounds⟩
    rw [hexinput_search lib isText noPair]
    have isCursor := isText.cursor
    exact within_hexLoop documented shown.toPlaced within (by omega) _ (Int.le_refl _)

/-- What an editor should be after every operation: no line break has come into its buffer, and
`hexinput` did what it is for.
-/
def StaysInLine (lib : Tablex) (before : Editor) (operation : Operation) (after : Editor) : Prop :=
  (operation = .hexinput
    → ∀ front back, TextAt before front back → HexinputMeets lib before front back)
  ∧ AllGood Unbroken after.buffer

/-- Where `hexinput` is used, the text before the cursor fits. -/
def UsedWhereFits (before : Editor) (operation : Operation) (_after : Editor) : Prop :=
  operation = .hexinput → ∀ front back, TextAt before front back → HexinputFits front

/-- What holds of an editor that is shown and has no line break in its texts is kept by every
operation that supplies none, as long as `hexinput` is used where the text fits.
-/
theorem step_stays (isalnum : Int → Bool) (documented : lib.Documented)
    (shown : Shown .ircc editor) (within : Within Unbroken editor) {operation : Operation}
    (supplies : operation.Supplies Unbroken) {after : Editor}
    (moves : step .ircc lib isalnum editor operation = some after)
    (fits : UsedWhereFits editor operation after)
    : Shown .ircc after ∧ Within Unbroken after := by
  obtain ⟨after', moves', isShown⟩ := shown_step isalnum documented shown operation
  obtain rfl := Option.some.inj (moves.symm.trans moves')
  refine ⟨isShown, ?_⟩
  have yields : Yields (Within Unbroken) (perform .ircc lib isalnum editor operation) := by
    by_cases isHexinput : operation = .hexinput
    · obtain ⟨front, back, isText⟩ := shown.textAt
      have fitsHere := fits isHexinput front back isText
      subst isHexinput
      exact within_hexinput documented shown within isText fitsHere
    · exact within_perform documented shown.toPlaced within supplies isHexinput
  rw [step] at moves
  cases outcome : perform .ircc lib isalnum editor operation with
  | ok result =>
      rw [outcome] at moves yields
      obtain rfl := Option.some.inj moves
      exact yields
  | error trouble =>
      rw [outcome] at moves
      cases trouble with
      | raised =>
          obtain rfl := Option.some.inj moves
          exact within
      | hole => cases moves

/-- `hexinput` does what it is for exactly where the text before the cursor fits; and from an
editor without line breaks no operation brings one into the buffer, and `hexinput` does what it
is for, in exactly those runs in which it is used where the text fits.
-/
theorem hexinput_iff (lib : Tablex) (documented : lib.Documented)
    : (∀ editor front back, TextAt editor front back
        → (HexinputMeets lib editor front back ↔ HexinputFits front))
      ∧ ∀ isalnum start operations, Shown .ircc start → Within Unbroken start
        → (∀ operation ∈ operations, operation.Supplies Unbroken)
        → (Runs.Along (step .ircc lib isalnum) (StaysInLine lib) start operations
          ↔ Runs.Along (step .ircc lib isalnum) UsedWhereFits start operations) := by
  refine ⟨fun editor front back isText => hexinput_meets_iff documented isText, ?_⟩
  intro isalnum start operations shown within supplies
  have fits_of_stays {before after : Editor} {operation : Operation}
      (stays : StaysInLine lib before operation after)
      : UsedWhereFits before operation after := by
    intro isHexinput front back isText
    exact (hexinput_meets_iff documented isText).mp (stays.1 isHexinput front back isText)
  apply @Runs.along_iff_of_mem _ _ _ _ _
    (fun editor => Shown .ircc editor ∧ Within Unbroken editor) _ operations ⟨shown, within⟩
  · rintro before operation member after ⟨isShown, isWithin⟩ moves stays
    exact step_stays isalnum documented isShown isWithin (supplies operation member) moves
      (fits_of_stays stays)
  · rintro before operation member after ⟨isShown, isWithin⟩ moves
    refine ⟨fits_of_stays, fun fits => ⟨fun isHexinput front back isText => ?_, ?_⟩⟩
    · exact (hexinput_meets_iff documented isText).mpr (fits isHexinput front back isText)
    · exact (step_stays isalnum documented isShown isWithin (supplies operation member) moves
        fits).2.buffer

/-- A new editor holds no text. -/
theorem within_initial (good : Int → Prop) : Within good initial where
  buffer := nofun
  yank := nofun
  history := nofun
  stash := nofun
  tablist := nofun

/-- Witness: a code point is typed with `x` and its digits. -/
theorem hexinput_iff_witness
    : penlight.Documented
      ∧ (HexinputMeets penlight initial [] [] ↔ HexinputFits [])
      ∧ (Runs.Along (step .ircc penlight (fun _ => true)) (StaysInLine penlight) initial
          [.add 120, .add 52, .add 49, .hexinput]
        ↔ Runs.Along (step .ircc penlight (fun _ => true)) UsedWhereFits initial
          [.add 120, .add 52, .add 49, .hexinput]) := by
  have supplies : ∀ operation ∈ [Operation.add 120, .add 52, .add 49, .hexinput],
      operation.Supplies Unbroken := by
    intro operation member
    simp only [List.mem_cons, List.not_mem_nil, or_false] at member
    rcases member with rfl | rfl | rfl | rfl
    · exact ⟨⟨by decide, by decide, by decide⟩, ⟨by decide, by decide⟩⟩
    · exact ⟨⟨by decide, by decide, by decide⟩, ⟨by decide, by decide⟩⟩
    · exact ⟨⟨by decide, by decide, by decide⟩, ⟨by decide, by decide⟩⟩
    · trivial
  exact ⟨penlight_documented,
    (hexinput_iff penlight penlight_documented).1 initial [] [] ⟨rfl, rfl, nofun⟩,
    (hexinput_iff penlight penlight_documented).2 (fun _ => true) initial _ shown_initial
      (within_initial Unbroken) supplies⟩

/-- Where it is not so: `^J` brings a line break into the buffer, `x` and a letter that is no
digit raise an error, and a number of 65 bits counts as what is left of it.
-/
theorem hexinput_counterexample
    : (Runs.run (step .ircc penlight (fun _ => true)) initial
        [.add 0x5e, .add 0x4a, .hexinput]).map Editor.buffer = some [10]
      ∧ Editor.hexinput .ircc penlight { initial with buffer := [120, 103], cursor := 3 }
        = .error .raised
      ∧ (Editor.hexinput .ircc penlight { initial with
          buffer := 120 :: 49 :: (List.replicate 14 48 ++ [52, 49]), cursor := 19 }).toOption.map
          Editor.buffer
        = some [0x41] := by
  refine ⟨?_, rfl, ?_⟩
  · decide +kernel
  · decide +kernel

end LineBreaks

end Snowcone.Editing
