import Mathlib.Data.List.Induction
import Snowcone.Editing.EditorText

/-! What `hexinput` makes of the text before the cursor: where it does what it is for, and where
it fails.
-/

namespace Snowcone.Editing

open LuaSequence

-----------------------------------------------------------------------------------------
-- What it is for
-----------------------------------------------------------------------------------------

/-- A code point that a line may have in it. -/
def Allowed (code : Int) : Prop := 0 < code ∧ code ≤ 0x10ffff ∧ code ≠ 10 ∧ code ≠ 13

/-- The number that hexadecimal digits are. -/
def hexNumber (digits : List Int) : Int :=
  digits.foldl (fun acc code => 16 * acc + (Editor.hexdigits code).getD 0) 0

/-- Codes that are hexadecimal digits. -/
def HexDigits (codes : List Int) : Prop := ∀ code ∈ codes, (Editor.hexdigits code).isSome

/-- What becomes of a text before the cursor: `x` and digits become a code point, and `^` and a
character a control code.
-/
inductive Becomes : List Int → List Int → Prop
  | codePoint (before : List Int) {digits : List Int} (some : digits ≠ [])
    (areDigits : HexDigits digits) (allowed : Allowed (hexNumber digits))
    : Becomes (before ++ 120 :: digits) (before ++ [hexNumber digits])
  | control (before : List Int) {c : Int} (low : 0x41 ≤ c) (high : c ≤ 0x5f)
    (allowed : Allowed (c - 0x40))
    : Becomes (before ++ [0x5e, c]) (before ++ [c - 0x40])

/-- What `hexinput` should do: it raises no error, and it changes the text before the cursor
only to what this becomes.
-/
def HexinputMeets (lib : Tablex) (editor : Editor) (front back : List Int) : Prop :=
  ∃ after, editor.hexinput .ircc lib = .ok after
    ∧ ((∃ front', Becomes front front' ∧ TextAt after front' back)
      ∨ (∀ front', ¬Becomes front front') ∧ after.buffer = editor.buffer)

/-- The texts before the cursor where it does: what follows on `x` is no digits and a last
character that is none, no line break is written with `^`, and no number of more than 64 bits
counts as an allowed or as a negative one.
-/
structure HexinputFits (front : List Int) : Prop where
  digits : ∀ before digits last, front = before ++ 120 :: (digits ++ [last]) → HexDigits digits
    → (Editor.hexdigits last).isSome
  breaks : ∀ before c, front = before ++ [0x5e, c] → c ≠ 0x4a ∧ c ≠ 0x4d
  wraps : ∀ before digits, front = before ++ 120 :: digits → HexDigits digits
    → 0x10ffff < hexNumber digits
    → 0x10ffff < (hexNumber digits).bmod 0x10000000000000000
      ∨ (hexNumber digits).bmod 0x10000000000000000 ∈ [0, 10, 13]

-----------------------------------------------------------------------------------------
-- Digits
-----------------------------------------------------------------------------------------

section Digits

variable {digits : List Int}

/-- A digit is a number from 0 to 15. -/
theorem hexdigits_bounds {code digit : Int} (isDigit : Editor.hexdigits code = some digit)
    : 0 ≤ digit ∧ digit ≤ 15 := by
  rw [Editor.hexdigits] at isDigit
  split at isDigit
  · obtain rfl := Option.some.inj isDigit
    omega
  · split at isDigit
    · obtain rfl := Option.some.inj isDigit
      omega
    · split at isDigit
      · obtain rfl := Option.some.inj isDigit
        omega
      · cases isDigit

/-- One more digit at the end. -/
theorem hexNumber_concat (digits : List Int) (code : Int)
    : hexNumber (digits ++ [code]) = 16 * hexNumber digits + (Editor.hexdigits code).getD 0 := by
  rw [hexNumber, List.foldl_append]
  rfl

/-- Digits are no negative number, by induction on the digits from the end. -/
theorem hexNumber_nonneg (areDigits : HexDigits digits) : 0 ≤ hexNumber digits := by
  induction digits using List.reverseRecOn with
  | nil => exact Int.le_refl 0
  | append_singleton digits code ih =>
      have earlier := ih fun other member => areDigits other (List.mem_append_left _ member)
      obtain ⟨digit, isDigit⟩ := Option.isSome_iff_exists.mp (areDigits code (by simp))
      have bounds := hexdigits_bounds isDigit
      rw [hexNumber_concat, isDigit, Option.getD_some]
      omega

/-- The value that is computed is the number modulo 2⁶⁴, with a sign, by induction on the digits
from the end.
-/
theorem hexValue_eq (areDigits : HexDigits digits)
    : Editor.hexValue digits = some ((hexNumber digits).bmod 0x10000000000000000) := by
  induction digits using List.reverseRecOn with
  | nil => rfl
  | append_singleton digits code ih =>
      have earlier := ih fun other member => areDigits other (List.mem_append_left _ member)
      obtain ⟨digit, isDigit⟩ := Option.isSome_iff_exists.mp (areDigits code (by simp))
      rw [Editor.hexValue] at earlier ⊢
      rw [List.foldlM_append, earlier, hexNumber_concat, isDigit, Option.getD_some]
      simp only [List.foldlM_cons, List.foldlM_nil, isDigit, Option.bind_eq_bind,
        Option.bind_some, Option.map_some, Option.pure_def, Option.some.injEq]
      rw [← Int.bmod_add_bmod, Int.mul_bmod_bmod, Int.bmod_add_bmod]

/-- A last character that is no digit leaves no value. -/
theorem hexValue_none {last : Int} (areDigits : HexDigits digits)
    (notDigit : ¬(Editor.hexdigits last).isSome)
    : Editor.hexValue (digits ++ [last]) = none := by
  have earlier := hexValue_eq areDigits
  rw [Editor.hexValue] at earlier ⊢
  rw [List.foldlM_append, earlier]
  simp [Option.not_isSome_iff_eq_none.mp notDigit]

/-- A small number is the value that is computed. -/
theorem bmod_of_small {number : Int} (low : 0 ≤ number) (high : number ≤ 0x10ffff)
    : number.bmod 0x10000000000000000 = number := by
  rw [Int.bmod_eq_iff (by decide)]
  omega

end Digits

-----------------------------------------------------------------------------------------
-- The loop for `x` and digits
-----------------------------------------------------------------------------------------

/-- A text that ends in `x` and characters of which all but the last are digits. -/
structure HexEnd (front before digits : List Int) : Prop where
  isFront : front = before ++ 120 :: digits
  some : digits ≠ []
  areDigits : HexDigits digits.dropLast

/-- What the loop does with the value of what follows on `x`. -/
def Editor.putCode (editor : Editor) (lib : Tablex) (first last acc : Int)
    : Except Trouble Editor :=
  if acc = 0 ∨ acc = 10 ∨ acc = 13 ∨ acc > 0x10ffff then return editor
  else do
    let buffer ← orHole
      (LuaSequence.set (lib.removevalues editor.buffer first last) (first - 1) acc)
    move .ircc { editor with buffer } first .edit

/-- The codes of a text in which one takes the place of the last ones before the cursor. -/
theorem encodable_replaced {editor : Editor} {front back before replaced : List Int} {code : Int}
    (isText : TextAt editor front back) (isFront : front = before ++ replaced)
    (encodable : Encodable code)
    : ∀ other ∈ before ++ [code] ++ back, Encodable other := by
  have earlier := isText.codes
  intro other member
  rw [isFront] at earlier
  simp only [List.mem_append, List.mem_singleton] at member
  rcases member with (isBefore | rfl) | isBack
  · exact earlier other (by simp [isBefore])
  · exact encodable
  · exact earlier other (by simp [isBack])

section Loop

variable {lib : Tablex} {editor : Editor} {front back before digits tail : List Int}

/-- The letter `x` is no digit. -/
theorem not_hexdigits_x : ¬(Editor.hexdigits 120).isSome := by decide

/-- Digits have no `x` among them. -/
theorem no_x_inside {earlier rest : List Int}
    (areDigits : HexDigits (earlier ++ 120 :: rest).dropLast) (some : rest ≠ [])
    : False := by
  rw [List.dropLast_append_of_ne_nil (List.cons_ne_nil _ _), List.dropLast_cons_of_ne_nil some]
    at areDigits
  exact not_hexdigits_x (areDigits 120 (List.mem_append_right _ List.mem_cons_self))

/-- Digits at the end of a text stand behind the `x` that it ends in. -/
theorem HexEnd.behind_x {rest : List Int} (ends : HexEnd (rest ++ tail) before digits)
    (areDigits : HexDigits tail.dropLast)
    : ∃ skipped, rest = before ++ 120 :: skipped ∧ digits = skipped ++ tail := by
  rcases List.append_eq_append_iff.mp ends.isFront with
    ⟨middle, -, isTail⟩ | ⟨middle, isRest, isDigits⟩
  · rw [isTail] at areDigits
    exact (no_x_inside areDigits ends.some).elim
  · cases middle with
    | nil =>
        rw [List.nil_append] at isDigits
        rw [← isDigits] at areDigits
        exact (@no_x_inside [] digits areDigits ends.some).elim
    | cons code middle =>
        obtain ⟨rfl, parts⟩ := List.cons.inj isDigits
        exact ⟨middle, isRest, parts⟩

/-- The `x` is the last one of the text, so the ending is the only one. -/
theorem HexEnd.unique {before' digits' : List Int} (ends : HexEnd front before digits)
    (ends' : HexEnd front before' digits')
    : before' = before ∧ digits' = digits := by
  rcases List.append_eq_append_iff.mp (ends.isFront.symm.trans ends'.isFront) with
    ⟨middle, isBefore, isRest⟩ | ⟨middle, isBefore, isRest⟩
  · cases middle with
    | nil => exact ⟨by simpa using isBefore, (List.cons.inj isRest).2.symm⟩
    | cons code middle =>
        obtain ⟨-, rfl⟩ := List.cons.inj isRest
        exact (no_x_inside ends.areDigits ends'.some).elim
  · cases middle with
    | nil => exact ⟨by simpa using isBefore.symm, (List.cons.inj isRest).2⟩
    | cons code middle =>
        obtain ⟨-, rfl⟩ := List.cons.inj isRest
        exact (no_x_inside ends'.areDigits ends.some).elim

/-- The loop goes back over digits to the `x` before them, or to where there can be none. By
induction on the text that is left, from its end.
-/
theorem hexLoop_cases (lib : Tablex) (isText : TextAt editor front back) (rest : List Int)
    (isFront : front = rest ++ tail) (some : tail ≠ []) (areDigits : HexDigits tail.dropLast)
    {most : Nat} (enough : rest.length ≤ most)
    : (∃ before digits, HexEnd front before digits
        ∧ editor.hexLoop .ircc lib front.length most (rest.length + 1)
          = orRaise (Editor.hexValue digits)
            >>= editor.putCode lib (before.length + 2) front.length)
      ∨ (∀ before digits, ¬HexEnd front before digits)
        ∧ editor.hexLoop .ircc lib front.length most (rest.length + 1) = .ok editor := by
  induction rest using List.reverseRecOn generalizing tail most with
  | nil =>
      refine .inr ⟨?_, ?_⟩
      · intro before digits ends
        rw [isFront] at ends
        obtain ⟨skipped, isNil, -⟩ := ends.behind_x areDigits
        simp at isNil
      · cases most with
        | zero => rfl
        | succ most => rfl
  | append_singleton rest code ih =>
      rw [List.length_append, List.length_singleton] at enough ⊢
      obtain ⟨most, rfl⟩ : ∃ fewer, most = fewer + 1 := ⟨most - 1, by omega⟩
      have isBuffer : editor.buffer = rest ++ code :: (tail ++ back) := by
        rw [isText.buffer, isFront]
        simp
      have here : get editor.buffer (↑(rest.length + 1) + 1 - 1) = .some code := by
        rw [isBuffer]
        exact get_part (by omega)
      have inside : (1 : Int) < ↑(rest.length + 1) + 1 := by omega
      rw [Editor.hexLoop, if_pos inside, here]
      by_cases isX : code = 120
      · subst isX
        rw [if_pos rfl]
        refine .inl ⟨rest, tail, ⟨by simp [isFront], some, areDigits⟩, ?_⟩
        have unpacked : unpack editor.buffer (↑(rest.length + 1) + 1) front.length
            = .some tail := by
          have parts : editor.buffer = rest ++ [120] ++ tail ++ back := by
            rw [isBuffer]
            simp
          rw [parts]
          refine unpack_part (by simp) ?_
          rw [isFront]
          simp
          omega
        rw [unpacked]
        have first : ((rest.length + 1 : Nat) : Int) + 1 = rest.length + 2 := by omega
        rw [first]
        rfl
      · rw [if_neg (by simpa using isX)]
        by_cases isDigit : (Editor.hexdigits code).isSome
        · have longer : HexDigits (code :: tail).dropLast := by
            rw [List.dropLast_cons_of_ne_nil some]
            exact List.forall_mem_cons.mpr ⟨isDigit, areDigits⟩
          have first : ((rest.length + 1 : Nat) : Int) + 1 - 1 = rest.length + 1 := by omega
          rw [Option.bind_some, if_pos isDigit, first]
          exact ih (by simp [isFront]) (List.cons_ne_nil _ _) longer (by omega)
        · rw [Option.bind_some, if_neg isDigit]
          refine .inr ⟨?_, rfl⟩
          intro before digits ends
          rw [isFront] at ends
          obtain ⟨skipped, isRest, isDigits⟩ := ends.behind_x areDigits
          rcases List.eq_nil_or_concat' skipped with rfl | ⟨skipped, other, rfl⟩
          · exact isX (List.cons.inj (List.append_inj' isRest rfl).2).1
          · have isLast : rest ++ [code] = before ++ 120 :: skipped ++ [other] := by
              rw [isRest, List.append_assoc, List.cons_append]
            obtain rfl := (List.cons.inj (List.append_inj' isLast rfl).2).1
            have member : code ∈ digits.dropLast := by
              rw [isDigits, List.dropLast_append_of_ne_nil some]
              exact List.mem_append_left _ (List.mem_append_right _ (List.mem_singleton.mpr rfl))
            exact isDigit (ends.areDigits code member)

/-- A text does not end both ways. -/
theorem HexEnd.not_control (ends : HexEnd front before digits) (before' : List Int) (c : Int)
    : front ≠ before' ++ [0x5e, c] := by
  intro isFront
  rw [isFront, ← List.singleton_append, ← List.append_assoc] at ends
  have areDigits : HexDigits [c].dropLast := nofun
  obtain ⟨skipped, isRest, isDigits⟩ := ends.behind_x areDigits
  rcases List.eq_nil_or_concat' skipped with rfl | ⟨skipped, other, rfl⟩
  · cases (List.cons.inj (List.append_inj' isRest rfl).2).1
  · have isLast : before' ++ [0x5e] = before ++ 120 :: skipped ++ [other] := by
      rw [isRest, List.append_assoc, List.cons_append]
    obtain rfl := (List.cons.inj (List.append_inj' isLast rfl).2).1
    have member : 0x5e ∈ digits.dropLast := by
      rw [isDigits, List.dropLast_concat]
      exact List.mem_append_right _ (List.mem_singleton.mpr rfl)
    exact absurd (ends.areDigits 0x5e member) (by decide)

/-- A text to which a code that cannot be written comes is not shown. -/
theorem move_raises {edited : Editor} {code x : Int} {state : EditState}
    (isBuffer : edited.buffer = before ++ [code] ++ back) (isX : x = before.length + 2)
    (notEncodable : ¬Encodable code)
    : edited.move .ircc x state = .error .raised := by
  have unpacked : unpack ([] ++ (before ++ [code]) ++ back) 1 (x - 1) = some (before ++ [code]) :=
    unpack_part rfl (by rw [List.length_append, List.length_singleton]; omega)
  have unwritten : Utf8.char (before ++ [code]) = none := by
    cases isText : Utf8.char (before ++ [code]) with
    | none => rfl
    | some text =>
        exact (notEncodable (encodable_of_char isText code (by simp))).elim
  rw [List.nil_append, ← isBuffer] at unpacked
  change (orRaise ((unpack edited.buffer 1 (x - 1)).bind Utf8.char) >>= _) = _
  rw [unpacked, Option.bind_some, unwritten]
  rfl

/-- A value that is not allowed for leaves the editor as it is. -/
theorem putCode_kept {first last acc : Int}
    (isKept : acc = 0 ∨ acc = 10 ∨ acc = 13 ∨ acc > 0x10ffff)
    : editor.putCode lib first last acc = .ok editor :=
  if_pos isKept

/-- Any other value is put in the place of `x` and the digits, and then the text is shown. -/
theorem putCode_put (documented : lib.Documented) (isText : TextAt editor front back)
    (isFront : front = before ++ 120 :: digits) {acc : Int}
    (isPut : ¬(acc = 0 ∨ acc = 10 ∨ acc = 13 ∨ acc > 0x10ffff))
    : editor.putCode lib (before.length + 2) front.length acc
      = Editor.move .ircc { editor with buffer := before ++ [acc] ++ back }
        (before.length + 2) .edit := by
  have parts : editor.buffer = before ++ [120] ++ digits ++ back := by
    rw [isText.buffer, isFront]
    simp
  have removed : lib.removevalues editor.buffer (before.length + 2) front.length
      = before ++ [120] ++ back := by
    rw [parts]
    refine documented.removevalues_part (by simp; omega) ?_
    rw [isFront]
    simp
    omega
  have written : LuaSequence.set (before ++ [120] ++ back) ((before.length : Int) + 2 - 1) acc
      = some (before ++ [acc] ++ back) := by
    simp only [List.append_assoc, List.singleton_append]
    exact set_part acc (by omega)
  rw [Editor.putCode, if_neg isPut, removed, written]
  rfl

end Loop

-----------------------------------------------------------------------------------------
-- Both forms
-----------------------------------------------------------------------------------------

section Forms

variable {lib : Tablex} {editor : Editor} {front back before digits : List Int}

/-- A control code takes the place of `^` and the character behind it. -/
theorem hexinput_control (lib : Tablex) (isText : TextAt editor front back) {c : Int}
    (isFront : front = before ++ [0x5e, c]) (low : 0x41 ≤ c) (high : c ≤ 0x5f)
    : ∃ after, editor.hexinput .ircc lib = .ok after
      ∧ Moved editor .edit (before ++ [c - 0x40]) back after := by
  have isCursor := isText.cursor
  have length : front.length = before.length + 2 := by
    rw [isFront, List.length_append]
    rfl
  have parts : editor.buffer = before ++ 0x5e :: (c :: back) := by
    rw [isText.buffer, isFront]
    simp
  have isCaret : get editor.buffer (editor.cursor - 1 - 1) = some 0x5e := by
    rw [parts]
    exact get_part (by omega)
  have isLast : get editor.buffer (editor.cursor - 1) = some c := by
    rw [parts, ← List.singleton_append, ← List.append_assoc]
    exact get_part (by simp; omega)
  have written : LuaSequence.set editor.buffer (editor.cursor - 1 - 1) (c - 0x40)
      = some (before ++ [c - 0x40] ++ c :: back) := by
    rw [parts, List.append_assoc]
    exact set_part _ (by omega)
  have removed : LuaSequence.remove (before ++ [c - 0x40] ++ c :: back) (editor.cursor - 1)
      = some (before ++ [c - 0x40] ++ back) :=
    remove_part (by simp; omega)
  have encodable : Encodable (c - 0x40) := ⟨by omega, by omega⟩
  have codes := encodable_replaced isText isFront encodable
  obtain ⟨after, moves, moved⟩ := move_moved (x := editor.cursor - 1)
    { editor with buffer := before ++ [c - 0x40] ++ back } .edit rfl
    (by rw [List.length_append, List.length_singleton]; omega) codes
  refine ⟨after, ?_, { moved with }⟩
  rw [Editor.hexinput, if_pos ⟨by omega, isCaret⟩, isLast, orRaise_bind,
    if_pos ⟨low, high, by omega, by omega⟩, written]
  change (orRaise (LuaSequence.remove _ _) >>= _) = _
  rw [removed]
  exact moves

/-- Without such a pair `hexinput` is its loop. -/
theorem hexinput_search (lib : Tablex) (isText : TextAt editor front back)
    (noPair : ∀ before c, front = before ++ [0x5e, c] → ¬(0x41 ≤ c ∧ c ≤ 0x5f))
    : editor.hexinput .ircc lib
      = editor.hexLoop .ircc lib front.length front.length front.length := by
  have isCursor := isText.cursor
  have isLast : editor.cursor - 1 = front.length := by omega
  rw [Editor.hexinput, isLast]
  split
  · next pair =>
      obtain ⟨inside, isCaret⟩ := pair
      rcases List.eq_nil_or_concat' front with rfl | ⟨rest, c, rfl⟩
      · cases inside
      · rcases List.eq_nil_or_concat' rest with rfl | ⟨before, d, rfl⟩
        · cases inside
        · have length : (before ++ [d] ++ [c]).length = before.length + 2 := by simp
          have parts : editor.buffer = before ++ d :: (c :: back) := by
            rw [isText.buffer]
            simp
          have isD : get editor.buffer (↑(before ++ [d] ++ [c]).length - 1) = some d := by
            rw [parts]
            exact get_part (by omega)
          have isC : get editor.buffer ↑(before ++ [d] ++ [c]).length = some c := by
            rw [parts, ← List.singleton_append, ← List.append_assoc]
            exact get_part (by simp; omega)
          obtain rfl : d = 0x5e := Option.some.inj (isD.symm.trans isCaret)
          rw [isC, orRaise_bind, if_neg]
          · rfl
          · rintro ⟨low, high, -⟩
            exact noPair before c (by simp) ⟨low, high⟩
  · rfl

/-- What `hexinput` does, by how the text before the cursor ends. -/
inductive Did (lib : Tablex) (editor : Editor) (front back : List Int) : Prop
  | control (before : List Int) (c : Int) (isFront : front = before ++ [0x5e, c])
    (low : 0x41 ≤ c) (high : c ≤ 0x5f) (after : Editor)
    (isOk : editor.hexinput .ircc lib = .ok after)
    (isText : TextAt after (before ++ [c - 0x40]) back)
  | value (before digits : List Int) (ends : HexEnd front before digits)
    (isValue : editor.hexinput .ircc lib = orRaise (Editor.hexValue digits)
      >>= editor.putCode lib (before.length + 2) front.length)
  | nothing (noPair : ∀ before c, front = before ++ [0x5e, c] → ¬(0x41 ≤ c ∧ c ≤ 0x5f))
    (noDigits : ∀ before digits, ¬HexEnd front before digits)
    (isOk : editor.hexinput .ircc lib = .ok editor)

/-- It is one of these, by the forms in the order in which they are tried. -/
theorem hexinput_did (lib : Tablex) (isText : TextAt editor front back)
    : Did lib editor front back := by
  by_cases pair : ∃ before c, front = before ++ [0x5e, c] ∧ 0x41 ≤ c ∧ c ≤ 0x5f
  · obtain ⟨before, c, isFront, low, high⟩ := pair
    obtain ⟨after, isOk, isAfter⟩ := hexinput_control lib isText isFront low high
    exact .control before c isFront low high after isOk isAfter.toTextAt
  · have noPair : ∀ before c, front = before ++ [0x5e, c] → ¬(0x41 ≤ c ∧ c ≤ 0x5f) :=
      fun before c isFront bounds => pair ⟨before, c, isFront, bounds⟩
    have isLoop := hexinput_search lib isText noPair
    rcases List.eq_nil_or_concat' front with rfl | ⟨rest, c, rfl⟩
    · refine .nothing noPair ?_ isLoop
      intro before digits ends
      simpa using ends.isFront
    · have length : ((rest ++ [c]).length : Int) = rest.length + 1 := by simp
      have enough : rest.length ≤ (rest ++ [c]).length := by simp
      rcases hexLoop_cases lib isText rest rfl (List.cons_ne_nil c []) nofun enough with
        ⟨before, digits, ends, isValue⟩ | ⟨noDigits, isOk⟩
      · rw [← length] at isValue
        exact .value before digits ends (isLoop.trans isValue)
      · rw [← length] at isOk
        exact .nothing noPair noDigits (isLoop.trans isOk)

/-- What a text before the cursor becomes, where it ends in `x` and digits. -/
theorem becomes_of_end (ends : HexEnd front before digits) {front' : List Int}
    (becomes : Becomes front front')
    : HexDigits digits ∧ Allowed (hexNumber digits) ∧ front' = before ++ [hexNumber digits] := by
  cases becomes with
  | codePoint before' some areDigits allowed =>
      have others : HexDigits (List.dropLast _) :=
        fun code member => areDigits code (List.dropLast_subset _ member)
      obtain ⟨rfl, rfl⟩ := ends.unique ⟨rfl, some, others⟩
      exact ⟨areDigits, allowed, rfl⟩
  | control before' low high allowed => exact (ends.not_control before' _ rfl).elim

/-- What a text before the cursor becomes, where it ends in `^` and a character. -/
theorem becomes_of_control {c : Int} {front' : List Int}
    (becomes : Becomes (before ++ [0x5e, c]) front')
    : Allowed (c - 0x40) ∧ front' = before ++ [c - 0x40] := by
  generalize isFront : before ++ [0x5e, c] = front at becomes
  cases becomes with
  | codePoint before' some areDigits allowed =>
      have others : HexDigits (List.dropLast _) :=
        fun code member => areDigits code (List.dropLast_subset _ member)
      have ends : HexEnd _ before' _ := ⟨rfl, some, others⟩
      exact (ends.not_control before c isFront.symm).elim
  | control before' low high allowed =>
      obtain ⟨rfl, isPair⟩ := List.append_inj' isFront rfl
      obtain ⟨-, isPair⟩ := List.cons.inj isPair
      obtain ⟨rfl, -⟩ := List.cons.inj isPair
      exact ⟨allowed, rfl⟩

/-- After `^` and a character: unless it is a line break, the control code is allowed. -/
theorem meets_control_iff {c : Int} (low : 0x41 ≤ c) (high : c ≤ 0x5f) {after : Editor}
    (isOk : editor.hexinput .ircc lib = .ok after)
    (isText : TextAt editor (before ++ [0x5e, c]) back)
    (isAfter : TextAt after (before ++ [c - 0x40]) back)
    : HexinputMeets lib editor (before ++ [0x5e, c]) back
      ↔ HexinputFits (before ++ [0x5e, c]) := by
  constructor
  · rintro ⟨after', isOk', meets⟩
    obtain rfl : after = after' := Except.ok.inj (isOk.symm.trans isOk')
    have allowed : Allowed (c - 0x40) := by
      rcases meets with ⟨front', becomes, -⟩ | ⟨-, same⟩
      · exact (becomes_of_control becomes).1
      · have shorter := congrArg List.length (isAfter.buffer.symm.trans (same.trans isText.buffer))
        simp at shorter
    obtain ⟨-, -, notLf, notCr⟩ := allowed
    refine ⟨?_, ?_, ?_⟩
    · intro before' digits last isFront areDigits
      have ends : HexEnd (before ++ [0x5e, c]) before' (digits ++ [last]) :=
        ⟨isFront, by simp, by rwa [List.dropLast_concat]⟩
      exact (ends.not_control before c rfl).elim
    · intro before' other isFront
      obtain ⟨-, isPair⟩ := List.append_inj' isFront rfl
      obtain ⟨-, isPair⟩ := List.cons.inj isPair
      obtain ⟨rfl, -⟩ := List.cons.inj isPair
      omega
    · intro before' digits isFront areDigits big
      cases digits with
      | nil => cases big
      | cons code digits =>
          have ends : HexEnd (before ++ [0x5e, c]) before' (code :: digits) :=
            ⟨isFront, List.cons_ne_nil _ _,
              fun other member => areDigits other (List.dropLast_subset _ member)⟩
          exact (ends.not_control before c rfl).elim
  · intro fits
    obtain ⟨notLf, notCr⟩ := fits.breaks before c rfl
    exact ⟨after, isOk, .inl ⟨_, .control before low high ⟨by omega, by omega, by omega, by omega⟩,
      isAfter⟩⟩

/-- Digits to the end are refused or taken by their number alone. -/
theorem fits_of_digits (ends : HexEnd front before digits) (areDigits : HexDigits digits)
    (wraps : 0x10ffff < hexNumber digits
      → 0x10ffff < (hexNumber digits).bmod 0x10000000000000000
        ∨ (hexNumber digits).bmod 0x10000000000000000 ∈ [0, 10, 13])
    : HexinputFits front where
  digits before' digits' last isFront areDigits' := by
    have ends' : HexEnd front before' (digits' ++ [last]) :=
      ⟨isFront, by simp, by rwa [List.dropLast_concat]⟩
    obtain ⟨-, rfl⟩ := ends.unique ends'
    exact areDigits last (by simp)
  breaks before' c isFront := (ends.not_control before' c isFront).elim
  wraps before' digits' isFront areDigits' big := by
    have some : digits' ≠ [] := by
      rintro rfl
      cases big
    have others : HexDigits digits'.dropLast :=
      fun code member => areDigits' code (List.dropLast_subset _ member)
    obtain ⟨-, rfl⟩ := ends.unique ⟨isFront, some, others⟩
    exact wraps big

/-- After `x` and a last character that is no digit an error is raised. -/
theorem meets_bad_digit_iff (ends : HexEnd front before digits) (notAll : ¬HexDigits digits)
    (isValue : editor.hexinput .ircc lib = orRaise (Editor.hexValue digits)
      >>= editor.putCode lib (before.length + 2) front.length)
    : HexinputMeets lib editor front back ↔ HexinputFits front := by
  obtain ⟨earlier, last, rfl⟩ := (List.eq_nil_or_concat' digits).resolve_left ends.some
  have areDigits : HexDigits earlier := by
    have others := ends.areDigits
    rwa [List.dropLast_concat] at others
  have notDigit : ¬(Editor.hexdigits last).isSome := by
    intro isDigit
    refine notAll fun code member => ?_
    rcases List.mem_append.mp member with isEarlier | isLast
    · exact areDigits code isEarlier
    · rwa [List.mem_singleton.mp isLast]
  rw [hexValue_none areDigits notDigit] at isValue
  refine iff_of_false ?_ fun fits => notDigit (fits.digits _ _ _ ends.isFront areDigits)
  rintro ⟨after, isOk, -⟩
  cases isValue.symm.trans isOk

/-- After `x` and digits: what is put into the text is allowed, unless the number is not. -/
theorem meets_digits_iff (documented : lib.Documented) (isText : TextAt editor front back)
    (ends : HexEnd front before digits) (areDigits : HexDigits digits)
    (isValue : editor.hexinput .ircc lib = orRaise (Editor.hexValue digits)
      >>= editor.putCode lib (before.length + 2) front.length)
    : HexinputMeets lib editor front back ↔ HexinputFits front := by
  have low := hexNumber_nonneg areDigits
  rw [hexValue_eq areDigits, orRaise_bind] at isValue
  generalize isAcc : (hexNumber digits).bmod 0x10000000000000000 = acc at isValue
  have sameSmall (small : hexNumber digits ≤ 0x10ffff) : acc = hexNumber digits :=
    isAcc.symm.trans (bmod_of_small low small)
  by_cases isKept : acc = 0 ∨ acc = 10 ∨ acc = 13 ∨ acc > 0x10ffff
  · -- The number is refused, or it is too large anyway.
    rw [putCode_kept isKept] at isValue
    refine iff_of_true ⟨editor, isValue, .inr ⟨?_, rfl⟩⟩ (fits_of_digits ends areDigits ?_)
    · intro front' becomes
      obtain ⟨-, ⟨above, small, notLf, notCr⟩, -⟩ := becomes_of_end ends becomes
      have same := sameSmall small
      omega
    · intro big
      rw [isAcc]
      rcases isKept with rfl | rfl | rfl | above
      · exact .inr (by simp)
      · exact .inr (by simp)
      · exact .inr (by simp)
      · exact .inl above
  · rw [putCode_put documented isText ends.isFront isKept] at isValue
    by_cases small : hexNumber digits ≤ 0x10ffff
    · -- The value is the number, which is put into the text.
      obtain rfl := sameSmall small
      have codes := encodable_replaced isText ends.isFront ⟨low, by omega⟩
      obtain ⟨after, moves, moved⟩ := move_moved
        (x := before.length + 2) { editor with buffer := before ++ [hexNumber digits] ++ back }
        .edit rfl (by rw [List.length_append, List.length_singleton]; omega) codes
      refine iff_of_true ⟨after, isValue.trans moves, .inl ⟨_, ?_, moved.toTextAt⟩⟩
        (fits_of_digits ends areDigits fun big => by omega)
      rw [ends.isFront]
      exact .codePoint before ends.some areDigits ⟨by omega, small, by omega, by omega⟩
    · -- The value is what is left of a number that is too large.
      refine iff_of_false ?_ ?_
      · rintro ⟨after, isOk, meets⟩
        rcases meets with ⟨front', becomes, -⟩ | ⟨-, same⟩
        · exact small (becomes_of_end ends becomes).2.1.2.1
        · by_cases encodable : Encodable acc
          · obtain ⟨after', moves, moved⟩ := move_moved
              (x := before.length + 2) { editor with buffer := before ++ [acc] ++ back }
              .edit rfl (by rw [List.length_append, List.length_singleton]; omega)
              (encodable_replaced isText ends.isFront encodable)
            obtain rfl := Except.ok.inj (isOk.symm.trans (isValue.trans moves))
            have some := List.length_pos_of_ne_nil ends.some
            have length := congrArg List.length
              (moved.buffer.symm.trans (same.trans isText.buffer))
            rw [ends.isFront] at length
            simp only [List.length_append, List.length_cons, List.length_nil] at length
            omega
          · rw [move_raises rfl rfl encodable] at isValue
            cases isValue.symm.trans isOk
      · intro fits
        have wrapped := fits.wraps before digits ends.isFront areDigits (by omega)
        rw [isAcc] at wrapped
        rcases wrapped with above | member
        · omega
        · simp only [List.mem_cons, List.not_mem_nil, or_false] at member
          omega

/-- Where there is nothing to do, nothing is done. -/
theorem meets_nothing (back : List Int)
    (noPair : ∀ before c, front = before ++ [0x5e, c] → ¬(0x41 ≤ c ∧ c ≤ 0x5f))
    (noDigits : ∀ before digits, ¬HexEnd front before digits)
    (isOk : editor.hexinput .ircc lib = .ok editor)
    : HexinputMeets lib editor front back ∧ HexinputFits front := by
  refine ⟨⟨editor, isOk, .inr ⟨?_, rfl⟩⟩, ?_, ?_, ?_⟩
  · intro front' becomes
    cases becomes with
    | codePoint before some areDigits allowed =>
        exact noDigits before _ ⟨rfl, some,
          fun code member => areDigits code (List.dropLast_subset _ member)⟩
    | control before low high allowed => exact noPair before _ rfl ⟨low, high⟩
  · intro before digits last isFront areDigits
    exact (noDigits before (digits ++ [last])
      ⟨isFront, by simp, by rwa [List.dropLast_concat]⟩).elim
  · intro before c isFront
    have outside := noPair before c isFront
    omega
  · intro before digits isFront areDigits big
    have some : digits ≠ [] := by
      rintro rfl
      cases big
    exact (noDigits before digits
      ⟨isFront, some, fun code member => areDigits code (List.dropLast_subset _ member)⟩).elim

/-- `hexinput` does what it is for exactly where the text before the cursor fits. -/
theorem hexinput_meets_iff (documented : lib.Documented) (isText : TextAt editor front back)
    : HexinputMeets lib editor front back ↔ HexinputFits front := by
  cases hexinput_did lib isText with
  | control before c isFront low high after isOk isAfter =>
      subst isFront
      exact meets_control_iff low high isOk isText isAfter
  | value before digits ends isValue =>
      by_cases areDigits : HexDigits digits
      · exact meets_digits_iff documented isText ends areDigits isValue
      · exact meets_bad_digit_iff ends areDigits isValue
  | nothing noPair noDigits isOk =>
      obtain ⟨meets, fits⟩ := meets_nothing back noPair noDigits isOk
      exact iff_of_true meets fits

end Forms

end Snowcone.Editing
