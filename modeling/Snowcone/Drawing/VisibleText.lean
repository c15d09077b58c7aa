import Snowcone.Drawing.IrcFormatting

/-! What is shown of a formatted message: the renderer ends, writes just that, with no control byte
in it, and leaves the window in its normal attributes.
-/

namespace Snowcone.Drawing

open Bytes LuaPattern WhileLoop

/-- The codes for bold, reset, underline, reverse and italic. -/
def codes : List Byte := [0x02, 0x0f, 0x1f, 0x16, 0x1d]

/-- One or two digits. -/
structure IsNumber (digits : Bytes) : Prop where
  areDigits : ∀ c ∈ digits, Decimal.isNumeral c = true
  nonempty : digits ≠ []
  short : digits.length ≤ 2

/-- What may belong to the code of a colour: nothing, a number, or two of them with a comma. -/
inductive ColorDigits : Bytes → Prop
  | nothing : ColorDigits []
  | fore {fore} (isFore : IsNumber fore) : ColorDigits fore
  | both {fore back} (isFore : IsNumber fore) (isBack : IsNumber back)
    : ColorDigits (fore ++ chr ',' :: back)

/-- What is shown of a message: formatting codes are left out, the one of a colour with as much as
may belong to it, and other control bytes are shown as their symbols.
-/
inductive Shows : Bytes → Bytes → Prop
  | nil : Shows [] []
  | text {c str shown} (isText : isControl c = false) (rest : Shows str shown)
    : Shows (c :: str) (c :: shown)
  | code {c str shown} (isCode : c ∈ codes) (rest : Shows str shown) : Shows (c :: str) shown
  | color {digits str shown} (isColor : ColorDigits digits)
    (longest : ∀ longer, ColorDigits longer → longer <+: digits ++ str
      → longer.length ≤ digits.length)
    (rest : Shows str shown)
    : Shows (0x03 :: (digits ++ str)) shown
  | symbol {c code str shown} (notCode : c ∉ codes) (notColor : c ≠ 0x03)
    (isSymbol : (c, code) ∈ repls) (rest : Shows str shown)
    : Shows (c :: str) (Utf8.charBytes code ++ shown)

/-- Control bytes have symbols. -/
theorem exists_symbol {c : Byte} (control : isControl c = true) : ∃ code, (c, code) ∈ repls := by
  have all : ∀ c : Fin 256, isControl (UInt8.ofNat c.val) = true
      → UInt8.ofNat c.val ∈ repls.map Prod.fst := by
    decide +kernel
  have member := all ⟨c.toNat, c.toNat_lt⟩
  rw [UInt8.ofNat_toNat] at member
  obtain ⟨⟨_, code⟩, isIn, rfl⟩ := List.mem_map.mp (member control)
  exact ⟨code, isIn⟩

/-- Only control bytes have symbols, each has one, and it has no control bytes. -/
theorem symbol_spec {c : Byte} {code : Nat} (isSymbol : (c, code) ∈ repls)
    : isControl c = true ∧ repls.lookup c = some code
      ∧ ∀ d ∈ Utf8.charBytes code, isControl d = false := by
  have all : ∀ entry ∈ repls, isControl entry.1 = true ∧ repls.lookup entry.1 = some entry.2
      ∧ (Utf8.charBytes entry.2).all (!isControl ·) = true := by
    decide +kernel
  obtain ⟨control, found, others⟩ := all (c, code) isSymbol
  refine ⟨control, found, fun d isIn => ?_⟩
  have notControl := List.all_eq_true.mp others d isIn
  rwa [Bool.not_eq_true'] at notControl

/-- Codes are control bytes. -/
theorem isControl_of_code {c : Byte} (isCode : c ∈ codes) : isControl c = true ∧ c ≠ 0x03 := by
  have all : ∀ c ∈ codes, isControl c = true ∧ c ≠ 0x03 := by decide +kernel
  exact all c isCode

/-- Only one thing is shown of a message, by induction on what is shown. -/
theorem Shows.unique {str shown other : Bytes} (shows' : Shows str shown)
    (alsoShows : Shows str other)
    : shown = other := by
  induction shows' generalizing other with
  | nil =>
      cases alsoShows
      rfl
  | text isText _ ih =>
      cases alsoShows with
      | text _ rest => rw [ih rest]
      | code isCode _ =>
          rw [(isControl_of_code isCode).1] at isText
          cases isText
      | color _ _ _ => cases isText
      | symbol _ _ isSymbol _ =>
          rw [(symbol_spec isSymbol).1] at isText
          cases isText
  | code isCode _ ih =>
      cases alsoShows with
      | text isText _ =>
          rw [(isControl_of_code isCode).1] at isText
          cases isText
      | code _ rest => exact ih rest
      | color _ _ _ => exact absurd rfl (isControl_of_code isCode).2
      | symbol notCode _ _ _ => exact absurd isCode notCode
  | @color digits str _ isColor longest _ ih =>
      generalize same : 0x03 :: (digits ++ str) = message at alsoShows
      cases alsoShows with
      | nil => cases same
      | text isText _ =>
          obtain ⟨rfl, -⟩ := List.cons.inj same
          cases isText
      | code isCode _ => exact absurd (List.cons.inj same).1.symm (isControl_of_code isCode).2
      | @color digits' str' _ isColor' longest' rest =>
          have whole := (List.cons.inj same).2
          have within := longest digits' isColor' ⟨str', whole.symm⟩
          have alsoWithin := longest' digits isColor ⟨str, whole⟩
          obtain ⟨rfl, rfl⟩ := List.append_inj whole (Nat.le_antisymm alsoWithin within)
          exact ih rest
      | symbol _ notColor _ _ => exact absurd (List.cons.inj same).1.symm notColor
  | symbol notCode notColor isSymbol _ ih =>
      cases alsoShows with
      | text isText _ =>
          rw [(symbol_spec isSymbol).1] at isText
          cases isText
      | code isCode _ => exact absurd isCode notCode
      | color _ _ _ => exact absurd rfl notColor
      | symbol _ _ isSymbol' rest =>
          have same := (symbol_spec isSymbol).2.1.symm.trans (symbol_spec isSymbol').2.1
          rw [Option.some.inj same, ih rest]

-----------------------------------------------------------------------------------------
-- The code of a colour
-----------------------------------------------------------------------------------------

/-- At most two digits, and as many as there are. -/
structure IsRun (digits rest : Bytes) : Prop where
  areDigits : ∀ c ∈ digits, Decimal.isNumeral c = true
  short : digits.length ≤ 2
  longest : digits.length < 2 → ∀ c ∈ rest.head?, Decimal.isNumeral c = false

/-- There is no longer run of digits in front. -/
theorem IsRun.length_le {digits rest longer : Bytes} (isRun : IsRun digits rest)
    (areDigits : ∀ c ∈ longer, Decimal.isNumeral c = true) (short : longer.length ≤ 2)
    (inFront : longer <+: digits ++ rest)
    : longer.length ≤ digits.length := by
  by_cases isShort : digits.length < 2
  · by_contra isLonger
    obtain ⟨more, same⟩ := inFront
    have next : (digits ++ rest)[digits.length]? = rest.head? := by
      rw [List.getElem?_append_right (Nat.le_refl _), Nat.sub_self, List.head?_eq_getElem?]
    rw [← same, List.getElem?_append_left (by omega),
      List.getElem?_eq_getElem (by omega)] at next
    have isDigit := areDigits _ (List.getElem_mem (by omega : digits.length < longer.length))
    rw [isRun.longest isShort _ next.symm] at isDigit
    cases isDigit
  · omega

/-- A number that is followed by a comma is all that is in front of the first comma. -/
theorem number_unique {fore fore' rest rest' : Bytes}
    (areDigits : ∀ c ∈ fore, Decimal.isNumeral c = true)
    (areDigits' : ∀ c ∈ fore', Decimal.isNumeral c = true)
    (same : fore ++ chr ',' :: rest = fore' ++ chr ',' :: rest')
    : fore = fore' ∧ rest = rest' := by
  have absent {digits : Bytes} (areDigits : ∀ c ∈ digits, Decimal.isNumeral c = true)
      : chr ',' ∉ digits :=
    fun member => absurd (areDigits _ member) (by decide)
  have front := congrArg (before (chr ',')) same
  have behind := congrArg (onwards (chr ',')) same
  rw [before_append_cons (absent areDigits), before_append_cons (absent areDigits')] at front
  rw [onwards_append_cons (absent areDigits), onwards_append_cons (absent areDigits')] at behind
  exact ⟨front, (List.cons.inj behind).2⟩

/-- The rest of a subject is captured. -/
theorem matchHere_restPattern {rest : Bytes} {captures : List (Capture Byte)}
    (finished : ∀ capture ∈ captures, capture.finished = true)
    : matchHere restPattern rest captures = some (captures.map (·.text) ++ [rest]) :=
  matchHere_capture_rest finished fun _ => rfl

/-- A number that is captured: it has a second digit if the rest of the pattern lets it. -/
theorem number_captured {items : List (Item Byte)} {subject : Bytes}
    {captures : List (Capture Byte)} {result : List Bytes}
    (finished : ∀ capture ∈ captures, capture.finished = true)
    (found : matchHere (numberThen items) subject captures = some result)
    : ∃ number rest, subject = number ++ rest ∧ IsNumber number
      ∧ matchHere items rest (captures ++ [{ text := number, finished := true }]) = some result
      ∧ (number.length < 2 → ∀ c behind, rest = c :: behind → Decimal.isNumeral c = true →
        matchHere items behind (captures ++ [{ text := number ++ [c], finished := true }])
          = none) := by
  rw [numberThen, matchHere] at found
  obtain ⟨first, behind, rfl, isDigit, single, found⟩ := taken_of_matchHere found
  obtain ⟨second, rest, rfl, isDigit', short, found, greedy⟩ := matchHere_optional_greedy found
  rw [extend_extend, extend_open finished, List.nil_append, matchHere, finishLast_open] at found
  have isOne : first.length = 1 := single
  refine ⟨first ++ second, rest, (List.append_assoc ..).symm, {
    areDigits := fun c member => ?_, nonempty := ?_, short := ?_ }, found, ?_⟩
  · exact (List.mem_append.mp member).elim (isDigit c) (isDigit' c)
  · exact List.append_ne_nil_of_left_ne_nil (List.ne_nil_of_length_pos (by omega)) _
  · rw [List.length_append]
    omega
  · intro isShort c behind same isNumeral
    rw [List.length_append] at isShort
    have none' := greedy (List.length_eq_zero_iff.mp (by omega)) c behind same isNumeral
    obtain rfl : second = [] := List.length_eq_zero_iff.mp (by omega)
    rwa [extend_extend, extend_open finished, List.nil_append, matchHere, finishLast_open,
      ← List.append_nil first] at none'

/-- A number can be captured. -/
theorem fits_numberThen {items : List (Item Byte)} {number rest : Bytes}
    {captures : List (Capture Byte)} {result : List Bytes}
    (finished : ∀ capture ∈ captures, capture.finished = true) (isNumber : IsNumber number)
    (fits : Fits items rest (captures ++ [{ text := number, finished := true }]) result)
    : Fits (numberThen items) (number ++ rest) captures result := by
  obtain ⟨first, second, rfl⟩ := List.exists_cons_of_ne_nil isNumber.nonempty
  have isDigit := isNumber.areDigits
  have short := isNumber.short
  rw [List.length_cons] at short
  refine .openCapture (.single [first] (by simpa using isDigit first List.mem_cons_self) rfl
    (.single second (fun c member => isDigit c (List.mem_cons_of_mem first member))
      (Nat.le_of_succ_le_succ short) (.closeCapture ?_)))
  rwa [extend_extend, extend_open finished, finishLast_open]

/-- Two numbers with a comma are captured where there are two. -/
theorem colorsPattern_spec (str : Bytes)
    : (∃ fore back rest, stringMatch colorsPattern str = some [fore, back, rest]
        ∧ str = fore ++ chr ',' :: (back ++ rest) ∧ IsNumber fore ∧ IsNumber back
        ∧ IsRun back rest)
      ∨ (stringMatch colorsPattern str = none
        ∧ ∀ fore back rest, IsNumber fore → IsNumber back →
          str ≠ fore ++ chr ',' :: (back ++ rest)) := by
  cases found : stringMatch colorsPattern str with
  | some result =>
      refine .inl ?_
      rw [stringMatch, colorsPattern] at found
      obtain ⟨fore, behind, rfl, isFore, found, -⟩ := number_captured (by simp) found
      obtain ⟨comma, behind, rfl, isComma, single, found⟩ := taken_of_matchHere found
      obtain ⟨c, rfl⟩ := List.length_eq_one_iff.mp single
      obtain rfl : c = chr ',' := by simpa using isComma
      rw [extend_finished (by simp)] at found
      obtain ⟨back, rest, rfl, isBack, found, greedy⟩ := number_captured (by simp) found
      rw [matchHere_restPattern (by simp)] at found
      obtain rfl := Option.some.inj found
      refine ⟨fore, back, rest, rfl, rfl, isFore, isBack, isBack.areDigits, isBack.short, ?_⟩
      intro isShort c first
      obtain ⟨behind, rfl⟩ := List.head?_eq_some_iff.mp first
      refine Bool.eq_false_iff.mpr fun isNumeral => ?_
      have none' := greedy isShort c behind rfl isNumeral
      rw [matchHere_restPattern (by simp)] at none'
      cases none'
  | none =>
      refine .inr ⟨rfl, ?_⟩
      rintro fore back rest isFore isBack rfl
      have isRest : Fits restPattern rest ([⟨fore, true⟩] ++ [⟨back, true⟩]) [fore, back, rest] :=
        fits_of_matchHere (matchHere_restPattern (by simp))
      have closed : extend [⟨fore, true⟩] [chr ','] = [⟨fore, true⟩] := extend_finished (by simp) _
      have fits : Fits colorsPattern (fore ++ ([chr ','] ++ (back ++ rest))) []
          [fore, back, rest] := by
        refine fits_numberThen (by simp) isFore (.single [chr ','] (by simp) rfl ?_)
        rw [List.nil_append, closed]
        exact fits_numberThen (by simp) isBack isRest
      obtain ⟨other, isFound⟩ := matchHere_of_fits fits
      exact Option.some_ne_none other (isFound.symm.trans found)

/-- The digits before the rest of a subject are captured. -/
theorem matchHere_closed (fore rest : Bytes)
    : matchHere (.closeCapture :: restPattern) rest
        (extend [{ text := [], finished := false }] fore)
      = some [fore, rest] := by
  have opened := @extend_open _ [] nofun [] fore
  rw [List.nil_append, List.nil_append, List.nil_append] at opened
  rw [opened, matchHere]
  exact @matchHere_restPattern _ [{ text := fore, finished := true }] (by simp)

/-- The digits in front are captured, up to two. -/
theorem colorPattern_spec (str : Bytes)
    : ∃ fore rest, stringMatch colorPattern str = some [fore, rest] ∧ str = fore ++ rest
      ∧ IsRun fore rest := by
  have skips (fore rest : Bytes) := @matchHere_of_taken _ Decimal.isNumeral .optional _ [] rest
    (extend [{ text := [], finished := false }] fore) _ nofun (Nat.zero_le 1)
    (by rw [extend_nil]; exact matchHere_closed fore rest)
  obtain ⟨result, found⟩ := @matchHere_of_taken _ Decimal.isNumeral .optional _ [] str
    [{ text := [], finished := false }] _ nofun (Nat.zero_le 1) (skips [] str).choose_spec
  have isFound : stringMatch colorPattern str = some result := found
  obtain ⟨first, behind, same, isDigit, short, found, greedy⟩ := matchHere_optional_greedy found
  obtain ⟨second, rest, rfl, isDigit', short', found, greedy'⟩ := matchHere_optional_greedy found
  rw [extend_extend, matchHere_closed] at found
  obtain rfl := Option.some.inj found
  refine ⟨first ++ second, rest, isFound, by rw [List.append_assoc]; exact same, {
    areDigits := fun c member => (List.mem_append.mp member).elim (isDigit c) (isDigit' c)
    short := by rw [List.length_append]; omega, longest := fun isShort c isHead => ?_ }⟩
  obtain ⟨behind, rfl⟩ := List.head?_eq_some_iff.mp isHead
  refine Bool.eq_false_iff.mpr fun isNumeral => ?_
  rw [List.length_append] at isShort
  by_cases noSecond : second = []
  · have none' := greedy' noSecond c behind rfl isNumeral
    rw [extend_extend, matchHere_closed] at none'
    cases none'
  · have noFirst : first = [] := List.length_eq_zero_iff.mp (by
      have := List.length_pos_iff.mpr noSecond
      omega)
    obtain ⟨d, more, rfl⟩ := List.exists_cons_of_ne_nil noSecond
    have none' := greedy noFirst d (more ++ c :: behind) rfl (isDigit' d List.mem_cons_self)
    obtain ⟨other, isOther⟩ := skips [d] (more ++ c :: behind)
    exact Option.some_ne_none other (isOther.symm.trans none')

/-- Behind two numbers, nothing more can belong to the code of a colour. -/
theorem longest_both {fore back rest longer : Bytes} (isFore : IsNumber fore)
    (isRun : IsRun back rest) (isColor : ColorDigits longer)
    (inFront : longer <+: fore ++ chr ',' :: back ++ rest)
    : longer.length ≤ (fore ++ chr ',' :: back).length := by
  have some := List.length_pos_iff.mpr isFore.nonempty
  rw [List.length_append, List.length_cons]
  cases isColor with
  | nothing => exact Nat.zero_le _
  | fore isNumber =>
      have short := isNumber.short
      omega
  | @both fore' back' isFore' isBack' =>
      obtain ⟨behind, same⟩ := inFront
      rw [List.append_assoc, List.append_assoc] at same
      obtain ⟨rfl, whole⟩ := number_unique isFore'.areDigits isFore.areDigits same
      have within := isRun.length_le isBack'.areDigits isBack'.short ⟨behind, whole⟩
      rw [List.length_append, List.length_cons]
      omega

/-- Where there are no two numbers, nothing more than digits can belong to the code of a colour. -/
theorem longest_fore {fore rest longer : Bytes} (isRun : IsRun fore rest)
    (apart : ∀ fore' back rest', IsNumber fore' → IsNumber back →
      fore ++ rest ≠ fore' ++ chr ',' :: (back ++ rest'))
    (isColor : ColorDigits longer) (inFront : longer <+: fore ++ rest)
    : longer.length ≤ fore.length := by
  cases isColor with
  | nothing => exact Nat.zero_le _
  | fore isNumber => exact isRun.length_le isNumber.areDigits isNumber.short inFront
  | both isFore isBack =>
      obtain ⟨behind, same⟩ := inFront
      rw [List.append_assoc] at same
      exact absurd same.symm (apart _ _ behind isFore isBack)

/-- Colours of messages are colours of the terminal, so setting them does not raise an error. -/
theorem colorset_ircColors (colorPairs : Nat) (win : Screen) (fore back : Option Nat)
    : ∃ after, colorset colorPairs win (fore.bind (ircColors.lookup ·))
        (back.bind (ircColors.lookup ·)) = .ok after
      ∧ after.written = win.written := by
  have inRange (color : Option Nat)
      : -1 ≤ (color.bind (ircColors.lookup ·)).getD (-1)
        ∧ (color.bind (ircColors.lookup ·)).getD (-1) ≤ 7 := by
    have all : ∀ entry ∈ ircColors, -1 ≤ entry.2 ∧ entry.2 ≤ 7 := by decide
    cases isColor : color.bind (ircColors.lookup ·) with
    | none => decide
    | some n =>
        obtain ⟨i, -, found⟩ := Option.bind_eq_some_iff.mp isColor
        obtain ⟨first, second, isMember, -⟩ := List.lookup_eq_some_iff.mp found
        exact all (i, n) (isMember ▸ List.mem_append_right _ List.mem_cons_self)
  simp only [colorset, if_neg (not_not.mpr (inRange fore)), if_neg (not_not.mpr (inRange back))]
  refine ⟨_, rfl, ?_⟩
  dsimp only
  split <;> rfl

/-- The branch of the colour code takes as much as may belong to the code, and writes nothing. -/
theorem color_ok (colorPairs : Nat) (l : Locals) (win : Screen)
    : ∃ digits next after, color colorPairs l win = .ok (next, after)
      ∧ l.str = digits ++ next.str ∧ ColorDigits digits
      ∧ (∀ longer, ColorDigits longer → longer <+: digits ++ next.str
        → longer.length ≤ digits.length)
      ∧ after.written = win.written := by
  rcases colorsPattern_spec l.str with
    ⟨fore, back, rest, found, same, isFore, isBack, isRun⟩ | ⟨nothing, apart⟩
  · obtain ⟨after, isSet, written⟩ := colorset_ircColors colorPairs win (tointeger fore)
      (if fore = [] then none else tointeger back)
    refine ⟨fore ++ chr ',' :: back, { l with
      background := if fore = [] then none else tointeger back, str := rest }, after, ?_, ?_,
      .both isFore isBack, ?_, written⟩
    · simp only [color, found, isSet]
      rfl
    · rw [same, List.append_assoc]
      rfl
    · exact fun longer isColor inFront => longest_both isFore isRun isColor inFront
  · obtain ⟨fore, rest, found, same, isRun⟩ := colorPattern_spec l.str
    obtain ⟨after, isSet, written⟩ := colorset_ircColors colorPairs win (tointeger fore)
      (if fore = [] then none else l.background)
    refine ⟨fore, { l with
      background := if fore = [] then none else l.background, str := rest }, after, ?_, same,
      ?_, ?_, written⟩
    · simp only [color, nothing, found, isSet]
      rfl
    · by_cases noFore : fore = []
      · exact noFore ▸ .nothing
      · exact .fore ⟨isRun.areDigits, noFore, isRun.short⟩
    · rw [same] at apart
      exact fun longer isColor inFront => longest_fore isRun apart isColor inFront

-----------------------------------------------------------------------------------------
-- The loop
-----------------------------------------------------------------------------------------

/-- A message is text up to its first control byte, and what follows that. -/
theorem textPattern_spec (str : Bytes)
    : ∃ pre ctrl rest, stringMatch textPattern str = some [pre, ctrl, rest]
      ∧ str = pre ++ (ctrl ++ rest) ∧ (∀ c ∈ pre, isControl c = false)
      ∧ (ctrl = [] ∧ rest = [] ∨ ∃ c, ctrl = [c] ∧ isControl c = true) := by
  have isText : ∀ c ∈ str.takeWhile (!isControl ·), (!isControl c) = true :=
    fun c member => List.mem_takeWhile_imp (p := (!isControl ·)) member
  have parts := List.takeWhile_append_dropWhile (p := (!isControl ·)) (l := str)
  generalize str.takeWhile (!isControl ·) = pre at isText parts
  have ends : ∀ c ∈ (str.dropWhile (!isControl ·)).head?, (!isControl c) = false := by
    intro c isHead
    have stops := List.head?_dropWhile_not (!isControl ·) str
    rw [Option.mem_def.mp isHead] at stops
    exact stops
  generalize str.dropWhile (!isControl ·) = tail at parts ends
  have opened := @extend_open _ [] (by simp) [] pre
  rw [List.nil_append, List.nil_append, List.nil_append] at opened
  have finds {ctrl rest : Bytes}
      (found : matchHere (.openCapture :: .single (fun _ => true) .optional :: .closeCapture
        :: restPattern) tail [⟨pre, true⟩] = some [pre, ctrl, rest])
      : stringMatch textPattern str = some [pre, ctrl, rest] := by
    rw [← parts, stringMatch, textPattern, matchHere]
    refine matchHere_many_longest isText ends ?_
    rw [List.nil_append, opened, matchHere]
    exact found
  cases tail with
  | nil =>
      refine ⟨pre, [], [], finds ?_, by rw [← parts]; rfl, by simpa using isText, .inl ⟨rfl, rfl⟩⟩
      rw [matchHere_capture_skipped (by simp)]
      exact matchHere_restPattern (by simp)
  | cons c rest =>
      refine ⟨pre, [c], rest, finds ?_, parts.symm, by simpa using isText,
        .inr ⟨c, rfl, by simpa using ends c rfl⟩⟩
      refine matchHere_capture_taken (by simp) rfl ?_
      exact matchHere_restPattern (by simp)

/-- A message is rendered: what is shown of it was written, with no control byte in it, and the
window has its normal attributes.
-/
structure Rendered (before after : Screen) (str : Bytes) : Prop where
  texts : ∃ texts, after.written = before.written ++ texts ∧ Shows str texts.flatten
    ∧ ∀ text ∈ texts, ∀ c ∈ text, isControl c = false
  attrs : ∀ video, after.attrs video = false
  pair : after.pair = 0

/-- Text is shown as it is. -/
theorem shows_text {pre str shown : Bytes} (isText : ∀ c ∈ pre, isControl c = false)
    (rest : Shows str shown)
    : Shows (pre ++ str) (pre ++ shown) := by
  induction pre with
  | nil => exact rest
  | cons c pre ih =>
      exact .text (isText c List.mem_cons_self)
        (ih fun d member => isText d (List.mem_cons_of_mem c member))

/-- What is written of the text in front of a control byte. -/
theorem written_text (win : Screen) (pre : Bytes)
    : ∃ texts, (if pre = [] then win else waddstr win pre).written = win.written ++ texts
      ∧ texts.flatten = pre ∧ ∀ text ∈ texts, text = pre := by
  by_cases none' : pre = []
  · exact ⟨[], by rw [if_pos none', List.append_nil], none'.symm, nofun⟩
  · exact ⟨[pre], by rw [if_neg none']; rfl, by simp, by simp⟩

/-- The symbol of a control byte takes its place. -/
theorem scrub_symbol {c : Byte} {code : Nat} (isSymbol : (c, code) ∈ repls)
    : scrub [c] = Utf8.charBytes code := by
  have all : ∀ entry ∈ repls, scrub [entry.1] = Utf8.charBytes entry.2 := by decide +kernel
  exact all (c, code) isSymbol

section Rounds

variable {colorPairs : Nat} {l : Locals} {win : Screen} {pre rest : Bytes} {c : Byte}

/-- What a round is for. -/
abbrev RoundMeets (colorPairs : Nat) (state : Locals × Screen) : Prop :=
  (addircstrRound colorPairs state).Meets (fun _ => True)
    (fun state result => ∃ after, result = .ok after ∧ Rendered state.2 after state.1.str)
    (fun state => state.1.str.length) state

/-- A round that goes on behind a control byte is good if it writes what is shown of the control
byte and of what is taken behind it.
-/
theorem meets_again {next : Locals × Screen} (more : List Bytes)
    (round : addircstrRound colorPairs (l, win) = .again next)
    (whole : l.str = pre ++ c :: rest) (isText : ∀ d ∈ pre, isControl d = false)
    (shorter : next.1.str.length ≤ rest.length)
    (written : next.2.written
      = (if pre = [] then win else waddstr win pre).written ++ more)
    (printable : ∀ text ∈ more, ∀ d ∈ text, isControl d = false)
    (shows' : ∀ shown, Shows next.1.str shown → Shows (c :: rest) (more.flatten ++ shown))
    : RoundMeets colorPairs (l, win) := by
  rw [RoundMeets, round]
  refine .again trivial ?_ ?_
  · rw [whole, List.length_append, List.length_cons]
    omega
  · rintro _ ⟨after, rfl, rendered⟩
    obtain ⟨texts, isWritten, isShown, isPrintable⟩ := rendered.texts
    obtain ⟨front, isFront, flat, areFront⟩ := written_text win pre
    refine ⟨after, rfl, ⟨front ++ (more ++ texts), ?_, ?_, ?_⟩, rendered.attrs, rendered.pair⟩
    · rw [isWritten, written, isFront, List.append_assoc, List.append_assoc]
    · rw [whole, List.flatten_append, flat, List.flatten_append]
      exact shows_text isText (shows' _ isShown)
    · intro text member
      rcases List.mem_append.mp member with isFront' | member
      · exact areFront text isFront' ▸ isText
      · exact (List.mem_append.mp member).elim (printable text) (isPrintable text)

/-- A round leaves the loop at the end of the message. -/
theorem meets_leave
    (round : addircstrRound colorPairs (l, win)
      = .leave (.ok (normal (if pre = [] then win else waddstr win pre))))
    (whole : l.str = pre) (isText : ∀ d ∈ pre, isControl d = false)
    : RoundMeets colorPairs (l, win) := by
  rw [RoundMeets, round]
  obtain ⟨front, isFront, flat, areFront⟩ := written_text win pre
  refine .leave ⟨_, rfl, ⟨front, isFront, ?_, ?_⟩, fun _ => rfl, rfl⟩
  · have shown := shows_text isText .nil
    rw [List.append_nil] at shown
    rw [flat]
    exact whole ▸ shown
  · exact fun text member => areFront text member ▸ isText

/-- A round that goes on behind a formatting code is good if it writes nothing more. -/
theorem meets_code {next : Locals × Screen} (isCode : c ∈ codes)
    (round : addircstrRound colorPairs (l, win) = .again next)
    (whole : l.str = pre ++ c :: rest) (isText : ∀ d ∈ pre, isControl d = false)
    (str : next.1.str = rest)
    (written : next.2.written = (if pre = [] then win else waddstr win pre).written)
    : RoundMeets colorPairs (l, win) := by
  refine meets_again [] round whole isText (Nat.le_of_eq (congrArg _ str)) ?_ nofun ?_
  · rw [written, List.append_nil]
  · exact fun shown shows' => .code isCode (str ▸ shows')

/-- A handler writes nothing. -/
theorem Handler.call_written (win : Screen) (handler : Handler)
    : (handler.call win).written = win.written := by
  cases handler <;> rfl

/-- Every round is good, by cases on the control byte. -/
theorem round_meets (colorPairs : Nat) (l : Locals) (win : Screen)
    : RoundMeets colorPairs (l, win) := by
  by_cases isEmpty : l.str = []
  · refine @meets_leave _ _ _ [] ?_ isEmpty nofun
    simp only [addircstrRound, if_pos isEmpty, if_true]
  · obtain ⟨pre, ctrl, rest, found, whole, isText, atEnd | ⟨c, rfl, control⟩⟩ :=
      textPattern_spec l.str
    · obtain ⟨rfl, rfl⟩ := atEnd
      refine meets_leave ?_ (by simpa using whole) isText
      simp only [addircstrRound, if_neg isEmpty, found, if_true]
    · replace whole : l.str = pre ++ c :: rest := whole
      have round := show addircstrRound colorPairs (l, win) = _ by
        simp only [addircstrRound, if_neg isEmpty, found]
        rfl
      by_cases isCode : c ∈ codes
      · have calls (handler : Handler) :=
          handler.call_written (if pre = [] then win else waddstr win pre)
        simp only [codes, List.mem_cons, List.not_mem_nil, or_false] at isCode
        rcases isCode with rfl | rfl | rfl | rfl | rfl
        · exact meets_code (by decide) round whole isText rfl (calls _)
        · exact meets_code (by decide) round whole isText rfl rfl
        · exact meets_code (by decide) round whole isText rfl (calls _)
        · exact meets_code (by decide) round whole isText rfl (calls _)
        · exact meets_code (by decide) round whole isText rfl (calls _)
      · by_cases isColor : c = 0x03
        · subst isColor
          obtain ⟨digits, next, after, isOk, same, isColor, longest, written⟩ :=
            color_ok colorPairs { l with str := rest } (if pre = [] then win else waddstr win pre)
          replace same : rest = digits ++ next.str := same
          have goesOn : addircstrRound colorPairs (l, win) = .again (next, after) := by
            rw [round]
            simp only [List.cons_ne_nil, if_false, isOk]
            rfl
          refine meets_again [] goesOn whole isText ?_ ?_ nofun ?_
          · rw [same, List.length_append]
            exact Nat.le_add_left _ _
          · rw [written, List.append_nil]
          · intro shown shows'
            rw [same]
            exact .color isColor longest shows'
        · obtain ⟨code, isSymbol⟩ := exists_symbol control
          have goesOn : addircstrRound colorPairs (l, win)
              = .again ({ l with str := rest },
                waddstr (if pre = [] then win else waddstr win pre) (scrub [c])) := by
            have others := isCode
            simp only [codes, List.mem_cons, List.not_mem_nil, or_false, not_or] at others
            obtain ⟨notBold, notReset, notUnderline, notReverse, notItalic⟩ := others
            rw [round]
            simp only [List.cons.injEq, and_true, List.cons_ne_nil, if_false, notBold, notReset,
              notUnderline, notReverse, notItalic, isColor]
          rw [scrub_symbol isSymbol] at goesOn
          refine meets_again [Utf8.charBytes code] goesOn whole isText (Nat.le_refl _) rfl ?_ ?_
          · intro text member
            rw [List.mem_singleton.mp member]
            exact (symbol_spec isSymbol).2.2
          · intro shown shows'
            rw [List.flatten_singleton]
            exact .symbol isCode isColor isSymbol shows'

end Rounds

/-- The renderer ends, for every message and on every window: what is shown of the message, and
only that, was written, with no control byte in it, and the window has its normal attributes.
-/
theorem addircstr_rendered (colorPairs : Nat) (win : Screen) (str : Bytes)
    : ∃ after texts, addircstr colorPairs win str (str.length + 1) = some (.ok after)
      ∧ after.written = win.written ++ texts
      ∧ (∀ shown, Shows str shown ↔ shown = texts.flatten)
      ∧ (∀ text ∈ texts, ∀ c ∈ text, isControl c = false)
      ∧ (∀ video, after.attrs video = false) ∧ after.pair = 0 := by
  obtain ⟨_, ends, after, rfl, rendered⟩ := run_total
    (fun (state : Locals × Screen) _ => round_meets colorPairs state.1 state.2)
    (str.length + 1) (.init str, normal win) trivial (Nat.lt_succ_self _)
  obtain ⟨texts, written, shows', printable⟩ := rendered.texts
  refine ⟨after, texts, ends, written, fun shown => ⟨fun other => other.unique shows', ?_⟩,
    printable, rendered.attrs, rendered.pair⟩
  rintro rfl
  exact shows'

end Snowcone.Drawing
