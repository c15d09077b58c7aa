import Snowcone.Foundations.Bytes
import Snowcone.Foundations.LuaPattern

/-! The text of a Lua pattern: sets, classes, repetitions, captures and anchors, and searching
for a match. Lazy repetitions, frontiers, balances and back references are left out.
-/

namespace LuaPattern

open Bytes

/-- A character is in a range. -/
def between (low high c : Byte) : Bool := low ≤ c && c ≤ high

/-- `isalpha` in the C locale. -/
def isAlpha (c : Byte) : Bool := between 0x41 0x5a c || between 0x61 0x7a c

/-- `isdigit`. -/
def isDigitChar (c : Byte) : Bool := between 0x30 0x39 c

/-- `match_class`: the class of the letter behind a percent sign, or the character itself. -/
def classOf (letter : Byte) : Byte → Bool :=
  let lower := if between 0x41 0x5a letter then letter + 0x20 else letter
  let accepts : Option (Byte → Bool) :=
    if lower = chr 'a' then some isAlpha
    else if lower = chr 'c' then some (fun c => between 0 0x1f c || c == 0x7f)
    else if lower = chr 'd' then some isDigitChar
    else if lower = chr 'g' then some (between 0x21 0x7e)
    else if lower = chr 'l' then some (between 0x61 0x7a)
    else if lower = chr 'p' then
      some (fun c => between 0x21 0x7e c && !(isAlpha c || isDigitChar c))
    else if lower = chr 's' then some (fun c => between 0x09 0x0d c || c == 0x20)
    else if lower = chr 'u' then some (between 0x41 0x5a)
    else if lower = chr 'w' then some (fun c => isAlpha c || isDigitChar c)
    else if lower = chr 'x' then
      some (fun c => isDigitChar c || between 0x41 0x46 c || between 0x61 0x66 c)
    else none
  match accepts with
  | none => (· == letter)
  | some accepts => if lower = letter then accepts else (fun c => !accepts c)

/-- `matchbracketclass`: the characters that a set names. -/
def setNames : Bytes → Byte → Bool
  | [], _ => false
  | [a], c => c == a
  | [a, b], c => if a = chr '%' then classOf b c else c == a || c == b
  | a :: b :: d :: rest, c =>
      if a = chr '%' then classOf b c || setNames (d :: rest) c
      else if b = chr '-' then between a d c || setNames rest c
      else c == a || setNames (b :: d :: rest) c

/-- `classEnd`, inside of a set: the text up to the closing bracket, and what follows it. -/
def untilBracket : Bytes → Option (Bytes × Bytes)
  | [] => none
  | c :: rest =>
      if c = chr ']' then some ([], rest)
      else if c = chr '%' then
        match rest with
        | [] => none
        | d :: rest => (untilBracket rest).map (fun (set, rest) => (c :: d :: set, rest))
      else (untilBracket rest).map (fun (set, rest) => (c :: set, rest))

/-- The set behind an opening bracket; its first character does not close it. -/
def readSet (text : Bytes) : Option ((Byte → Bool) × Bytes) :=
  let (complement, text) :=
    match text with
    | c :: rest => if c = chr '^' then (true, rest) else (false, text)
    | [] => (false, text)
  match text with
  | [] => none
  | c :: rest =>
      let whole :=
        if c = chr '%' then
          match rest with
          | [] => none
          | d :: rest => (untilBracket rest).map (fun (set, rest) => (c :: d :: set, rest))
        else (untilBracket rest).map (fun (set, rest) => (c :: set, rest))
      whole.map (fun (set, rest) =>
        (if complement then (fun c => !setNames set c) else setNames set, rest))

/-- A single character class at the start of a pattern. -/
def readClass : Bytes → Option ((Byte → Bool) × Bytes)
  | [] => none
  | c :: rest =>
      if c = chr '.' then some (fun _ => true, rest)
      else if c = chr '%' then
        match rest with
        | [] => none
        | d :: rest => some (classOf d, rest)
      else if c = chr '[' then readSet rest
      else some ((· == c), rest)

/-- The repetition behind a class. -/
def readRepeat : Bytes → Repeat × Bytes
  | [] => (.once, [])
  | c :: rest =>
      if c = chr '?' then (.optional, rest)
      else if c = chr '*' then (.many, rest)
      else if c = chr '+' then (.plus, rest)
      else (.once, c :: rest)

/-- The items of a pattern, of which every one takes at least one character of the text. -/
def readItems : Nat → Bytes → Option (List (Item Byte))
  | _, [] => some []
  | 0, _ => none
  | n + 1, c :: rest =>
      if c = chr '(' then (readItems n rest).map (.openCapture :: ·)
      else if c = chr ')' then (readItems n rest).map (.closeCapture :: ·)
      else if c = chr '$' ∧ rest = [] then some [.endOfSubject]
      else
        match readClass (c :: rest) with
        | none => none
        | some (accepts, rest) =>
            let (times, rest) := readRepeat rest
            (readItems n rest).map (.single accepts times :: ·)

/-- A pattern: whether it is anchored at the start, and its items. -/
def readPattern : Bytes → Option (Bool × List (Item Byte))
  | [] => some (false, [])
  | c :: rest =>
      if c = chr '^' then (readItems rest.length rest).map ((true, ·))
      else (readItems (c :: rest).length (c :: rest)).map ((false, ·))

/-- Search for a match: at the start, or anywhere in the subject. -/
def search {α : Type} (anchored : Bool) (items : List (Item α)) : List α → Bool
  | [] => (matchHere items [] []).isSome
  | c :: subject =>
      (matchHere items (c :: subject) []).isSome || !anchored && search anchored items subject

/-- Whether `string.find` finds a pattern; a malformed one makes it raise an error. -/
def stringFind (subject pattern : Bytes) : Except Bytes Bool :=
  match readPattern pattern with
  | none => .error (lit "malformed pattern")
  | some (anchored, items) => .ok (search anchored items subject)

/-- An anchored search for one class up to the end: all characters are of that class, and
there are as many as the repetition allows.
-/
theorem search_class_iff {α : Type} {accepts : α → Bool} {times : Repeat} {subject : List α}
    : search true [.single accepts times, .endOfSubject] subject = true
      ↔ (∀ c ∈ subject, accepts c = true) ∧ times.Allows subject.length := by
  have found : search true [.single accepts times, .endOfSubject] subject
      = (stringMatch [.single accepts times, .endOfSubject] subject).isSome := by
    cases subject <;> simp [search, stringMatch]
  rw [found, Option.isSome_iff_exists]
  constructor
  · rintro ⟨result, isFound⟩
    obtain ⟨taken, rest, rfl, accepted, allowed, fits⟩ :=
      fits_single_iff.mp (fits_of_matchHere isFound)
    obtain ⟨rfl, -⟩ := fits_endOfSubject_iff.mp fits
    rw [List.append_nil]
    exact ⟨accepted, allowed⟩
  · rintro ⟨accepted, allowed⟩
    have fits : Fits [.single accepts times, .endOfSubject] (subject ++ []) [] [] :=
      .single subject accepted allowed (.endOfSubject .done)
    rw [List.append_nil] at fits
    exact matchHere_of_fits fits

section Complement

variable {set : Bytes}

/-- A character that has no meaning of its own in a set. -/
def PlainInSet (c : Byte) : Prop := c ≠ chr ']' ∧ c ≠ chr '%' ∧ c ≠ chr '-'

instance (c : Byte) : Decidable (PlainInSet c) := inferInstanceAs (Decidable (_ ∧ _))

/-- A plain character in front of others stands for itself. -/
theorem setNames_cons_of_plain {a c : Byte} (plain : ∀ c ∈ a :: set, PlainInSet c)
    : setNames (a :: set) c = (c == a || setNames set c) := by
  have notPercent := (plain a (by simp)).2.1
  rcases set with _ | ⟨b, _ | ⟨d, rest⟩⟩
  · simp [setNames]
  · simp [setNames, notPercent]
  · have notRange := (plain b (by simp)).2.2
    simp [setNames, notPercent, notRange]

/-- Plain characters stand for themselves, by induction on them. -/
theorem setNames_of_plain {c : Byte} (plain : ∀ c ∈ set, PlainInSet c)
    : setNames set c = true ↔ c ∈ set := by
  induction set with
  | nil => simp [setNames]
  | cons a set ih =>
      have later := ih (fun c isIn => plain c (List.mem_cons_of_mem a isIn))
      rw [setNames_cons_of_plain plain, Bool.or_eq_true, later, beq_iff_eq, List.mem_cons]

/-- Plain characters do not close a set, by induction on them. -/
theorem untilBracket_of_plain (plain : ∀ c ∈ set, PlainInSet c) (rest : Bytes)
    : untilBracket (set ++ chr ']' :: rest) = some (set, rest) := by
  induction set with
  | nil =>
      rw [List.nil_append, untilBracket.eq_def]
      exact if_pos rfl
  | cons c set ih =>
      obtain ⟨notClosing, notPercent, -⟩ := plain c (by simp)
      have later := ih (fun c isIn => plain c (List.mem_cons_of_mem _ isIn))
      rw [List.cons_append, untilBracket.eq_def]
      simp only [if_neg notClosing, if_neg notPercent, later, Option.map_some]

/-- The complement of a set of plain characters. -/
theorem readSet_of_plain (isSome : set ≠ []) (plain : ∀ c ∈ set, PlainInSet c) (rest : Bytes)
    : readSet (chr '^' :: (set ++ chr ']' :: rest))
      = some ((fun c => !setNames set c), rest) := by
  cases set with
  | nil => exact absurd rfl isSome
  | cons c set =>
      have notPercent := (plain c (by simp)).2.1
      have later := untilBracket_of_plain
        (fun c isIn => plain c (List.mem_cons_of_mem _ isIn)) rest
      simp [readSet, notPercent, later]

/-- The pattern for texts that are not empty and have none of some plain characters. -/
theorem stringFind_complement_iff (isSome : set ≠ []) (plain : ∀ c ∈ set, PlainInSet c)
    {subject : Bytes}
    : stringFind subject (lit "^[^" ++ set ++ lit "]+$") = .ok true
      ↔ (∀ c ∈ subject, c ∉ set) ∧ 1 ≤ subject.length := by
  have read : readPattern (lit "^[^" ++ set ++ lit "]+$")
      = some (true, [.single (fun c => !setNames set c) .plus, .endOfSubject]) := by
    have spelled : lit "^[^" ++ set ++ lit "]+$"
        = chr '^' :: chr '[' :: chr '^' :: (set ++ chr ']' :: [chr '+', chr '$']) := by
      simp [lit]
    have isSet := readSet_of_plain isSome plain [chr '+', chr '$']
    rw [spelled, readPattern, if_pos rfl, List.length_cons, readItems]
    have isClass : readClass (chr '[' :: chr '^' :: (set ++ [chr ']', chr '+', chr '$']))
        = some ((fun c => !setNames set c), [chr '+', chr '$']) := isSet
    have longEnough : (chr '^' :: (set ++ [chr ']', chr '+', chr '$'])).length
        = (set.length + 3) + 1 := by simp
    rw [isClass, longEnough]
    rfl
  rw [stringFind, read]
  simp only [Except.ok.injEq]
  rw [search_class_iff]
  refine and_congr_left fun _ => forall₂_congr fun c _ => ?_
  rw [Bool.not_eq_true', ← Bool.not_eq_true, setNames_of_plain plain]

end Complement

end LuaPattern
