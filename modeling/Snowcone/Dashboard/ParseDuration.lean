import Mathlib.Algebra.BigOperators.Group.List.Basic
import Mathlib.Tactic.Ring
import Snowcone.Foundations.Action
import Snowcone.Foundations.Decimal
import Snowcone.Foundations.LuaGsub

/-! Durations in commands: what is read of a text, and how far integers of 64 bits go. -/

namespace Snowcone.Dashboard.ParseDuration

open Bytes LuaPattern

/-- `units` -/
def units : List (Bytes × Int) :=
  [(lit "m", 1), (lit "h", 60), (lit "d", 1440), (lit "w", 10080), (lit "M", 43200),
    (lit "Y", 525600)]

/-- A space. -/
def isSpace (c : Byte) : Bool := c == chr ' '

/-- `[mhdwMY]` -/
def isUnit (c : Byte) : Bool := (lit "mhdwMY").contains c

/-- ` *(%-?%d+) *([mhdwMY]) *` -/
def pattern : List (Item Byte) :=
  [.single isSpace .many, .openCapture, .single (· == chr '-') .optional,
    .single Decimal.isNumeral .plus, .closeCapture, .single isSpace .many, .openCapture,
    .single isUnit .once, .closeCapture, .single isSpace .many]

/-- The number that a numeral stands for. -/
def numeral (n : Bytes) : Int :=
  if n.head? = some (chr '-') then -(Decimal.value n.tail) else Decimal.value n

/-- `math.tointeger` of a numeral: one that is out of range is read as a floating-point number,
and if it is rounded to the least integer, it is that.
-/
def tointeger (n : Bytes) : Option Int :=
  if numeral n < -0x8000000000000400 ∨ 0x8000000000000000 ≤ numeral n then none
  else some (max (-0x8000000000000000) (numeral n))

/-- An integer of Lua. -/
def wrap (n : Int) : Int := n.bmod 0x10000000000000000

/-- `f`, with `acc` as the state. -/
def f (captures : List Bytes) : EStateM Bytes Int Bytes :=
  match captures with
  | [n, u] => do
      match tointeger n, units.lookup u with
      | some n, some minutes => do
          modify (fun acc => wrap (acc + wrap (n * minutes)))
          return []
      | _, _ => throw (lit "attempt to perform arithmetic on a nil value")
  | _ => throw (lit "attempt to perform arithmetic on a nil value")

/-- `parse_duration` -/
def parseDuration (str : Bytes) : Except Bytes (Option Int) :=
  match gsub pattern str f 0 with
  | .ok leftover acc => .ok (if leftover = [] then some acc else none)
  | .error message _ => .error message

-----------------------------------------------------------------------------------------
-- What durations are
-----------------------------------------------------------------------------------------

/-- A term of a duration: an integer and a unit, with spaces around. -/
structure Term where
  before : Nat
  negative : Bool
  digits : Bytes
  areDigits : ∀ c ∈ digits, Decimal.isNumeral c = true
  nonempty : digits ≠ []
  between : Nat
  unit : Bytes × Int
  isUnit : unit ∈ units
  behind : Nat

namespace Term

/-- The integer as it is written. -/
def written (term : Term) : Bytes := (if term.negative then [chr '-'] else []) ++ term.digits

/-- The integer. -/
def integer (term : Term) : Int :=
  if term.negative then -(Decimal.value term.digits) else Decimal.value term.digits

/-- The term as it is written. -/
def text (term : Term) : Bytes :=
  List.replicate term.before (chr ' ') ++ (term.written
    ++ (List.replicate term.between (chr ' ') ++ (term.unit.1
      ++ List.replicate term.behind (chr ' '))))

/-- The minutes that the term stands for. -/
def value (term : Term) : Int := term.integer * term.unit.2

/-- How much more minutes are read if the integer is rounded. -/
def rounding (term : Term) : Int :=
  (max (-0x8000000000000000) term.integer - term.integer) * term.unit.2

end Term

/-- A sequence of terms as it is written. -/
def written (terms : List Term) : Bytes := (terms.map Term.text).flatten

/-- The exact sum of a sequence of terms. -/
def total (terms : List Term) : Int := (terms.map Term.value).sum

/-- What should be made of a text: there is no error; of a sequence of terms it is the exact sum,
unless that is out of range; and of another text it is nothing.
-/
def Meets (str : Bytes) : Prop :=
  ∃ result, parseDuration str = .ok result
    ∧ (∀ terms, str = written terms
      → result = if Decimal.InLongLong (total terms) then some (total terms) else none)
    ∧ ((∀ terms, str ≠ written terms) → result = none)

/-- The integers in front of units that are found in a text. -/
def integers (str : Bytes) : List Bytes := (matched (pieces pattern str)).map (·.headD [])

/-- Every integer that is found can be read; and the sum of a sequence of terms is in range, with
nothing added by rounding.
-/
def InRange (str : Bytes) : Prop :=
  (∀ n ∈ integers str, (tointeger n).isSome)
  ∧ ∀ terms, str = written terms → Decimal.InLongLong (total terms)
    ∧ (0x10000000000000000 : Int) ∣ (terms.map Term.rounding).sum

-----------------------------------------------------------------------------------------
-- Matching a term
-----------------------------------------------------------------------------------------

/-- What is captured of a term. -/
def Term.captures (term : Term) : List Bytes := [term.written, term.unit.1]

/-- A character that can be a unit is one. -/
theorem exists_unit {c : Byte} (isUnit' : isUnit c = true) : ∃ unit ∈ units, unit.1 = [c] := by
  have known : ∀ c ∈ lit "mhdwMY", ∃ unit ∈ units, unit.1 = [c] := by decide +kernel
  exact known c (List.contains_iff_mem.mp isUnit')

/-- A unit is one character, is found in the table, and is neither a space nor a digit. -/
theorem unit_of_mem {unit : Bytes × Int} (isUnit' : unit ∈ units)
    : ∃ c, unit.1 = [c] ∧ isUnit c = true ∧ isSpace c = false ∧ Decimal.isNumeral c = false
      ∧ units.lookup unit.1 = some unit.2 := by
  have known : ∀ unit ∈ units, ∃ c ∈ unit.1.head?, unit.1 = [c] ∧ isUnit c = true
      ∧ isSpace c = false ∧ Decimal.isNumeral c = false
      ∧ units.lookup unit.1 = some unit.2 := by
    decide
  obtain ⟨c, -, isC⟩ := known unit isUnit'
  exact ⟨c, isC⟩

/-- Characters that are spaces. -/
theorem eq_spaces {text : Bytes} (areSpaces : ∀ c ∈ text, isSpace c = true)
    : text = List.replicate text.length (chr ' ') :=
  List.eq_replicate_of_mem fun c member => by simpa [isSpace] using areSpaces c member

/-- What is matched is a term. -/
theorem matchWhole_sound {subject taken : Bytes} {captures : List Bytes}
    (found : matchWhole pattern subject = some (taken, captures))
    : ∃ (term : Term) (rest : Bytes), subject = taken ++ rest ∧ taken = term.text
      ∧ captures = term.captures := by
  obtain ⟨inner, fits, isCaptures⟩ := fits_of_matchWhole found
  simp only [pattern, List.cons_append, List.nil_append, fits_openCapture_iff,
    fits_single_iff, fits_closeCapture_iff, fits_nil_iff] at fits
  obtain ⟨before, _, rfl, areBefore, -, sign, _, rfl, isSign, optional, digits, _, rfl, areDigits,
    some, between, _, rfl, areBetween, -, unit, _, rfl, isUnit', once, behind, rest, rfl,
    areBehind, -, isResult⟩ := fits
  have parts : taken = before ++ (sign ++ (digits ++ (between ++ (unit ++ behind))))
      ∧ inner = [sign ++ digits, unit] := by
    simpa [extend, finishLast] using isResult
  obtain ⟨rfl, rfl⟩ := parts
  obtain ⟨c, rfl⟩ := List.length_eq_one_iff.mp once
  obtain ⟨unit, isIn, isC⟩ := exists_unit (isUnit' c List.mem_cons_self)
  have isWritten : sign = if decide (sign ≠ []) then [chr '-'] else [] := by
    have atMostOne : sign.length ≤ 1 := optional
    cases sign with
    | nil => rfl
    | cons c more =>
        obtain rfl : more = [] := by simpa using atMostOne
        simpa using isSign c
  let term : Term := {
    before := before.length, negative := decide (sign ≠ []), digits, areDigits
    nonempty := List.ne_nil_of_length_pos some
    between := between.length, unit, isUnit := isIn, behind := behind.length }
  refine ⟨term, rest, by simp only [List.append_assoc], ?_, ?_⟩
  · rw [Term.text, Term.written, ← isWritten, ← eq_spaces areBefore, ← eq_spaces areBetween,
      ← eq_spaces areBehind, isC, List.append_assoc]
  · rw [isCaptures, Term.captures, Term.written, ← isWritten, isC]
    rfl

/-- A text that does not begin with a space. -/
def NoSpace (text : Bytes) : Prop := ∀ c ∈ text.head?, isSpace c = false

/-- A digit is neither a space nor a sign. -/
theorem of_isNumeral {c : Byte} (isDigit : Decimal.isNumeral c = true)
    : isSpace c = false ∧ (c == chr '-') = false := by
  constructor
  · refine Bool.eq_false_iff.mpr fun same => ?_
    rw [isSpace, beq_iff_eq] at same
    subst same
    exact absurd isDigit (by decide)
  · refine Bool.eq_false_iff.mpr fun same => ?_
    rw [beq_iff_eq] at same
    subst same
    exact absurd isDigit (by decide)

/-- An integer does not begin with a space. -/
theorem Term.noSpace_written (term : Term) (rest : Bytes) : NoSpace (term.written ++ rest) := by
  obtain ⟨digit, digits, isDigits⟩ := List.exists_cons_of_ne_nil term.nonempty
  have isDigit := term.areDigits digit (isDigits ▸ List.mem_cons_self)
  rw [Term.written, isDigits]
  cases term.negative with
  | true =>
      rintro _ ⟨⟩
      rfl
  | false =>
      rintro _ ⟨⟩
      exact (of_isNumeral isDigit).1

/-- A run of spaces is of spaces. -/
theorem isSpace_of_mem {count : Nat} : ∀ c ∈ List.replicate count (chr ' '), isSpace c = true := by
  intro c member
  rw [List.eq_of_mem_replicate member]
  rfl

/-- What follows a run of spaces is the head of the text, unless there is a space before it. -/
theorem head_spaces {count : Nat} {c : Byte} {rest : Bytes} {accepts : Byte → Bool}
    (notSpace : accepts (chr ' ') = false) (refused : accepts c = false)
    : ∀ c' ∈ (List.replicate count (chr ' ') ++ c :: rest).head?, accepts c' = false := by
  cases count with
  | zero =>
      rintro _ ⟨⟩
      exact refused
  | succ count =>
      rintro _ ⟨⟩
      exact notSpace

/-- A term is matched as a whole, with all the spaces behind it. -/
theorem matchWhole_term (term : Term) (more : Nat) {rest : Bytes} (stops : NoSpace rest)
    : matchWhole pattern (term.text ++ List.replicate more (chr ' ') ++ rest)
      = some (term.text ++ List.replicate more (chr ' '), term.captures) := by
  obtain ⟨c, isC, isUnit', notSpace, notDigit, -⟩ := unit_of_mem term.isUnit
  have behind : List.replicate term.behind (chr ' ') ++ List.replicate more (chr ' ')
      = List.replicate (term.behind + more) (chr ' ') := List.replicate_append_replicate
  have whole : term.text ++ List.replicate more (chr ' ')
      = List.replicate term.before (chr ' ') ++ (term.written
        ++ (List.replicate term.between (chr ' ')
          ++ c :: List.replicate (term.behind + more) (chr ' '))) := by
    rw [Term.text, isC]
    simp only [List.append_assoc, List.cons_append, List.nil_append, behind]
  have digits (captures : List (Capture Byte)) (items : List (Item Byte)) (after : Bytes)
      (result : List Bytes) (ends : ∀ c ∈ after.head?, Decimal.isNumeral c = false)
      (found : matchHere items after (extend captures term.written) = some result)
      : matchHere (.single (· == chr '-') .optional :: .single Decimal.isNumeral .plus :: items)
          (term.written ++ after) captures
        = some result := by
    obtain ⟨digit, digits, isDigits⟩ := List.exists_cons_of_ne_nil term.nonempty
    have isDigit := term.areDigits digit (isDigits ▸ List.mem_cons_self)
    rw [Term.written] at found ⊢
    cases sign : term.negative with
    | true =>
        rw [sign] at found
        refine matchHere_optional_taken (beq_self_eq_true _) ?_
        refine matchHere_plus_longest term.areDigits term.nonempty ends ?_
        rwa [extend_extend]
    | false =>
        rw [sign] at found
        simp only [Bool.false_eq_true, if_false, List.nil_append] at found ⊢
        rw [matchHere_optional_skipped]
        · exact matchHere_plus_longest term.areDigits term.nonempty ends found
        · rw [isDigits]
          rintro _ ⟨⟩
          exact (of_isNumeral isDigit).2
  have found : stringMatch (.openCapture :: (pattern ++ [.closeCapture]))
      (term.text ++ List.replicate more (chr ' ') ++ rest)
      = some [term.text ++ List.replicate more (chr ' '), term.written, term.unit.1] := by
    rw [whole]
    simp only [List.append_assoc, List.cons_append]
    refine matchHere_many_longest isSpace_of_mem (term.noSpace_written _) ?_
    refine digits _ _ _ _ (head_spaces rfl notDigit) ?_
    refine matchHere_many_longest isSpace_of_mem ?_ ?_
    · rintro _ ⟨⟩
      exact notSpace
    refine (matchHere_once isUnit').trans ?_
    refine matchHere_many_longest isSpace_of_mem stops ?_
    simp [matchHere, extend, finishLast, isC]
  rw [matchWhole, List.cons_append, found]
  rfl

-----------------------------------------------------------------------------------------
-- The pieces of a text
-----------------------------------------------------------------------------------------

/-- A term is not empty. -/
theorem Term.text_ne_nil (term : Term) : term.text ≠ [] := by
  obtain ⟨digit, digits, isDigits⟩ := List.exists_cons_of_ne_nil term.nonempty
  have member : digit ∈ term.text := by simp [Term.text, Term.written, isDigits]
  exact List.ne_nil_of_mem member

/-- What is matched is not empty. -/
theorem pattern_advances (subject taken : Bytes) (captures : List Bytes)
    (found : matchWhole pattern subject = some (taken, captures))
    : taken ≠ [] ∧ ∃ rest, subject = taken ++ rest := by
  obtain ⟨term, rest, same, rfl, -⟩ := matchWhole_sound found
  exact ⟨term.text_ne_nil, rest, same⟩

/-- The pieces of a sequence of terms are its terms, by induction on the terms behind the first. -/
theorem pieces_written (first : Term) (terms : List Term) (fresh : Bool)
    : piecesFrom pattern (written (first :: terms)) fresh
      = (first :: terms).map (fun term => .matched term.captures) := by
  induction terms generalizing first fresh with
  | nil =>
      have ends : NoSpace [] := by simp [NoSpace]
      have found := matchWhole_term first 0 ends
      rw [List.replicate_zero, List.append_nil first.text] at found
      have whole : written [first] = first.text ++ [] := rfl
      rw [whole, piecesFrom_take first.text_ne_nil found, piecesFrom_nil rfl]
      rfl
  | cons second terms ih =>
      have whole : written (first :: second :: terms)
          = first.text ++ List.replicate second.before (chr ' ')
            ++ written ({ second with before := 0 } :: terms) := by
        have parts : second.text
            = List.replicate second.before (chr ' ') ++ Term.text { second with before := 0 } :=
          rfl
        simp only [written, List.map_cons, List.flatten_cons, parts, List.append_assoc]
      have stops : NoSpace (written ({ second with before := 0 } :: terms)) := by
        have begins : written ({ second with before := 0 } :: terms)
            = second.written ++ (List.replicate second.between (chr ' ') ++ (second.unit.1
              ++ List.replicate second.behind (chr ' ')) ++ written terms) := by
          simp [written, Term.text, Term.written]
        rw [begins]
        exact second.noSpace_written _
      rw [whole, piecesFrom_take _ (matchWhole_term first second.before stops), ih]
      · rfl
      · exact List.append_ne_nil_of_left_ne_nil first.text_ne_nil _

/-- Where nothing is kept, a text is a sequence of terms. -/
theorem written_of_kept (str : Bytes) (fresh : Bool)
    : kept (piecesFrom pattern str fresh) = [] → ∃ terms, str = written terms := by
  refine @piecesFrom_induct _ pattern
    (fun str pieces => kept pieces = [] → ∃ terms, str = written terms) pattern_advances
    (fun _ => ⟨[], rfl⟩) ?_ ?_ str fresh
  · intro c subject pieces _ _ nothing
    cases nothing
  · intro taken captures rest pieces found ih nothing
    obtain ⟨term, _, -, rfl, -⟩ := matchWhole_sound found
    obtain ⟨terms, rfl⟩ := ih nothing
    exact ⟨term :: terms, rfl⟩

/-- Every match is that of a term. -/
theorem term_of_matched (str : Bytes) (fresh : Bool)
    : ∀ captures ∈ matched (piecesFrom pattern str fresh), ∃ term : Term,
      captures = term.captures := by
  refine @piecesFrom_induct _ pattern
    (fun _ pieces => ∀ captures ∈ matched pieces, ∃ term : Term, captures = term.captures)
    pattern_advances nofun ?_ ?_ str fresh
  · exact fun _ _ _ _ ih => ih
  · intro taken captures rest pieces found ih
    obtain ⟨term, _, -, -, isCaptures⟩ := matchWhole_sound found
    exact List.forall_mem_cons.mpr ⟨⟨term, isCaptures⟩, ih⟩

-----------------------------------------------------------------------------------------
-- Adding up
-----------------------------------------------------------------------------------------

/-- The integer of a term is its numeral. -/
theorem Term.numeral_written (term : Term) : numeral term.written = term.integer := by
  obtain ⟨digit, digits, isDigits⟩ := List.exists_cons_of_ne_nil term.nonempty
  have isDigit := term.areDigits digit (isDigits ▸ List.mem_cons_self)
  rw [numeral, Term.written, Term.integer]
  cases term.negative with
  | true => rfl
  | false =>
      have notSign : term.digits.head? ≠ some (chr '-') := by
        rw [isDigits]
        rintro ⟨⟩
        exact absurd isDigit (by decide)
      exact if_neg notSign

/-- What is added for a term. -/
def Term.read (term : Term) : Int := max (-0x8000000000000000) term.integer * term.unit.2

/-- The minutes of a term are added if its integer can be read. -/
theorem f_captures (term : Term) (acc : Int)
    : f term.captures acc
      = if (tointeger term.written).isSome then .ok [] (wrap (acc + wrap term.read))
        else .error (lit "attempt to perform arithmetic on a nil value") acc := by
  obtain ⟨-, -, -, -, -, isUnit'⟩ := unit_of_mem term.isUnit
  simp only [f, Term.captures, isUnit']
  by_cases tooLarge : term.integer < -0x8000000000000400 ∨ 0x8000000000000000 ≤ term.integer
  · simp only [tointeger, term.numeral_written, if_pos tooLarge, Option.isSome_none,
      Bool.false_eq_true, if_false]
    rfl
  · simp only [tointeger, term.numeral_written, if_neg tooLarge, Option.isSome_some, if_true]
    rfl

/-- If an integer cannot be read, there is an error. By induction on the pieces. -/
theorem replace_error {pieces : List (Piece Byte)}
    (areTerms : ∀ captures ∈ matched pieces, ∃ term : Term, captures = term.captures)
    (unreadable : ∃ captures ∈ matched pieces, (tointeger (captures.headD [])).isSome = false)
    (acc : Int)
    : ∃ message acc', replace f pieces acc = .error message acc' := by
  induction pieces generalizing acc with
  | nil => simp [matched] at unreadable
  | cons piece pieces ih =>
      cases piece with
      | kept c =>
          obtain ⟨message, acc', stops⟩ := ih areTerms unreadable acc
          exact ⟨message, acc', Action.bind_of_error stops⟩
      | matched captures =>
          obtain ⟨⟨term, rfl⟩, laterTerms⟩ := List.forall_mem_cons.mp areTerms
          have here := f_captures term acc
          cases isReadable : (tointeger term.written).isSome with
          | false =>
              rw [isReadable, if_neg (by decide)] at here
              exact ⟨_, _, Action.bind_of_error here⟩
          | true =>
              rw [isReadable, if_pos rfl] at here
              obtain ⟨captures, member, isNot⟩ := unreadable
              rcases List.mem_cons.mp member with rfl | isLater
              · exact absurd isNot (by simp [Term.captures, isReadable])
              · obtain ⟨message, acc', stops⟩ := ih laterTerms ⟨captures, isLater, isNot⟩
                  (wrap (acc + wrap term.read))
                exact ⟨message, acc',
                  (Action.bind_of_ok here).trans (Action.bind_of_error stops)⟩

/-- If every integer can be read, there is no error, and what is left over is what was kept. By
induction on the pieces.
-/
theorem replace_ok {pieces : List (Piece Byte)}
    (areTerms : ∀ captures ∈ matched pieces, ∃ term : Term, captures = term.captures)
    (readable : ∀ captures ∈ matched pieces, (tointeger (captures.headD [])).isSome = true)
    (acc : Int)
    : ∃ acc', replace f pieces acc = .ok (kept pieces) acc' := by
  induction pieces generalizing acc with
  | nil => exact ⟨acc, rfl⟩
  | cons piece pieces ih =>
      cases piece with
      | kept c =>
          obtain ⟨acc', ends⟩ := ih areTerms readable acc
          exact ⟨acc', Action.bind_of_ok ends⟩
      | matched captures =>
          obtain ⟨⟨term, rfl⟩, laterTerms⟩ := List.forall_mem_cons.mp areTerms
          obtain ⟨isReadable, laterReadable⟩ := List.forall_mem_cons.mp readable
          have here := (f_captures term acc).trans (if_pos isReadable)
          obtain ⟨acc', ends⟩ := ih laterTerms laterReadable (wrap (acc + wrap term.read))
          exact ⟨acc', (Action.bind_of_ok here).trans (Action.bind_of_ok ends)⟩

/-- If every integer can be read, the terms are added up, in the arithmetic of 64 bits. By
induction on the terms.
-/
theorem replace_terms {terms : List Term}
    (readable : ∀ term ∈ terms, (tointeger term.written).isSome = true) (sum : Int)
    : replace f (terms.map (fun term => .matched term.captures)) (wrap sum)
      = .ok [] (wrap (sum + (terms.map Term.read).sum)) := by
  induction terms generalizing sum with
  | nil =>
      rw [List.map_nil, List.map_nil, List.sum_nil, add_zero]
      rfl
  | cons term terms ih =>
      obtain ⟨isReadable, readable⟩ := List.forall_mem_cons.mp readable
      have here := f_captures term (wrap sum)
      have added : wrap (wrap sum + wrap term.read) = wrap (sum + term.read) := by
        rw [wrap, wrap, wrap, wrap, Int.bmod_add_bmod, Int.add_bmod_bmod]
      rw [if_pos isReadable, added] at here
      rw [List.map_cons, List.map_cons, List.sum_cons, ← add_assoc]
      exact (Action.bind_of_ok here).trans (Action.bind_of_ok (ih readable _))

/-- What is read of the terms is their sum and what rounding adds. -/
theorem sum_read (terms : List Term)
    : (terms.map Term.read).sum = total terms + (terms.map Term.rounding).sum := by
  have each : ∀ term ∈ terms, term.read = term.value + term.rounding := by
    intro term _
    rw [Term.read, Term.value, Term.rounding]
    ring
  rw [List.map_congr_left each, List.sum_map_add]
  rfl

/-- A sum is what it wraps to if it is in range and what is added is a multiple of 2^64. -/
theorem wrap_add_eq_iff (sum added : Int)
    : wrap (sum + added) = sum
      ↔ Decimal.InLongLong sum ∧ (0x10000000000000000 : Int) ∣ added := by
  have difference : sum - (sum + added) = -added := by ring
  rw [wrap, Int.bmod_eq_iff (by decide), difference, Int.dvd_neg, Decimal.InLongLong, and_assoc]
  exact Iff.rfl

-----------------------------------------------------------------------------------------
-- Where the sum is right
-----------------------------------------------------------------------------------------

/-- The pieces of a sequence of terms, which may be empty. -/
theorem pieces_terms (terms : List Term)
    : pieces pattern (written terms) = terms.map (fun term => .matched term.captures) := by
  cases terms with
  | nil => exact piecesFrom_nil rfl
  | cons first terms => exact pieces_written first terms true

/-- An integer that cannot be read raises an error. -/
theorem parseDuration_unreadable {str : Bytes}
    (unreadable : ∃ n ∈ integers str, (tointeger n).isSome = false)
    : ∃ message, parseDuration str = .error message := by
  obtain ⟨_, member, isNot⟩ := unreadable
  obtain ⟨captures, isMatch, rfl⟩ := List.mem_map.mp member
  obtain ⟨message, acc, stops⟩ :=
    replace_error (term_of_matched str true) ⟨captures, isMatch, isNot⟩ 0
  refine ⟨message, ?_⟩
  have substitutes : gsub pattern str f 0 = .error message acc := stops
  rw [parseDuration, substitutes]

/-- A sequence of terms with integers that can be read. -/
theorem parseDuration_written {terms : List Term}
    (readable : ∀ n ∈ integers (written terms), (tointeger n).isSome = true)
    : parseDuration (written terms)
      = .ok (some (wrap (total terms + (terms.map Term.rounding).sum))) := by
  have matches' : matched (pieces pattern (written terms)) = terms.map Term.captures := by
    rw [pieces_terms]
    clear readable
    induction terms with
    | nil => rfl
    | cons term terms ih => exact congrArg (term.captures :: ·) ih
  have areReadable : ∀ term ∈ terms, (tointeger term.written).isSome = true := by
    intro term member
    refine readable _ (List.mem_map.mpr ⟨term.captures, ?_, rfl⟩)
    rw [matches']
    exact List.mem_map_of_mem member
  have substitutes : gsub pattern (written terms) f 0
      = .ok [] (wrap (0 + (terms.map Term.read).sum)) := by
    rw [gsub, pieces_terms]
    exact replace_terms areReadable 0
  rw [parseDuration, substitutes, zero_add, sum_read]
  rfl

/-- A text that is no sequence of terms, with integers that can be read. -/
theorem parseDuration_other {str : Bytes} (isOther : ∀ terms, str ≠ written terms)
    (readable : ∀ n ∈ integers str, (tointeger n).isSome = true)
    : parseDuration str = .ok none := by
  obtain ⟨acc, ends⟩ := replace_ok (term_of_matched str true)
    (fun captures isMatch => readable _ (List.mem_map_of_mem isMatch)) 0
  have some : kept (pieces pattern str) ≠ [] := by
    intro nothing
    obtain ⟨terms, isWritten⟩ := written_of_kept str true nothing
    exact isOther terms isWritten
  have substitutes : gsub pattern str f 0 = .ok (kept (pieces pattern str)) acc := ends
  rw [parseDuration, substitutes]
  exact congrArg Except.ok (if_neg some)

/-- A duration is read as it should be if and only if every integer in it can be read and the
exact sum, to which rounding adds nothing, is in range.
-/
theorem parseDuration_meets_iff (str : Bytes) : Meets str ↔ InRange str := by
  constructor
  · rintro ⟨result, parses, ofTerms, -⟩
    have readable : ∀ n ∈ integers str, (tointeger n).isSome = true := by
      intro n member
      by_contra isNot
      obtain ⟨message, stops⟩ :=
        parseDuration_unreadable ⟨n, member, Bool.eq_false_iff.mpr isNot⟩
      cases parses.symm.trans stops
    refine ⟨readable, fun terms isWritten => ?_⟩
    have isResult := ofTerms terms isWritten
    subst isWritten
    cases parses.symm.trans (parseDuration_written readable)
    rw [← wrap_add_eq_iff]
    split at isResult
    · exact Option.some.inj isResult
    · cases isResult
  · rintro ⟨readable, inRange⟩
    by_cases isSequence : ∃ terms, str = written terms
    · obtain ⟨terms, rfl⟩ := isSequence
      refine ⟨_, parseDuration_written readable, fun terms' same => ?_, fun isOther => ?_⟩
      · have fits := inRange terms' same
        have sum := parseDuration_written (same ▸ readable)
        rw [← same, parseDuration_written readable] at sum
        rw [if_pos fits.1, Except.ok.inj sum, (wrap_add_eq_iff _ _).mpr fits]
      · exact (isOther terms rfl).elim
    · have isOther : ∀ terms, str ≠ written terms := fun terms same => isSequence ⟨terms, same⟩
      exact ⟨none, parseDuration_other isOther readable,
        fun terms same => (isOther terms same).elim, fun _ => rfl⟩

/-- A number of twenty digits raises an error; two terms whose sum takes 65 bits count as what is
left of it; and a number that is rounded counts as another one.
-/
theorem parseDuration_counterexample
    : parseDuration (lit "99999999999999999999m")
        = .error (lit "attempt to perform arithmetic on a nil value")
      ∧ parseDuration (lit "9223372036854775807m1m") = .ok (some (-0x8000000000000000))
      ∧ parseDuration (lit "-9223372036854775809m5m") = .ok (some (-0x8000000000000000 + 5))
      ∧ ¬Meets (lit "99999999999999999999m") := by
  have stops : parseDuration (lit "99999999999999999999m")
      = .error (lit "attempt to perform arithmetic on a nil value") := by
    decide +kernel
  refine ⟨stops, by decide +kernel, by decide +kernel, ?_⟩
  rintro ⟨result, parses, -⟩
  cases parses.symm.trans stops

end Snowcone.Dashboard.ParseDuration
