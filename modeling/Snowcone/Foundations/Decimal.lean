import Mathlib.Data.List.Basic
import Snowcone.Foundations.Bytes

/-! Decimal numbers in text: `std::from_chars` reads them, `printf` writes them. -/

namespace Decimal

open Bytes

/-- A decimal digit. -/
def isNumeral (c : Byte) : Bool := 0x30 ≤ c && c ≤ 0x39

/-- The value of digits. -/
def value (digits : Bytes) : Nat := digits.foldl (fun total c => 10 * total + (c.toNat - 0x30)) 0

/-- The digits of a number. -/
def digitsOf (n : Nat) : Bytes := (Nat.toDigits 10 n).map chr

/-- The numbers of a `long long`. -/
def InLongLong (n : Int) : Prop := -0x8000000000000000 ≤ n ∧ n < 0x8000000000000000

instance (n : Int) : Decidable (InLongLong n) := inferInstanceAs (Decidable (_ ∧ _))

/-- `std::from_chars` for a `long long`: the number at the start of a text and what follows it.
There is no result for a text without a number or a number that is out of range.
-/
def fromChars (text : Bytes) : Option (Int × Bytes) :=
  let negative := text.head? = some (chr '-')
  let rest := if negative then text.tail else text
  let digits := rest.takeWhile isNumeral
  let n : Int := if negative then -(value digits) else value digits
  if digits = [] ∨ ¬ InLongLong n then none else some (n, rest.dropWhile isNumeral)

/-- `printf` of an integer with `%0` and a width: zeros between the sign and the digits. -/
def formatPadded (width : Nat) (n : Int) : Bytes :=
  let sign := if n < 0 then [chr '-'] else []
  let digits := digitsOf n.natAbs
  sign ++ (List.replicate (width - (sign.length + digits.length)) (chr '0') ++ digits)

/-- The byte of a digit is a digit, with its value. -/
theorem chr_digit {c : Char} (isDigit : c.isDigit = true)
    : isNumeral (chr c) = true ∧ (chr c).toNat - 0x30 = c.toNat - '0'.toNat := by
  have range : 48 ≤ c.toNat ∧ c.toNat ≤ 57 := by
    simpa [Char.isDigit, UInt32.le_iff_toNat_le] using isDigit
  have same : (chr c).toNat = c.toNat := by
    rw [chr, Nat.toUInt8, UInt8.toNat_ofNat']
    omega
  refine ⟨?_, by rw [same]; rfl⟩
  rw [isNumeral, Bool.and_eq_true, decide_eq_true_eq, decide_eq_true_eq, UInt8.le_iff_toNat_le,
    UInt8.le_iff_toNat_le, same]
  exact range

/-- The digits of a number are digits. -/
theorem isNumeral_of_mem_digitsOf {n : Nat} {c : Byte} (isIn : c ∈ digitsOf n)
    : isNumeral c = true := by
  obtain ⟨digit, digitIsIn, rfl⟩ := List.mem_map.mp isIn
  exact (chr_digit (Nat.isDigit_of_mem_toDigits (by decide) (by decide) digitIsIn)).1

/-- Every number has a digit. -/
theorem digitsOf_ne_nil (n : Nat) : digitsOf n ≠ [] := by
  rw [digitsOf, Ne, List.map_eq_nil_iff]
  exact Nat.toDigits_ne_nil

/-- The digits of a number have its value. -/
theorem value_digitsOf (n : Nat) : value (digitsOf n) = n := by
  have digits : ∀ c ∈ Nat.toDigits 10 n, c.isDigit = true :=
    fun c isIn => Nat.isDigit_of_mem_toDigits (by decide) (by decide) isIn
  rw [value, digitsOf, List.foldl_map]
  refine Eq.trans ?_ (Nat.ofDigitChars_ten_toDigits (n := n))
  rw [Nat.ofDigitChars_eq_foldl]
  exact List.foldl_ext _ _ 0 (fun total c isIn => by rw [(chr_digit (digits c isIn)).2])

/-- Leading zeros do not change the value, by induction on their number. -/
theorem value_zeros (count : Nat) (digits : Bytes)
    : value (List.replicate count (chr '0') ++ digits) = value digits := by
  induction count with
  | zero => rfl
  | succ count ih => exact ih

/-- A digit is not a sign. -/
theorem ne_minus_of_isNumeral {c : Byte} (isDigit : isNumeral c = true) : c ≠ chr '-' := by
  rintro rfl
  cases isDigit

/-- Digits are read as long as there are any. -/
theorem takeWhile_digits {digits : Bytes} (areDigits : ∀ c ∈ digits, isNumeral c = true)
    : digits.takeWhile isNumeral = digits ∧ digits.dropWhile isNumeral = [] :=
  ⟨List.takeWhile_eq_self_iff.mpr areDigits, List.dropWhile_eq_nil_iff.mpr areDigits⟩

/-- Digits without a sign are read as their value. -/
theorem fromChars_digits {digits : Bytes} (areDigits : ∀ c ∈ digits, isNumeral c = true)
    (nonempty : digits ≠ []) (inRange : InLongLong (value digits))
    : fromChars digits = some ((value digits : Int), []) := by
  obtain ⟨taken, left⟩ := takeWhile_digits areDigits
  have unsigned : digits.head? ≠ some (chr '-') := by
    intro starts
    exact ne_minus_of_isNumeral (areDigits _ (List.mem_of_head? starts)) rfl
  simp only [fromChars, unsigned, if_false, taken, left, nonempty, inRange, not_true_eq_false,
    or_self]

/-- Digits behind a sign are read as the negation of their value. -/
theorem fromChars_minus {digits : Bytes} (areDigits : ∀ c ∈ digits, isNumeral c = true)
    (nonempty : digits ≠ []) (inRange : InLongLong (-(value digits : Int)))
    : fromChars (chr '-' :: digits) = some (-(value digits : Int), []) := by
  obtain ⟨taken, left⟩ := takeWhile_digits areDigits
  simp only [fromChars, List.head?_cons, if_true, List.tail_cons, taken, left, nonempty, inRange,
    not_true_eq_false, or_self, if_false]

/-- The digits of a number are digits of its formatted text, after the zeros. -/
theorem isNumeral_of_mem_padded {count n : Nat} {c : Byte}
    (isIn : c ∈ List.replicate count (chr '0') ++ digitsOf n)
    : isNumeral c = true := by
  rcases List.mem_append.mp isIn with zero | digit
  · rw [List.eq_of_mem_replicate zero]
    rfl
  · exact isNumeral_of_mem_digitsOf digit

/-- A formatted number is read back.
Witness: a negative number stands behind its sign, and zeros have no value.
-/
theorem fromChars_formatPadded (width : Nat) {n : Int} (inRange : InLongLong n)
    : fromChars (formatPadded width n) = some (n, []) := by
  have nonempty : ∀ count, List.replicate count (chr '0') ++ digitsOf n.natAbs ≠ [] :=
    fun count => List.append_ne_nil_of_right_ne_nil _ (digitsOf_ne_nil _)
  have same : ∀ count,
      value (List.replicate count (chr '0') ++ digitsOf n.natAbs) = n.natAbs := by
    intro count
    rw [value_zeros, value_digitsOf]
  by_cases negative : n < 0
  · have whole : -(n.natAbs : Int) = n := by omega
    simp only [formatPadded, negative, if_true, List.singleton_append]
    rw [fromChars_minus (fun c => isNumeral_of_mem_padded) (nonempty _)
      (by rw [same, whole]; exact inRange), same, whole]
  · have whole : (n.natAbs : Int) = n := by omega
    simp only [formatPadded, negative, if_false, List.nil_append]
    rw [fromChars_digits (fun c => isNumeral_of_mem_padded) (nonempty _)
      (by rw [same, whole]; exact inRange), same, whole]

/-- A number that is read is in range. -/
theorem inLongLong_of_fromChars {text rest : Bytes} {n : Int}
    (reads : fromChars text = some (n, rest))
    : InLongLong n := by
  simp only [fromChars, Option.ite_none_left_eq_some, not_or, not_not, Option.some.injEq,
    Prod.mk.injEq] at reads
  obtain ⟨⟨_, inRange⟩, rfl, _⟩ := reads
  exact inRange

/-- A formatted number is written with digits and a sign. -/
theorem formatPadded_chars {width : Nat} {n : Int} {c : Byte} (isIn : c ∈ formatPadded width n)
    : isNumeral c = true ∨ c = chr '-' := by
  simp only [formatPadded] at isIn
  rcases List.mem_append.mp isIn with sign | digit
  · split at sign
    · exact Or.inr (List.mem_singleton.mp sign)
    · cases sign
  · exact Or.inl (isNumeral_of_mem_padded digit)

/-- A formatted number is not empty. -/
theorem formatPadded_ne_nil (width : Nat) (n : Int) : formatPadded width n ≠ [] :=
  List.append_ne_nil_of_right_ne_nil _
    (List.append_ne_nil_of_right_ne_nil _ (digitsOf_ne_nil _))

end Decimal
