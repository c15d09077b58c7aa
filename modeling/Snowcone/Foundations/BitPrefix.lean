import Mathlib.Data.List.GetD
import Snowcone.Foundations.Bytes

/-! The bits of byte strings, from the most significant bit of the first byte on, and byte
strings that agree in their first bits.
-/

namespace BitPrefix

/-- A bit of a byte string. -/
def bit (text : Bytes) (i : Nat) : Bool := (text.getD (i / 8) 0).toNat.testBit (7 - i % 8)

/-- Two byte strings agree in their first bits. -/
def Agree (count : Nat) (left right : Bytes) : Prop := ∀ i < count, bit left i = bit right i

instance (count : Nat) (left right : Bytes) : Decidable (Agree count left right) :=
  inferInstanceAs (Decidable (∀ i < count, bit left i = bit right i))

/-- The first bits of two bytes are the same. -/
def AgreeInByte (bits : Nat) (left right : Byte) : Prop :=
  ∀ j < bits, left.toNat.testBit (7 - j) = right.toNat.testBit (7 - j)

variable {left right : Bytes}

/-- Fewer bits agree where more do. -/
theorem Agree.mono {count more : Nat} (fewer : count ≤ more) (agree : Agree more left right)
    : Agree count left right :=
  fun i inside => agree i (Nat.lt_of_lt_of_le inside fewer)

/-- Agreement goes in both directions. -/
theorem Agree.symm {count : Nat} (agree : Agree count left right) : Agree count right left :=
  fun i inside => (agree i inside).symm

/-- Agreement goes on. -/
theorem Agree.trans {count : Nat} {last : Bytes} (first : Agree count left right)
    (second : Agree count right last)
    : Agree count left last :=
  fun i inside => (first i inside).trans (second i inside)

/-- A bit within a byte. -/
theorem bit_in_byte (text : Bytes) (k : Nat) {j : Nat} (inside : j < 8)
    : bit text (8 * k + j) = (text.getD k 0).toNat.testBit (7 - j) := by
  have isByte : (8 * k + j) / 8 = k := by omega
  have isPlace : (8 * k + j) % 8 = j := by omega
  rw [bit, isByte, isPlace]

/-- The bits of whole bytes, and some bits of the byte behind them. -/
theorem agree_add {k bits : Nat} (inside : bits ≤ 8)
    : Agree (8 * k + bits) left right
      ↔ Agree (8 * k) left right ∧ AgreeInByte bits (left.getD k 0) (right.getD k 0) := by
  constructor
  · intro agree
    refine ⟨agree.mono (Nat.le_add_right _ _), fun j less => ?_⟩
    have here := agree (8 * k + j) (by omega)
    rwa [bit_in_byte _ _ (by omega), bit_in_byte _ _ (by omega)] at here
  · rintro ⟨whole, part⟩ i less
    by_cases isWhole : i < 8 * k
    · exact whole i isWhole
    · obtain ⟨j, rfl⟩ := Nat.exists_eq_add_of_le (Nat.le_of_not_lt isWhole)
      rw [bit_in_byte _ _ (by omega), bit_in_byte _ _ (by omega)]
      exact part j (by omega)

/-- Bytes with the same eight bits are the same. -/
theorem agreeInByte_all {left right : Byte} : AgreeInByte 8 left right ↔ left = right := by
  constructor
  · intro agree
    refine UInt8.toNat_inj.mp (Nat.eq_of_testBit_eq fun i => ?_)
    by_cases inside : i < 8
    · have here := agree (7 - i) (by omega)
      rwa [show 7 - (7 - i) = i by omega] at here
    · have wide : 2 ^ 8 ≤ 2 ^ i := Nat.pow_le_pow_right (by omega) (by omega)
      rw [Nat.testBit_lt_two_pow (Nat.lt_of_lt_of_le left.toNat_lt wide),
        Nat.testBit_lt_two_pow (Nat.lt_of_lt_of_le right.toNat_lt wide)]
  · rintro rfl j _
    rfl

/-- Strings of the same length agree in whole bytes where they start with the same bytes, by
induction on their number.
-/
theorem agree_whole {k : Nat} (within : k ≤ left.length) (same : left.length = right.length)
    : Agree (8 * k) left right ↔ left.take k = right.take k := by
  induction k with
  | zero => simp [Agree]
  | succ k ih =>
      have inLeft : k < left.length := within
      have inRight : k < right.length := same ▸ inLeft
      rw [Nat.mul_succ, agree_add (Nat.le_refl 8), ih (Nat.le_of_lt inLeft), agreeInByte_all,
        List.take_succ_eq_append_getElem inLeft, List.take_succ_eq_append_getElem inRight,
        List.getD_eq_getElem _ _ inLeft, List.getD_eq_getElem _ _ inRight]
      constructor
      · rintro ⟨before, here⟩
        rw [before, here]
      · intro all
        have sameLength : (left.take k).length = (right.take k).length := by
          rw [List.length_take, List.length_take, same]
        obtain ⟨before, here⟩ := List.append_inj all sameLength
        exact ⟨before, List.singleton_inj.mp here⟩

/-- The mask of the first bits of a byte. -/
theorem testBit_mask {bits : Nat} (inside : bits ≤ 8) (i : Nat)
    : (0x100 - (0x100 >>> bits)).testBit i = decide (8 - bits ≤ i ∧ i < 8) := by
  have isShift : 0x100 - (0x100 >>> bits) = (2 ^ bits - 1) <<< (8 - bits) := by
    rw [Nat.shiftRight_eq_div_pow, Nat.shiftLeft_eq, Nat.sub_mul, ← Nat.pow_add,
      Nat.add_sub_cancel' inside, Nat.one_mul]
    rw [show (0x100 : Nat) = 2 ^ 8 by rfl, Nat.pow_div inside (by omega)]
  rw [isShift, Nat.testBit_shiftLeft, Nat.testBit_two_pow_sub_one, Bool.eq_iff_iff]
  simp only [Bool.and_eq_true, decide_eq_true_eq]
  omega

/-- Bytes are the same under the mask where their first bits are. -/
theorem and_mask_eq_iff {bits : Nat} (inside : bits ≤ 8) {left right : Byte}
    : left.toNat &&& (0x100 - (0x100 >>> bits)) = right.toNat &&& (0x100 - (0x100 >>> bits))
      ↔ AgreeInByte bits left right := by
  constructor
  · intro same j less
    have here := congrArg (·.testBit (7 - j)) same
    rw [Nat.testBit_and, Nat.testBit_and, testBit_mask inside,
      decide_eq_true (by omega), Bool.and_true, Bool.and_true] at here
    exact here
  · intro agree
    refine Nat.eq_of_testBit_eq fun i => ?_
    rw [Nat.testBit_and, Nat.testBit_and, testBit_mask inside]
    by_cases masked : 8 - bits ≤ i ∧ i < 8
    · have here := agree (7 - i) (by omega)
      rw [show 7 - (7 - i) = i by omega] at here
      rw [here]
    · rw [decide_eq_false masked, Bool.and_false, Bool.and_false]

end BitPrefix
