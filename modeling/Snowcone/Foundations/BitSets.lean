import Mathlib.Data.List.Dedup
import Mathlib.Data.List.Sort
import Mathlib.Data.Nat.BitIndices

/-! Numbers as sets of bits, and sums of powers of two: a sum is the set of its exponents exactly
if no exponent occurs twice.
-/

namespace BitSets

/-- A number whose bits are those of a list. -/
def IsBitSet (bits : List Nat) (value : Nat) : Prop := ∀ bit, value.testBit bit = true ↔ bit ∈ bits

/-- The sum of the powers of two with some exponents. -/
def total (bits : List Nat) : Nat := (bits.map (2 ^ ·)).sum

variable {bits others : List Nat} {value : Nat}

/-- One more exponent. -/
theorem total_cons (bit : Nat) (bits : List Nat) : total (bit :: bits) = 2 ^ bit + total bits :=
  rfl

/-- The order of the exponents does not matter. -/
theorem total_perm (same : bits.Perm others) : total bits = total others :=
  (same.map (2 ^ ·)).sum_nat

/-- A sum of powers of two with different exponents has these as its bits, by Mathlib's lemma for
exponents in order.
-/
theorem isBitSet_total (nodup : bits.Nodup) : IsBitSet bits (total bits) := by
  intro bit
  have isPerm : (bits.mergeSort (· ≤ ·)).Perm bits := List.mergeSort_perm bits (· ≤ ·)
  have sorted : (bits.mergeSort (· ≤ ·)).SortedLT :=
    List.sortedLT_iff_nodup_and_sortedLE.mpr ⟨isPerm.nodup_iff.mpr nodup,
      (List.pairwise_mergeSort' (· ≤ ·) bits).sortedLE⟩
  rw [← Nat.mem_bitIndices, ← total_perm isPerm, total, Nat.bitIndices_sum_map_two_pow sorted,
    isPerm.mem_iff]

/-- There is one number with some bits. -/
theorem IsBitSet.unique {value' : Nat} (isSet : IsBitSet bits value)
    (isSet' : IsBitSet bits value')
    : value = value' := by
  refine Nat.eq_of_testBit_eq fun bit => ?_
  rw [Bool.eq_iff_iff, isSet, isSet']

/-- A number whose bits are low is small. -/
theorem IsBitSet.lt {n : Nat} (isSet : IsBitSet bits value) (low : ∀ bit ∈ bits, bit < n)
    : value < 2 ^ n := by
  refine Nat.lt_pow_two_of_testBit _ fun bit high => ?_
  by_contra isTrue
  have member := (isSet bit).mp (by simpa using isTrue)
  have isLow := low bit member
  omega

/-- An exponent that occurs twice makes the sum larger, by induction on the exponents. -/
theorem total_dedup (bits : List Nat)
    : total bits.dedup ≤ total bits ∧ (total bits.dedup = total bits → bits.Nodup) := by
  induction bits with
  | nil => exact ⟨Nat.le_refl _, fun _ => List.nodup_nil⟩
  | cons bit bits ih =>
      obtain ⟨atMost, isNodup⟩ := ih
      have positive : 0 < 2 ^ bit := Nat.two_pow_pos bit
      have isTotal := total_cons bit bits
      by_cases member : bit ∈ bits
      · rw [List.dedup_cons_of_mem member]
        exact ⟨by omega, fun same => by omega⟩
      · rw [List.dedup_cons_of_notMem member]
        have isTotal' := total_cons bit bits.dedup
        exact ⟨by omega, fun same => List.nodup_cons.mpr ⟨member, isNodup (by omega)⟩⟩

/-- A sum of powers of two has its exponents as its bits exactly if none occurs twice. -/
theorem isBitSet_total_iff : IsBitSet bits (total bits) ↔ bits.Nodup := by
  refine ⟨fun isSet => ?_, isBitSet_total⟩
  have isSet' : IsBitSet bits (total bits.dedup) := by
    intro bit
    rw [isBitSet_total bits.nodup_dedup bit, List.mem_dedup]
  exact (total_dedup bits).2 (isSet'.unique isSet)

end BitSets
