import Mathlib.Data.Prod.Lex
import Mathlib.Data.List.Lex
import Mathlib.Order.RelClasses
import Snowcone.Dashboard.MaskTracker

/-! The order in which the masks of a network are listed: it is a strict weak order where it is
defined, and it is not defined between masks that end with a whole byte.
-/

namespace Snowcone.Dashboard

/-- `a < b` for two numbers; a value that is missing makes it raise an error. -/
def lessThan : Option Nat → Option Nat → Option Bool
  | some a, some b => some (decide (a < b))
  | _, _ => none

/-- The byte of a tracker behind its whole bytes. -/
def MaskTracker.tailbyte (tracker : MaskTracker) : Option Nat := tracker.tail.map (·.tailbyte)

section Comparison

variable {Key : Type} [LinearOrder Key] (collation : Bytes → Key)

/-- `ordermask`; strings are compared by their keys in the collation of the locale. -/
def ordermask (v1 v2 : MaskTracker) : Option Bool :=
  if v1.addrlen < v2.addrlen then some true
  else if v1.addrlen = v2.addrlen then
    if collation v1.network < collation v2.network then some true
    else if v1.network = v2.network then lessThan v1.tailbyte v2.tailbyte
    else some false
  else some false

/-- What `table.sort` asks of a comparison of some values: it raises no error, and it is a strict
weak order of them.
-/
structure Sorts {α : Type} (less : α → α → Option Bool) (values : Set α) : Prop where
  returns : ∀ v1 ∈ values, ∀ v2 ∈ values, (less v1 v2).isSome
  ordered : IsStrictWeakOrder values (fun v1 v2 => less v1 v2 = some true)

variable {collation} {v1 v2 : MaskTracker}

/-- A comparison of numbers returns where both are there. -/
theorem lessThan_isSome (a b : Option Nat) : (lessThan a b).isSome ↔ a.isSome ∧ b.isSome := by
  cases a <;> cases b <;> simp [lessThan]

/-- Two trackers can be compared unless they have the same whole bytes and one has no tail. -/
theorem ordermask_isSome
    : (ordermask collation v1 v2).isSome
      ↔ (v1.addrlen = v2.addrlen → v1.network = v2.network
        → v1.tail.isSome ∧ v2.tail.isSome) := by
  have both := lessThan_isSome v1.tailbyte v2.tailbyte
  simp only [MaskTracker.tailbyte, Option.isSome_map] at both
  rw [ordermask]
  split
  · next shorter => exact ⟨fun _ same => by omega, fun _ => rfl⟩
  · split
    · next same =>
        split
        · next less =>
            refine ⟨fun _ _ sameNetwork => ?_, fun _ => rfl⟩
            rw [sameNetwork] at less
            exact (lt_irrefl _ less).elim
        · split
          · next sameNetwork =>
              exact both.trans ⟨fun tails _ _ => tails, fun tails => tails same sameNetwork⟩
          · next other => exact ⟨fun _ _ sameNetwork => (other sameNetwork).elim, fun _ => rfl⟩
    · next other => exact ⟨fun _ same => (other same).elim, fun _ => rfl⟩

/-- A tracker holds the whole bytes of its prefix, and has a tail if the prefix goes on behind them.
-/
theorem MaskTracker.init_fields {network : Bytes} {networkPrefix : Nat} {tracker : MaskTracker}
    (isTracker : init network networkPrefix = some tracker)
    : tracker.addrlen = network.length ∧ tracker.network = network.take (networkPrefix / 8)
      ∧ (tracker.tail.isSome ↔ 0 < networkPrefix % 8) := by
  by_cases bits : networkPrefix % 8 > 0
  · rw [init, if_pos bits] at isTracker
    obtain ⟨byte, -, made⟩ := Option.bind_eq_some_iff.mp isTracker
    obtain rfl := Option.some.inj made
    exact ⟨rfl, rfl, iff_of_true rfl bits⟩
  · rw [init_of_bytes bits] at isTracker
    obtain rfl := Option.some.inj isTracker
    exact ⟨rfl, rfl, iff_of_false Bool.false_ne_true bits⟩

/-- Two masks can be compared unless they have the same whole bytes and one of them ends there. -/
theorem ordermask_init_isSome {network1 network2 : Bytes} {prefix1 prefix2 : Nat}
    (isTracker1 : MaskTracker.init network1 prefix1 = some v1)
    (isTracker2 : MaskTracker.init network2 prefix2 = some v2)
    : (ordermask collation v1 v2).isSome
      ↔ (network1.length = network2.length
        → network1.take (prefix1 / 8) = network2.take (prefix2 / 8)
        → 0 < prefix1 % 8 ∧ 0 < prefix2 % 8) := by
  obtain ⟨length1, isNetwork1, tail1⟩ := MaskTracker.init_fields isTracker1
  obtain ⟨length2, isNetwork2, tail2⟩ := MaskTracker.init_fields isTracker2
  rw [ordermask_isSome, length1, length2, isNetwork1, isNetwork2, tail1, tail2]

/-- What masks with a tail are ordered by: length, whole bytes and tail. -/
def MaskTracker.sortKey (collation : Bytes → Key) (tracker : MaskTracker) : Nat ×ₗ Key ×ₗ Nat :=
  toLex (tracker.addrlen, toLex (collation tracker.network, tracker.tailbyte.getD 0))

/-- Between masks with a tail the comparison is that of their keys, if no two strings have the
same place in the collation.
-/
theorem ordermask_eq_true (distinct : Function.Injective collation) (tail1 : v1.tail.isSome)
    (tail2 : v2.tail.isSome)
    : ordermask collation v1 v2 = some true ↔ v1.sortKey collation < v2.sortKey collation := by
  obtain ⟨t1, isTail1⟩ := Option.isSome_iff_exists.mp tail1
  obtain ⟨t2, isTail2⟩ := Option.isSome_iff_exists.mp tail2
  have isByte1 : v1.tailbyte = some t1.tailbyte := by rw [MaskTracker.tailbyte, isTail1]; rfl
  have isByte2 : v2.tailbyte = some t2.tailbyte := by rw [MaskTracker.tailbyte, isTail2]; rfl
  rw [ordermask, MaskTracker.sortKey, MaskTracker.sortKey, Prod.Lex.toLex_lt_toLex,
    Prod.Lex.toLex_lt_toLex, isByte1, isByte2]
  dsimp only
  split
  · next shorter => exact iff_of_true rfl (.inl shorter)
  · next notShorter =>
      rw [or_iff_right notShorter]
      split
      · next same =>
          rw [and_iff_right same]
          split
          · next less => exact iff_of_true rfl (.inl less)
          · next notLess =>
              rw [or_iff_right notLess, distinct.eq_iff]
              split
              · next sameNetwork => simp [lessThan, sameNetwork]
              · next other => exact iff_of_false nofun fun both => other both.1
      · next other => exact iff_of_false nofun fun both => other both.1

/-- Masks that all have a tail are sorted by their keys. -/
theorem sorts_of_tails (distinct : Function.Injective collation) {masks : Set MaskTracker}
    (tails : ∀ v ∈ masks, v.tail.isSome)
    : Sorts (ordermask collation) masks where
  returns v1 member1 v2 member2 :=
    ordermask_isSome.mpr fun _ _ => ⟨tails v1 member1, tails v2 member2⟩
  ordered := by
    have byKey : (fun v1 v2 : masks => ordermask collation v1.val v2.val = some true)
        = Order.Preimage (fun v : masks => v.val.sortKey collation) (· < ·) := by
      funext v1 v2
      exact propext (ordermask_eq_true distinct (tails v1 v1.property) (tails v2 v2.property))
    have connected : IsStrictWeakOrder (Nat ×ₗ Key ×ₗ Nat) (· < ·) :=
      isStrictWeakOrder_of_isOrderConnected
    rw [byKey]
    infer_instance

/-- Two masks can be compared exactly if they differ in the length of their addresses or in their
whole bytes, or both go on behind these; and the comparison sorts some masks exactly if each of
them ends within a byte. So it is of trackers in whatever state, and of those that are made of
networks and prefixes.
-/
theorem ordermask_sorts_iff (distinct : Function.Injective collation)
    : (∀ v1 v2, (ordermask collation v1 v2).isSome
        ↔ (v1.addrlen = v2.addrlen → v1.network = v2.network
          → v1.tail.isSome ∧ v2.tail.isSome))
      ∧ (∀ masks : Set MaskTracker,
        Sorts (ordermask collation) masks ↔ ∀ v ∈ masks, v.tail.isSome)
      ∧ (∀ network1 prefix1 network2 prefix2 v1 v2,
        MaskTracker.init network1 prefix1 = some v1 → MaskTracker.init network2 prefix2 = some v2
        → ((ordermask collation v1 v2).isSome
          ↔ (network1.length = network2.length
            → network1.take (prefix1 / 8) = network2.take (prefix2 / 8)
            → 0 < prefix1 % 8 ∧ 0 < prefix2 % 8)))
      ∧ ∀ masks : Set (Bytes × Nat),
        (∀ mask ∈ masks, (MaskTracker.init mask.1 mask.2).isSome)
        → (Sorts (ordermask collation)
            {tracker | ∃ mask ∈ masks, MaskTracker.init mask.1 mask.2 = some tracker}
          ↔ ∀ mask ∈ masks, 0 < mask.2 % 8) := by
  have sorted (masks : Set MaskTracker)
      : Sorts (ordermask collation) masks ↔ ∀ v ∈ masks, v.tail.isSome := by
    refine ⟨fun sorts v member => ?_, sorts_of_tails distinct⟩
    have compared := sorts.returns v member v member
    exact (ordermask_isSome.mp compared rfl rfl).1
  refine ⟨fun v1 v2 => ordermask_isSome, sorted,
    fun _ _ _ _ _ _ isTracker1 isTracker2 => ordermask_init_isSome isTracker1 isTracker2,
    fun masks made => (sorted _).trans ?_⟩
  constructor
  · intro tails mask isMask
    obtain ⟨tracker, isTracker⟩ := Option.isSome_iff_exists.mp (made mask isMask)
    exact (MaskTracker.init_fields isTracker).2.2.mp (tails tracker ⟨mask, isMask, isTracker⟩)
  · rintro goOn tracker ⟨mask, isMask, isTracker⟩
    exact (MaskTracker.init_fields isTracker).2.2.mpr (goOn mask isMask)

end Comparison

/-- The collation of the locale `C`. -/
def octets (text : Bytes) : List Nat := text.map UInt8.toNat

/-- In that one no two strings have the same place. -/
theorem octets_injective : Function.Injective octets :=
  List.map_injective_iff.mpr fun _ _ => UInt8.toNat.inj

/-- Witness: masks of 25 and of 26 bits are sorted. -/
theorem ordermask_sorts_iff_witness
    : Function.Injective octets
      ∧ (∃ narrow wide, MaskTracker.init [192, 0, 2, 64] 26 = some narrow
        ∧ MaskTracker.init [192, 0, 2, 0] 25 = some wide
        ∧ (ordermask octets narrow wide).isSome)
      ∧ Sorts (ordermask octets)
        {tracker | ∃ mask ∈ [([192, 0, 2, 64], 26), ([192, 0, 2, 0], 25)],
          MaskTracker.init mask.1 mask.2 = some tracker} := by
  obtain ⟨-, -, compared, sorted⟩ := ordermask_sorts_iff octets_injective
  refine ⟨octets_injective, ⟨_, _, rfl, rfl, ?_⟩, ?_⟩
  · exact (compared [192, 0, 2, 64] 26 [192, 0, 2, 0] 25 _ _ rfl rfl).mpr
      fun _ _ => ⟨by decide, by decide⟩
  · exact (sorted {mask | mask ∈ [([192, 0, 2, 64], 26), ([192, 0, 2, 0], 25)]}
      (List.forall_mem_cons.mpr ⟨rfl, List.forall_mem_singleton.mpr rfl⟩)).mpr
      (List.forall_mem_cons.mpr ⟨by decide, List.forall_mem_singleton.mpr (by decide)⟩)

/-- Where it is not so: a mask of 24 bits can neither be compared with itself nor with the one of
25 bits of the same network.
-/
theorem ordermask_counterexample
    : ∃ whole half, MaskTracker.init [192, 0, 2, 0] 24 = some whole
      ∧ MaskTracker.init [192, 0, 2, 0] 25 = some half
      ∧ ordermask octets whole whole = none ∧ ordermask octets whole half = none :=
  ⟨_, _, rfl, rfl, by decide, by decide⟩

end Snowcone.Dashboard
