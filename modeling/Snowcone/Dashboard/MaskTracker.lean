import Mathlib.Data.List.Infix
import Snowcone.Foundations.BitPrefix

/-! Trackers of network masks: an address matches where it agrees with the network in the bits
of the prefix.
-/

namespace Snowcone.Dashboard

open BitPrefix

/-- The part of a mask behind its last whole byte. -/
structure MaskTracker.Tail where
  tailmask : Nat
  tailbyte : Nat
  tailix : Nat

/-- The fields of a `MaskTracker`; `tail` are those that are only there if the prefix does not
end with a byte.
-/
structure MaskTracker where
  addrlen : Nat
  network : Bytes
  tail : Option MaskTracker.Tail
  count : Int

namespace MaskTracker

/-- `string.byte(text, i)` -/
def byteAt (text : Bytes) (i : Nat) : Option Nat := text[i - 1]?.map (·.toNat)

/-- `_init`; a prefix that is longer than the address makes it raise an error. -/
def init (network : Bytes) (networkPrefix : Nat) : Option MaskTracker := do
  let bytes := networkPrefix / 8
  let bits := networkPrefix % 8
  let tail ←
    if bits > 0 then do
      let mask := 0x100 - (0x100 >>> bits)
      let byte ← byteAt network (bytes + 1)
      pure (some { tailmask := mask, tailbyte := byte &&& mask, tailix := bytes + 1 })
    else pure none
  return { addrlen := network.length, network := network.take bytes, tail, count := 0 }

/-- The comparison behind the whole bytes; an address without such a byte makes it raise an
error.
-/
def Tail.match_ (tail : Tail) (address : Bytes) : Option Bool :=
  (byteAt address tail.tailix).map (fun byte => byte &&& tail.tailmask == tail.tailbyte)

/-- The comparison behind the whole bytes, where there is one. -/
def matchTail (tracker : MaskTracker) (address : Bytes) : Option Bool :=
  match tracker.tail with
  | none => some true
  | some tail => tail.match_ address

/-- `match` -/
def match_ (tracker : MaskTracker) (address : Bytes) : Option Bool :=
  if tracker.addrlen = address.length ∧ tracker.network.isPrefixOf address then
    tracker.matchTail address
  else some false

/-- `delta` -/
def delta (tracker : MaskTracker) (i : Int) : MaskTracker :=
  { tracker with count := tracker.count + i }

/-- What a mask stands for: the addresses of its length that agree with it in its prefix. -/
def Covers (network : Bytes) (networkPrefix : Nat) (address : Bytes) : Prop :=
  address.length = network.length ∧ Agree networkPrefix network address

instance (network : Bytes) (networkPrefix : Nat) (address : Bytes)
    : Decidable (Covers network networkPrefix address) :=
  inferInstanceAs (Decidable (_ ∧ _))

variable {network address : Bytes} {networkPrefix : Nat}

/-- A byte inside of a string. -/
theorem byteAt_inside {text : Bytes} {i : Nat} (inside : i < text.length)
    : byteAt text (i + 1) = some (text.getD i 0).toNat := by
  rw [byteAt, Nat.add_sub_cancel, List.getElem?_eq_getElem inside,
    List.getD_eq_getElem _ _ inside]
  rfl

/-- The bytes at the start are the same where the whole bytes of the prefix agree. -/
theorem isPrefixOf_take {bytes : Nat} (within : bytes ≤ network.length)
    (same : address.length = network.length)
    : (network.take bytes).isPrefixOf address ↔ Agree (8 * bytes) network address := by
  rw [agree_whole within same.symm, List.isPrefixOf_iff_prefix, List.prefix_iff_eq_take,
    List.length_take, Nat.min_eq_left within]

/-- The tail of a tracker compares the bits of a prefix that are behind the whole bytes. -/
def ComparesTail (tracker : MaskTracker) (network : Bytes) (networkPrefix : Nat) : Prop :=
  ∀ address : Bytes, address.length = network.length →
    ∃ outcome, tracker.matchTail address = some outcome
      ∧ (outcome = true ↔ AgreeInByte (networkPrefix % 8) (network.getD (networkPrefix / 8) 0)
        (address.getD (networkPrefix / 8) 0))

/-- A tracker with the whole bytes of a prefix and such a tail matches what the mask covers. -/
theorem match_covers {tracker : MaskTracker} (within : networkPrefix ≤ 8 * network.length)
    (isLength : tracker.addrlen = network.length)
    (isNetwork : tracker.network = network.take (networkPrefix / 8))
    (compares : tracker.ComparesTail network networkPrefix) (address : Bytes)
    : tracker.match_ address = some (decide (Covers network networkPrefix address)) := by
  have few : networkPrefix % 8 ≤ 8 := Nat.le_of_lt (Nat.mod_lt _ (by omega))
  have split : Agree networkPrefix network address
      ↔ Agree (8 * (networkPrefix / 8)) network address
        ∧ AgreeInByte (networkPrefix % 8) (network.getD (networkPrefix / 8) 0)
          (address.getD (networkPrefix / 8) 0) := by
    rw [← agree_add few, Nat.div_add_mod]
  by_cases same : address.length = network.length
  · have inside : networkPrefix / 8 ≤ network.length := by omega
    have starts := isPrefixOf_take inside same
    obtain ⟨outcome, matched, isOutcome⟩ := compares address same
    by_cases whole : Agree (8 * (networkPrefix / 8)) network address
    · rw [match_, isNetwork, if_pos ⟨isLength.trans same.symm, starts.mpr whole⟩, matched,
        Option.some.injEq, Bool.eq_iff_iff, isOutcome, decide_eq_true_eq, Covers, split]
      exact ⟨fun part => ⟨same, whole, part⟩, fun covers => covers.2.2⟩
    · rw [match_, isNetwork, if_neg (fun both => whole (starts.mp both.2)),
        decide_eq_false (fun covers => whole (split.mp covers.2).1)]
  · rw [match_, if_neg (fun both => same (both.1.symm.trans isLength)),
      decide_eq_false (fun covers => same covers.1)]

/-- A tracker whose prefix ends within a byte. -/
theorem init_of_bits (bits : networkPrefix % 8 > 0) (inside : networkPrefix / 8 < network.length)
    : let mask := 0x100 - (0x100 >>> (networkPrefix % 8))
      init network networkPrefix = some {
        addrlen := network.length
        network := network.take (networkPrefix / 8)
        tail := some {
          tailmask := mask
          tailbyte := (network.getD (networkPrefix / 8) 0).toNat &&& mask
          tailix := networkPrefix / 8 + 1 }
        count := 0 } := by
  rw [init, if_pos bits, byteAt_inside inside]
  rfl

/-- A tracker whose prefix ends with a byte. -/
theorem init_of_bytes (noBits : ¬ networkPrefix % 8 > 0)
    : init network networkPrefix = some {
        addrlen := network.length, network := network.take (networkPrefix / 8), tail := none
        count := 0 } := by
  rw [init, if_neg noBits]
  rfl

/-- A mask whose prefix fits into its address can be made, and it matches what it covers. By
cases on whether the prefix ends with a byte.
-/
theorem init_match (within : networkPrefix ≤ 8 * network.length)
    : ∃ tracker, init network networkPrefix = some tracker
      ∧ ∀ address,
          tracker.match_ address = some (decide (Covers network networkPrefix address)) := by
  by_cases bits : networkPrefix % 8 > 0
  · have inNetwork : networkPrefix / 8 < network.length := by omega
    refine ⟨_, init_of_bits bits inNetwork, match_covers within rfl rfl ?_⟩
    intro address same
    have inAddress : networkPrefix / 8 < address.length := same ▸ inNetwork
    refine ⟨_, congrArg (Option.map _) (byteAt_inside inAddress), ?_⟩
    rw [beq_iff_eq, eq_comm]
    exact and_mask_eq_iff (by omega)
  · refine ⟨_, init_of_bytes bits, match_covers within rfl rfl ?_⟩
    refine fun address _ => ⟨true, rfl, ?_⟩
    have isZero : networkPrefix % 8 = 0 := by omega
    simp [AgreeInByte, isZero]

/-- A mask matches exactly the addresses of its length that agree with the network in its
prefix, whatever the other bits of the network are; and a mask with a longer prefix matches
less.
-/
theorem match_iff_agree (network : Bytes) (networkPrefix : Nat)
    (within : networkPrefix ≤ 8 * network.length)
    : ∃ tracker, init network networkPrefix = some tracker
      ∧ (∀ address, tracker.match_ address
          = some (decide (address.length = network.length
            ∧ Agree networkPrefix network address)))
      ∧ (∀ other, other.length = network.length → Agree networkPrefix network other →
          ∃ same, init other networkPrefix = some same
            ∧ ∀ address, same.match_ address = tracker.match_ address)
      ∧ (∀ longer, networkPrefix ≤ longer → longer ≤ 8 * network.length →
          ∃ narrower, init network longer = some narrower
            ∧ ∀ address, narrower.match_ address = some true →
                tracker.match_ address = some true) := by
  obtain ⟨tracker, isTracker, matched⟩ := init_match within
  refine ⟨tracker, isTracker, matched, ?_, ?_⟩
  · intro other sameLength agree
    obtain ⟨same, isSame, matched'⟩ := init_match (sameLength ▸ within)
    refine ⟨same, isSame, fun address => ?_⟩
    have alike : Covers other networkPrefix address ↔ Covers network networkPrefix address := by
      rw [Covers, Covers, sameLength]
      exact and_congr_right (fun _ => ⟨agree.trans, agree.symm.trans⟩)
    rw [matched', matched, decide_eq_decide.mpr alike]
  · intro longer isLonger fits
    obtain ⟨narrower, isNarrower, matched'⟩ := init_match fits
    refine ⟨narrower, isNarrower, fun address matches' => ?_⟩
    rw [matched', Option.some.injEq, decide_eq_true_eq] at matches'
    have covers : Covers network networkPrefix address :=
      ⟨matches'.1, matches'.2.mono isLonger⟩
    rw [matched, decide_eq_true covers]

/-- Witness: the network `192.0.2.0/25` does not hold `192.0.2.128`. -/
theorem match_iff_agree_witness
    : ∃ tracker, init [192, 0, 2, 0] 25 = some tracker
      ∧ tracker.match_ [192, 0, 2, 20] = some true
      ∧ tracker.match_ [192, 0, 2, 128] = some false := by
  obtain ⟨tracker, isTracker, matched, _⟩ := match_iff_agree [192, 0, 2, 0] 25 (by decide)
  refine ⟨tracker, isTracker, ?_, ?_⟩
  · exact (matched [192, 0, 2, 20]).trans (by decide +kernel)
  · exact (matched [192, 0, 2, 128]).trans (by decide +kernel)

/-- A whole address, and the empty prefix. -/
example : (init [49, 50, 51, 52] 32).bind (·.match_ [49, 50, 51, 53]) = some false
    ∧ (init [0, 0, 0, 0] 0).bind (·.match_ [49, 50, 51, 52]) = some true := by
  decide

end MaskTracker

end Snowcone.Dashboard
