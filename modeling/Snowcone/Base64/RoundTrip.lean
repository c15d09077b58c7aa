import Mathlib.Data.Nat.Bitwise
import Snowcone.Base64.Codec

/-! Decoding inverts encoding.
The decoder is described by the six-bit values of the alphabet characters in its input,
all others being skipped; the arithmetic is done on natural numbers.
-/

namespace Snowcone.Base64

open Bytes

/-- The alphabet and its table are inverse to each other, by going through it. -/
theorem alphabetValue_getD (value : Fin 64)
    : alphabetValue (alphabet.getD value 0) = some (UInt32.ofNat value) := by
  revert value
  decide +kernel

/-- The padding has no value. -/
theorem alphabetValue_padding : alphabetValue (chr '=') = none := by
  decide

/-- The table holds six-bit values. -/
theorem alphabetValue_lt {c : Byte} {value : UInt32} (found : alphabetValue c = some value)
    : value.toNat < 64 := by
  simp only [alphabetValue, Option.map_eq_some_iff] at found
  obtain ⟨place, finds, rfl⟩ := found
  obtain ⟨inside, _⟩ := List.findIdx?_eq_some_iff_getElem.mp finds
  have size : alphabet.length = 64 := by decide
  rw [UInt32.toNat_ofNat']
  omega

/-- The six-bit values in a string. -/
def valuesOf (input : Bytes) : List UInt32 := input.filterMap alphabetValue

/-- All values in a string are six-bit values. -/
theorem valuesOf_lt (input : Bytes) : ∀ value ∈ valuesOf input, value.toNat < 64 := by
  intro value member
  obtain ⟨c, _, found⟩ := List.mem_filterMap.mp member
  exact alphabetValue_lt found

/-- What six-bit values stand for, group by group: the bytes, and whether the last group
has enough values for one.
-/
def bytesOf : List UInt32 → Bytes × Bool
  | a :: b :: c :: d :: rest =>
      let more := bytesOf rest
      (UInt8.ofNat (a.toNat * 4 + b.toNat / 16) :: UInt8.ofNat (b.toNat * 16 + c.toNat / 4)
        :: UInt8.ofNat (c.toNat * 64 + d.toNat) :: more.1, more.2)
  | [a, b, c] =>
      ([UInt8.ofNat (a.toNat * 4 + b.toNat / 16), UInt8.ofNat (b.toNat * 16 + c.toNat / 4)],
        true)
  | [a, b] => ([UInt8.ofNat (a.toNat * 4 + b.toNat / 16)], true)
  | [_] => ([], false)
  | [] => ([], true)

-----------------------------------------------------------------------------------------
-- The decoder
-----------------------------------------------------------------------------------------

/-- Shifting left by a constant, when nothing is lost. -/
theorem toNat_shift {buffer : UInt32} (count : UInt32) (small : count.toNat < 32)
    (room : buffer.toNat * 2 ^ count.toNat < 2 ^ 32)
    : (buffer <<< count).toNat = buffer.toNat * 2 ^ count.toNat := by
  rw [UInt32.toNat_shiftLeft, Nat.mod_eq_of_lt small, Nat.shiftLeft_eq,
    Nat.mod_eq_of_lt room]

/-- One more value in the buffer. -/
theorem toNat_push {buffer value : UInt32} (room : buffer.toNat < 2 ^ 24)
    (small : value.toNat < 64)
    : (buffer <<< 6 ||| value).toNat = buffer.toNat * 64 + value.toNat := by
  have shifted : (buffer <<< 6).toNat = buffer.toNat * 64 :=
    toNat_shift 6 (by decide) (by change _ * 64 < _; omega)
  rw [UInt32.toNat_or, shifted, ← Nat.shiftLeft_eq buffer.toNat 6,
    ← Nat.shiftLeft_add_eq_or_of_lt (show value.toNat < 2 ^ 6 from small), Nat.shiftLeft_eq]

/-- The buffer is filled as far as its value tells. -/
theorem filled_iff (buffer i : UInt32) (small : (6 * i).toNat < 32)
    : filled buffer i = true ↔ 2 ^ (6 * i).toNat ≤ buffer.toNat := by
  rw [filled, bne_iff_ne, ne_eq, ← UInt32.toNat_inj, UInt32.toNat_shiftRight,
    Nat.mod_eq_of_lt small, Nat.shiftRight_eq_div_pow, UInt32.toNat_zero,
    Nat.div_eq_zero_iff, not_or, Nat.not_lt]
  exact and_iff_right (Nat.two_pow_pos _).ne'

/-- One byte of the buffer. -/
theorem toUInt8_shift (buffer count : UInt32) (small : count.toNat < 32)
    : (buffer >>> count).toUInt8 = UInt8.ofNat (buffer.toNat / 2 ^ count.toNat) := by
  rw [← UInt8.toNat_inj, UInt32.toNat_toUInt8, UInt32.toNat_shiftRight,
    Nat.mod_eq_of_lt small, Nat.shiftRight_eq_div_pow, UInt8.toNat_ofNat']

/-- A value is kept while the buffer is not full. -/
theorem Decoder.push_of_lt {d : Decoder} {value : UInt32} (room : d.buffer.toNat < 2 ^ 18)
    (small : value.toNat < 64)
    : ∃ buffer, d.push value = { d with buffer }
        ∧ buffer.toNat = d.buffer.toNat * 64 + value.toNat := by
  have next := toNat_push (show d.buffer.toNat < 2 ^ 24 by omega) small
  refine ⟨_, ?_, next⟩
  have full := filled_iff (d.buffer <<< 6 ||| value) 4 (by decide)
  rw [next] at full
  rw [Decoder.push, if_neg]
  rw [full]
  change ¬ 2 ^ 24 ≤ _
  omega

/-- A byte only depends on the lowest eight bits. -/
theorem ofNat_eq {m n : Nat} (same : m % 256 = n % 256) : UInt8.ofNat m = UInt8.ofNat n := by
  rw [← UInt8.toNat_inj, UInt8.toNat_ofNat', UInt8.toNat_ofNat']
  exact same

/-- The value that fills the buffer writes it out. -/
theorem Decoder.push_of_ge {d : Decoder} {value : UInt32} (three : 2 ^ 18 ≤ d.buffer.toNat)
    (room : d.buffer.toNat < 2 ^ 24) (small : value.toNat < 64)
    : d.push value = {
        buffer := 1
        output := d.output ++ [
          UInt8.ofNat ((d.buffer.toNat * 64 + value.toNat) / 65536),
          UInt8.ofNat ((d.buffer.toNat * 64 + value.toNat) / 256),
          UInt8.ofNat (d.buffer.toNat * 64 + value.toNat)
        ]
      } := by
  have next := toNat_push room small
  have full := filled_iff (d.buffer <<< 6 ||| value) 4 (by decide)
  have first := toUInt8_shift (d.buffer <<< 6 ||| value) 16 (by decide)
  have second := toUInt8_shift (d.buffer <<< 6 ||| value) 8 (by decide)
  have third : (d.buffer <<< 6 ||| value).toUInt8
      = UInt8.ofNat (d.buffer <<< 6 ||| value).toNat := by
    rw [← UInt8.toNat_inj, UInt32.toNat_toUInt8, UInt8.toNat_ofNat']
  rw [next] at full first second third
  rw [Decoder.push, if_pos, first, second, third]
  · rfl
  rw [full]
  change 2 ^ 24 ≤ _
  omega

/-- Values are kept while there is room for all of them, by induction on the values. -/
theorem Decoder.foldl_push {d : Decoder} {values : List UInt32}
    (room : (d.buffer.toNat + 1) * 64 ^ values.length ≤ 2 ^ 24)
    (small : ∀ value ∈ values, value.toNat < 64)
    : ∃ buffer, values.foldl push d = { d with buffer }
        ∧ buffer.toNat = values.foldl (fun n value => n * 64 + value.toNat) d.buffer.toNat := by
  induction values generalizing d with
  | nil => exact ⟨d.buffer, rfl, rfl⟩
  | cons value values ih =>
      have smallValue := small value List.mem_cons_self
      have power : 0 < 64 ^ values.length := Nat.pow_pos (by decide)
      have roomHere : (d.buffer.toNat + 1) * 64 * 64 ^ values.length ≤ 2 ^ 24 := by
        rwa [Nat.mul_assoc, ← Nat.pow_succ']
      have isRoom : (d.buffer.toNat + 1) * 64 ≤ 2 ^ 24 :=
        Nat.le_trans (Nat.le_mul_of_pos_right _ power) roomHere
      obtain ⟨next, pushed, valueNext⟩ := push_of_lt (d := d) (by omega) smallValue
      have roomNext : (next.toNat + 1) * 64 ^ values.length ≤ 2 ^ 24 :=
        Nat.le_trans (Nat.mul_le_mul_right _ (by omega)) roomHere
      obtain ⟨buffer, rest, valueBuffer⟩ := ih (d := { d with buffer := next }) roomNext
        (fun other isIn => small other (List.mem_cons_of_mem value isIn))
      refine ⟨buffer, ?_, ?_⟩
      · rw [List.foldl_cons, pushed, rest]
      · rw [valueBuffer, List.foldl_cons, ← valueNext]

/-- Up to three values fit into the buffer of a decoder that starts. -/
theorem Decoder.foldl_push_new (output : Bytes) {values : List UInt32}
    (few : values.length ≤ 3) (small : ∀ value ∈ values, value.toNat < 64)
    : ∃ buffer, values.foldl push { buffer := 1, output } = { buffer, output }
        ∧ buffer.toNat = values.foldl (fun n value => n * 64 + value.toNat) 1 := by
  refine foldl_push (d := { buffer := 1, output }) ?_ small
  calc (1 + 1) * 64 ^ values.length
      ≤ (1 + 1) * 64 ^ 3 := Nat.mul_le_mul_left _ (Nat.pow_le_pow_right (by decide) few)
    _ ≤ 2 ^ 24 := by decide

/-- Four values make three bytes. -/
theorem Decoder.push_group (output : Bytes) {a b c d : UInt32} (smallA : a.toNat < 64)
    (smallB : b.toNat < 64) (smallC : c.toNat < 64) (smallD : d.toNat < 64)
    : [a, b, c, d].foldl Decoder.push { buffer := 1, output }
      = {
          buffer := 1
          output := output ++ [
            UInt8.ofNat (a.toNat * 4 + b.toNat / 16),
            UInt8.ofNat (b.toNat * 16 + c.toNat / 4),
            UInt8.ofNat (c.toNat * 64 + d.toNat)
          ]
        } := by
  obtain ⟨three, pushed, value⟩ := foldl_push_new output (show [a, b, c].length ≤ 3 from le_rfl)
    (by simp [smallA, smallB, smallC])
  simp only [List.foldl_cons, List.foldl_nil] at pushed value
  have pushD := push_of_ge (d := { buffer := three, output }) (by simp only; omega)
    (by simp only; omega) smallD
  simp only [List.foldl_cons, List.foldl_nil, pushed, pushD, Decoder.mk.injEq,
    true_and, List.append_cancel_left_eq, List.cons.injEq, and_true]
  exact ⟨ofNat_eq (by omega), ofNat_eq (by omega), ofNat_eq (by omega)⟩

/-- What is left in the buffer, by how far it is filled. -/
theorem Decoder.finish_eq (d : Decoder) (room : d.buffer.toNat < 2 ^ 19)
    : d.finish
      = if 2 ^ 18 ≤ d.buffer.toNat then
          (d.output ++ [UInt8.ofNat (d.buffer.toNat / 1024), UInt8.ofNat (d.buffer.toNat / 4)],
            true)
        else if 2 ^ 12 ≤ d.buffer.toNat then
          (d.output ++ [UInt8.ofNat (d.buffer.toNat / 16)], true)
        else if 2 ^ 6 ≤ d.buffer.toNat then (d.output, false)
        else (d.output, true) := by
  have three := filled_iff d.buffer 3 (by decide)
  have two := filled_iff d.buffer 2 (by decide)
  have one := filled_iff d.buffer 1 (by decide)
  have moved : (d.buffer <<< 6).toNat = d.buffer.toNat * 64 :=
    toNat_shift 6 (by decide) (by change _ * 64 < _; omega)
  have high := toUInt8_shift (d.buffer <<< 6) 16 (by decide)
  have low := toUInt8_shift (d.buffer <<< 6) 8 (by decide)
  rw [moved] at high low
  simp only [Decoder.finish, three, two, one, high, low]
  change (if 2 ^ 18 ≤ _ then (_ ++ [UInt8.ofNat (_ / 65536), UInt8.ofNat (_ / 256)], _)
    else if 2 ^ 12 ≤ _ then _ else if 2 ^ 6 ≤ _ then _ else _) = _
  split
  · rw [ofNat_eq (show d.buffer.toNat * 64 / 65536 % 256 = d.buffer.toNat / 1024 % 256 by omega),
      ofNat_eq (show d.buffer.toNat * 64 / 256 % 256 = d.buffer.toNat / 4 % 256 by omega)]
  · split
    · have moved : (d.buffer <<< 12).toNat = d.buffer.toNat * 4096 :=
        toNat_shift 12 (by decide) (by change _ * 4096 < _; omega)
      have high := toUInt8_shift (d.buffer <<< 12) 16 (by decide)
      rw [moved] at high
      rw [high]
      change (_ ++ [UInt8.ofNat (_ / 65536)], _) = _
      rw [ofNat_eq (show d.buffer.toNat * 4096 / 65536 % 256 = d.buffer.toNat / 16 % 256 by omega)]
    · rfl

/-- The decoder writes what the values stand for, by induction on the groups. -/
theorem Decoder.foldl_finish (values : List UInt32)
    (small : ∀ value ∈ values, value.toNat < 64) (output : Bytes)
    : (values.foldl push { buffer := 1, output }).finish
      = (output ++ (bytesOf values).1, (bytesOf values).2) := by
  have one : (1 : UInt32).toNat = 1 := rfl
  fun_induction bytesOf values generalizing output with
  | case1 a b c d rest more ih =>
      simp only [List.mem_cons, forall_eq_or_imp] at small
      obtain ⟨smallA, smallB, smallC, smallD, others⟩ := small
      have group := push_group output smallA smallB smallC smallD
      rw [show a :: b :: c :: d :: rest = [a, b, c, d] ++ rest from rfl, List.foldl_append,
        group, ih others, List.append_assoc]
      rfl
  | case2 a b c =>
      obtain ⟨three, pushed, value⟩ := foldl_push_new output le_rfl small
      simp only [List.foldl_cons, List.foldl_nil] at value
      simp only [List.mem_cons, forall_eq_or_imp] at small
      obtain ⟨smallA, smallB, smallC, _⟩ := small
      rw [pushed, finish_eq _ (by simp only; omega), if_pos (by simp only; omega)]
      simp only [Prod.mk.injEq, List.append_cancel_left_eq, List.cons.injEq, and_true]
      exact ⟨ofNat_eq (by omega), ofNat_eq (by omega)⟩
  | case3 a b =>
      obtain ⟨two, pushed, value⟩ := foldl_push_new output (by simp) small
      simp only [List.foldl_cons, List.foldl_nil] at value
      simp only [List.mem_cons, forall_eq_or_imp] at small
      obtain ⟨smallA, smallB, _⟩ := small
      rw [pushed, finish_eq _ (by simp only; omega), if_neg (by simp only; omega),
        if_pos (by simp only; omega)]
      simp only [Prod.mk.injEq, List.append_cancel_left_eq, List.cons.injEq, and_true]
      exact ofNat_eq (by omega)
  | case4 a =>
      have smallA := small a List.mem_cons_self
      obtain ⟨one, pushed, value⟩ := foldl_push_new output (by simp) small
      simp only [List.foldl_cons, List.foldl_nil] at value
      rw [pushed, finish_eq _ (by simp only; omega), if_neg (by simp only; omega),
        if_neg (by simp only; omega), if_pos (by simp only; omega), List.append_nil]
  | case5 =>
      rw [List.foldl_nil, finish_eq _ (by simp only [one]; omega),
        if_neg (by simp only [one]; omega), if_neg (by simp only [one]; omega),
        if_neg (by simp only [one]; omega), List.append_nil]

/-- Decoding a string is reading off what its values stand for. -/
theorem decode_eq (input : Bytes) : decode input = bytesOf (valuesOf input) := by
  have skips : ∀ d : Decoder,
      input.foldl Decoder.read d = (valuesOf input).foldl Decoder.push d := by
    intro d
    rw [valuesOf, List.foldl_filterMap]
    congr 1
    funext d c
    rw [Decoder.read]
    cases alphabetValue c <;> rfl
  rw [decode, skips, Decoder.foldl_finish _ (valuesOf_lt input), List.nil_append]

-----------------------------------------------------------------------------------------
-- The encoder
-----------------------------------------------------------------------------------------

/-- The encoder extracts six bits of its buffer. -/
theorem extract_eq (buffer i : UInt32) (small : (6 * i).toNat < 32)
    : extract buffer i = alphabet.getD (buffer.toNat / 2 ^ (6 * i).toNat % 64) 0 := by
  have place : (0x3f &&& buffer >>> (6 * i)).toNat = buffer.toNat / 2 ^ (6 * i).toNat % 64 := by
    rw [UInt32.toNat_and, UInt32.toNat_shiftRight, Nat.mod_eq_of_lt small,
      Nat.shiftRight_eq_div_pow, Nat.and_comm]
    exact Nat.and_two_pow_sub_one_eq_mod _ 6
  rw [extract, place]

/-- What the encoder extracts is one value of the string it writes. -/
theorem valuesOf_extract (buffer i : UInt32) (small : (6 * i).toNat < 32) (rest : Bytes)
    : ∃ value, valuesOf (extract buffer i :: rest) = value :: valuesOf rest
        ∧ value.toNat = buffer.toNat / 2 ^ (6 * i).toNat % 64 := by
  have inside : buffer.toNat / 2 ^ (6 * i).toNat % 64 < 64 := Nat.mod_lt _ (by decide)
  have found : alphabetValue (extract buffer i)
      = some (UInt32.ofNat (buffer.toNat / 2 ^ (6 * i).toNat % 64)) := by
    rw [extract_eq buffer i small]
    exact alphabetValue_getD ⟨_, inside⟩
  refine ⟨_, List.filterMap_cons_some found, ?_⟩
  rw [UInt32.toNat_ofNat']
  omega

/-- The encoder writes characters of the alphabet. -/
theorem extract_mem (buffer i : UInt32) : extract buffer i ∈ alphabet := by
  have small : (0x3f &&& buffer >>> (6 * i)).toNat < alphabet.length := by
    rw [UInt32.toNat_and]
    exact Nat.lt_of_le_of_lt Nat.and_le_left (by decide)
  rw [extract, List.getD_eq_getElem _ _ small]
  exact List.getElem_mem small

/-- The padding is skipped. -/
theorem valuesOf_padding (rest : Bytes) : valuesOf (chr '=' :: rest) = valuesOf rest :=
  List.filterMap_cons_none alphabetValue_padding

/-- Three bytes in the buffer. -/
theorem toNat_three (a b c : Byte)
    : (a.toUInt32 <<< 16 ||| b.toUInt32 <<< 8 ||| c.toUInt32).toNat
      = a.toNat * 65536 + b.toNat * 256 + c.toNat := by
  have smallA := a.toNat_lt
  have smallB := b.toNat_lt
  have smallC := c.toNat_lt
  have first : (a.toUInt32 <<< 16).toNat = a.toNat * 65536 :=
    toNat_shift 16 (by decide) (by change a.toNat * 65536 < _; omega)
  have second : (b.toUInt32 <<< 8).toNat = b.toNat * 256 :=
    toNat_shift 8 (by decide) (by change b.toNat * 256 < _; omega)
  have two : a.toNat * 65536 ||| b.toNat * 256 = (a.toNat * 256 + b.toNat) * 256 := by
    have joined := Nat.shiftLeft_add_eq_or_of_lt (show b.toNat * 256 < 2 ^ 16 by omega) a.toNat
    rw [Nat.shiftLeft_eq] at joined
    rw [← joined]
    omega
  have three := Nat.shiftLeft_add_eq_or_of_lt (show c.toNat < 2 ^ 8 from smallC)
    (a.toNat * 256 + b.toNat)
  rw [Nat.shiftLeft_eq] at three
  rw [UInt32.toNat_or, UInt32.toNat_or, first, second, two, UInt8.toNat_toUInt32, ← three]
  omega

/-- Two bytes in the buffer. -/
theorem toNat_two (a b : Byte)
    : (a.toUInt32 <<< 10 ||| b.toUInt32 <<< 2).toNat = a.toNat * 1024 + b.toNat * 4 := by
  have smallA := a.toNat_lt
  have smallB := b.toNat_lt
  have first : (a.toUInt32 <<< 10).toNat = a.toNat * 1024 :=
    toNat_shift 10 (by decide) (by change a.toNat * 1024 < _; omega)
  have second : (b.toUInt32 <<< 2).toNat = b.toNat * 4 :=
    toNat_shift 2 (by decide) (by change b.toNat * 4 < _; omega)
  have joined := Nat.shiftLeft_add_eq_or_of_lt (show b.toNat * 4 < 2 ^ 10 by omega) a.toNat
  rw [Nat.shiftLeft_eq] at joined
  rw [UInt32.toNat_or, first, second, ← joined]

/-- One byte in the buffer. -/
theorem toNat_one (a : Byte) : (a.toUInt32 <<< 10).toNat = a.toNat * 1024 := by
  have smallA := a.toNat_lt
  exact toNat_shift 10 (by decide) (by change a.toNat * 1024 < _; omega)

/-- A byte is told by its lowest eight bits. -/
theorem ofNat_eq_byte {n : Nat} {byte : Byte} (same : n % 256 = byte.toNat)
    : UInt8.ofNat n = byte := by
  rw [← UInt8.toNat_inj, UInt8.toNat_ofNat']
  exact same

/-- The values in an encoded string stand for the string, by induction on its groups. -/
theorem bytesOf_encode (input : Bytes) : bytesOf (valuesOf (encode input)) = (input, true) := by
  fun_induction encode input with
  | case1 a b c rest buffer ih =>
      have smallA := a.toNat_lt
      have smallB := b.toNat_lt
      have smallC := c.toNat_lt
      have value : buffer.toNat = a.toNat * 65536 + b.toNat * 256 + c.toNat := toNat_three a b c
      obtain ⟨_, values₃, value₃⟩ := valuesOf_extract buffer 3 (by decide)
        (extract buffer 2 :: extract buffer 1 :: extract buffer 0 :: encode rest)
      obtain ⟨_, values₂, value₂⟩ := valuesOf_extract buffer 2 (by decide)
        (extract buffer 1 :: extract buffer 0 :: encode rest)
      obtain ⟨_, values₁, value₁⟩ := valuesOf_extract buffer 1 (by decide)
        (extract buffer 0 :: encode rest)
      obtain ⟨_, values₀, value₀⟩ := valuesOf_extract buffer 0 (by decide) (encode rest)
      change _ = buffer.toNat / 262144 % 64 at value₃
      change _ = buffer.toNat / 4096 % 64 at value₂
      change _ = buffer.toNat / 64 % 64 at value₁
      change _ = buffer.toNat / 1 % 64 at value₀
      simp only [List.cons_append, List.nil_append, values₃, values₂, values₁, values₀,
        bytesOf, ih, Prod.mk.injEq, and_true, List.cons.injEq]
      exact ⟨ofNat_eq_byte (by omega), ofNat_eq_byte (by omega), ofNat_eq_byte (by omega)⟩
  | case2 a b buffer =>
      have smallA := a.toNat_lt
      have smallB := b.toNat_lt
      have value : buffer.toNat = a.toNat * 1024 + b.toNat * 4 := toNat_two a b
      obtain ⟨_, values₂, value₂⟩ := valuesOf_extract buffer 2 (by decide)
        [extract buffer 1, extract buffer 0, chr '=']
      obtain ⟨_, values₁, value₁⟩ := valuesOf_extract buffer 1 (by decide)
        [extract buffer 0, chr '=']
      obtain ⟨_, values₀, value₀⟩ := valuesOf_extract buffer 0 (by decide) [chr '=']
      change _ = buffer.toNat / 4096 % 64 at value₂
      change _ = buffer.toNat / 64 % 64 at value₁
      change _ = buffer.toNat / 1 % 64 at value₀
      have done : valuesOf [chr '='] = [] := valuesOf_padding []
      simp only [values₂, values₁, values₀, done, bytesOf, Prod.mk.injEq, and_true,
        List.cons.injEq]
      exact ⟨ofNat_eq_byte (by omega), ofNat_eq_byte (by omega)⟩
  | case3 a buffer =>
      have smallA := a.toNat_lt
      have value : buffer.toNat = a.toNat * 1024 := toNat_one a
      obtain ⟨_, values₂, value₂⟩ := valuesOf_extract buffer 2 (by decide)
        [extract buffer 1, chr '=', chr '=']
      obtain ⟨_, values₁, value₁⟩ := valuesOf_extract buffer 1 (by decide) [chr '=', chr '=']
      change _ = buffer.toNat / 4096 % 64 at value₂
      change _ = buffer.toNat / 64 % 64 at value₁
      have done : valuesOf [chr '=', chr '='] = [] := by
        rw [valuesOf_padding, valuesOf_padding]
        rfl
      simp only [values₂, values₁, done, bytesOf, Prod.mk.injEq, and_true, List.cons.injEq]
      exact ofNat_eq_byte (by omega)
  | case4 => rfl

/-- Decoding gives back what was encoded. -/
theorem decode_encode (input : Bytes) : decode (encode input) = (input, true) := by
  rw [decode_eq, bytesOf_encode]

/-- Decoding gives back what was encoded, for the Lua bindings. -/
theorem fromBase64_toBase64 (input : Bytes) : fromBase64 (toBase64 input) = some input := by
  simp only [fromBase64, toBase64, decode_encode, if_true]

/-- The encoder fills the buffer it is given, by induction on its groups. -/
theorem encode_length (input : Bytes) : (encode input).length = encodedSize input.length := by
  fun_induction encode input with
  | case1 a b c rest buffer ih =>
      simp only [List.cons_append, List.nil_append, List.length_cons, ih, encodedSize]
      omega
  | case2 a b buffer => simp [encodedSize]
  | case3 a buffer => simp [encodedSize]
  | case4 => rfl

/-- Whole groups are encoded on their own, by induction on them. -/
theorem encode_append (groups : Nat) (head tail : Bytes) (whole : head.length = 3 * groups)
    : encode (head ++ tail) = encode head ++ encode tail := by
  induction groups generalizing head with
  | zero =>
      obtain rfl := List.length_eq_zero_iff.mp whole
      rfl
  | succ groups ih =>
      match head, whole with
      | a :: b :: c :: rest, whole =>
          have later := ih rest (by simp only [List.length_cons] at whole; omega)
          simp only [List.cons_append, encode, later, List.nil_append]

end Snowcone.Base64
