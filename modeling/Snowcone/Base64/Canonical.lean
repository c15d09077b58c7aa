import Mathlib.Data.List.GetD
import Snowcone.Base64.RoundTrip

/-! Encoding inverts decoding on canonical text, and decoding does not see junk. -/

namespace Snowcone.Base64

open Bytes

/-- Bytes outside of the alphabet may stand anywhere among the characters of a text. -/
inductive Interleaved : Bytes → Bytes → Prop where
  | nil : Interleaved [] []
  | kept (c : Byte) {text mixed : Bytes} (rest : Interleaved text mixed)
      : Interleaved (c :: text) (c :: mixed)
  | junk (c : Byte) {text mixed : Bytes} (outside : c ∉ alphabet)
      (rest : Interleaved text mixed)
      : Interleaved text (c :: mixed)

/-- Canonical text: whole groups of characters, at most two of them padding at the end,
where the padding replaces characters and the bits it leaves over are zero.
-/
structure Canonical (characters : Bytes) (padding : Nat) : Prop where
  inAlphabet : ∀ c ∈ characters, c ∈ alphabet
  whole : (characters.length + padding) % 4 = 0
  atMostTwo : padding ≤ 2
  zeroBits : ∀ value ∈ (valuesOf characters).getLast?, value.toNat % 4 ^ padding = 0

/-- The alphabet is what has a value. -/
theorem alphabetValue_eq_none_iff (c : Byte) : alphabetValue c = none ↔ c ∉ alphabet := by
  simp only [alphabetValue, Option.map_eq_none_iff, List.findIdx?_eq_none_iff,
    beq_eq_false_iff_ne]
  exact ⟨fun differs member => differs c member rfl,
    fun outside other member same => outside (same ▸ member)⟩

/-- The character of a six-bit value. -/
def characterOf (value : UInt32) : Byte := alphabet.getD value.toNat 0

/-- A character is the one of its value. -/
theorem characterOf_value {c : Byte} {value : UInt32} (found : alphabetValue c = some value)
    : characterOf value = c := by
  have small := alphabetValue_lt found
  simp only [alphabetValue, Option.map_eq_some_iff] at found
  obtain ⟨place, finds, rfl⟩ := found
  obtain ⟨inside, same, _⟩ := List.findIdx?_eq_some_iff_getElem.mp finds
  have size : alphabet.length = 64 := by decide
  have placed : (UInt32.ofNat place).toNat = place := by
    rw [UInt32.toNat_ofNat']
    omega
  rw [characterOf, placed, List.getD_eq_getElem _ _ inside]
  exact beq_iff_eq.mp same

/-- Text within the alphabet is told by its values. -/
theorem map_characterOf {characters : Bytes} (inAlphabet : ∀ c ∈ characters, c ∈ alphabet)
    : (valuesOf characters).map characterOf = characters := by
  induction characters with
  | nil => rfl
  | cons c rest ih =>
      obtain ⟨value, found⟩ : ∃ value, alphabetValue c = some value := by
        refine Option.ne_none_iff_exists'.mp fun missing => ?_
        exact (alphabetValue_eq_none_iff c).mp missing (inAlphabet c List.mem_cons_self)
      have later := ih fun other member => inAlphabet other (List.mem_cons_of_mem c member)
      rw [valuesOf, List.filterMap_cons_some found, List.map_cons, characterOf_value found]
      exact congrArg (c :: ·) later

/-- Junk has no values, by induction on how it is interleaved. -/
theorem Interleaved.valuesOf_eq {text mixed : Bytes} (mixes : Interleaved text mixed)
    : valuesOf mixed = valuesOf text := by
  induction mixes with
  | nil => rfl
  | kept c rest ih =>
      simp only [valuesOf, List.filterMap_cons] at ih ⊢
      rw [ih]
  | junk c outside rest ih =>
      rw [valuesOf, List.filterMap_cons_none ((alphabetValue_eq_none_iff c).mpr outside)]
      exact ih

/-- What the encoder extracts is the character of six bits of its buffer. -/
theorem extract_of_value {buffer : UInt32} (i value : UInt32) (small : (6 * i).toNat < 32)
    (same : buffer.toNat / 2 ^ (6 * i).toNat % 64 = value.toNat)
    : extract buffer i = characterOf value := by
  rw [extract_eq buffer i small, same, characterOf]

/-- Encoding the bytes of whole groups gives their characters, by induction on them. -/
theorem encode_bytesOf (values : List UInt32) (padding : Nat)
    (small : ∀ value ∈ values, value.toNat < 64)
    (whole : (values.length + padding) % 4 = 0) (atMostTwo : padding ≤ 2)
    (zeroBits : ∀ value ∈ values.getLast?, value.toNat % 4 ^ padding = 0)
    : encode (bytesOf values).1
      = values.map characterOf ++ List.replicate padding (chr '=') := by
  fun_induction bytesOf values with
  | case1 a b c d rest more ih =>
      simp only [List.mem_cons, forall_eq_or_imp] at small
      obtain ⟨smallA, smallB, smallC, smallD, others⟩ := small
      have later := ih others (by simp only [List.length_cons] at whole; omega) (by
        intro value last
        refine zeroBits value ?_
        cases rest with
        | nil => cases last
        | cons e rest => simpa only [List.getLast?_cons_cons] using last)
      have value := toNat_three (UInt8.ofNat (a.toNat * 4 + b.toNat / 16))
        (UInt8.ofNat (b.toNat * 16 + c.toNat / 4)) (UInt8.ofNat (c.toNat * 64 + d.toNat))
      simp only [UInt8.toNat_ofNat'] at value
      have first := extract_of_value 3 a (by decide)
        (by rw [value]; change _ / 262144 % 64 = _; omega)
      have second := extract_of_value 2 b (by decide)
        (by rw [value]; change _ / 4096 % 64 = _; omega)
      have third := extract_of_value 1 c (by decide)
        (by rw [value]; change _ / 64 % 64 = _; omega)
      have fourth := extract_of_value 0 d (by decide)
        (by rw [value]; change _ / 1 % 64 = _; omega)
      simp only [encode, List.map_cons, List.cons_append, List.nil_append, first, second,
        third, fourth]
      simp only [more, later]
  | case2 a b c =>
      obtain rfl : padding = 1 := by simp only [List.length_cons, List.length_nil] at whole; omega
      simp only [List.mem_cons, forall_eq_or_imp] at small
      obtain ⟨smallA, smallB, smallC, _⟩ := small
      have zero : c.toNat % 4 = 0 := zeroBits c rfl
      have value := toNat_two (UInt8.ofNat (a.toNat * 4 + b.toNat / 16))
        (UInt8.ofNat (b.toNat * 16 + c.toNat / 4))
      simp only [UInt8.toNat_ofNat'] at value
      have first := extract_of_value 2 a (by decide)
        (by rw [value]; change _ / 4096 % 64 = _; omega)
      have second := extract_of_value 1 b (by decide)
        (by rw [value]; change _ / 64 % 64 = _; omega)
      have third := extract_of_value 0 c (by decide)
        (by rw [value]; change _ / 1 % 64 = _; omega)
      simp only [encode, first, second, third]
      rfl
  | case3 a b =>
      obtain rfl : padding = 2 := by simp only [List.length_cons, List.length_nil] at whole; omega
      simp only [List.mem_cons, forall_eq_or_imp] at small
      obtain ⟨smallA, smallB, _⟩ := small
      have zero : b.toNat % 16 = 0 := zeroBits b rfl
      have value := toNat_one (UInt8.ofNat (a.toNat * 4 + b.toNat / 16))
      simp only [UInt8.toNat_ofNat'] at value
      have first := extract_of_value 2 a (by decide)
        (by rw [value]; change _ / 4096 % 64 = _; omega)
      have second := extract_of_value 1 b (by decide)
        (by rw [value]; change _ / 64 % 64 = _; omega)
      simp only [encode, first, second]
      rfl
  | case4 a =>
      simp only [List.length_cons, List.length_nil] at whole
      omega
  | case5 =>
      obtain rfl : padding = 0 := by simp only [List.length_nil] at whole; omega
      rfl

/-- Padding has no values. -/
theorem valuesOf_append_padding (characters : Bytes) (padding : Nat)
    : valuesOf (characters ++ List.replicate padding (chr '=')) = valuesOf characters := by
  have none : valuesOf (List.replicate padding (chr '=')) = [] := by
    refine List.filterMap_eq_nil_iff.mpr fun c member => ?_
    rw [List.eq_of_mem_replicate member]
    exact alphabetValue_padding
  rw [valuesOf, List.filterMap_append]
  change _ ++ valuesOf (List.replicate padding (chr '=')) = _
  rw [none, List.append_nil]
  rfl

/-- Text within the alphabet has a value for each character. -/
theorem valuesOf_length {characters : Bytes} (inAlphabet : ∀ c ∈ characters, c ∈ alphabet)
    : (valuesOf characters).length = characters.length := by
  conv => rhs; rw [← map_characterOf inAlphabet]
  exact (List.length_map characterOf).symm

/-- Whole groups are valid, by induction on them. -/
theorem bytesOf_valid (values : List UInt32)
    : (bytesOf values).2 = true ↔ values.length % 4 ≠ 1 := by
  fun_induction bytesOf values with
  | case1 a b c d rest more ih =>
      simp only [more, ih, List.length_cons]
      omega
  | case2 a b c => simp
  | case3 a b => simp
  | case4 a => simp
  | case5 => simp

/-- Canonical text is valid, and it is the encoding of what it decodes to. -/
theorem Canonical.encode_decode {characters : Bytes} {padding : Nat}
    (canonical : Canonical characters padding)
    : (decode (characters ++ List.replicate padding (chr '='))).2 = true
      ∧ encode (decode (characters ++ List.replicate padding (chr '='))).1
        = characters ++ List.replicate padding (chr '=') := by
  have count := valuesOf_length canonical.inAlphabet
  have whole := canonical.whole
  have few := canonical.atMostTwo
  rw [decode_eq, valuesOf_append_padding]
  refine ⟨(bytesOf_valid _).mpr (by omega), ?_⟩
  rw [encode_bytesOf _ padding (valuesOf_lt characters) (by omega) few canonical.zeroBits,
    map_characterOf canonical.inAlphabet]

/-- Decoding encoded text gives back what was encoded, whatever junk is mixed into the
text; and encoding what canonical text decodes to gives back the text.
-/
theorem codec_inverse
    : (∀ input mixed, Interleaved (encode input) mixed → decode mixed = (input, true))
      ∧ ∀ characters padding, Canonical characters padding →
          (decode (characters ++ List.replicate padding (chr '='))).2 = true
          ∧ encode (decode (characters ++ List.replicate padding (chr '='))).1
            = characters ++ List.replicate padding (chr '=') := by
  refine ⟨fun input mixed mixes => ?_, fun characters padding => Canonical.encode_decode⟩
  rw [decode_eq, mixes.valuesOf_eq, bytesOf_encode]

/-- Witness: a line break, a byte above the ASCII range and padding in the encoding of `f`,
and the canonical text of `fo`.
-/
theorem codec_inverse_witness
    : decode [chr 'Z', 10, chr 'g', chr '=', 0x80, chr '=', chr '='] = ([chr 'f'], true)
      ∧ encode (decode ([chr 'Z', chr 'm', chr '8'] ++ List.replicate 1 (chr '='))).1
        = [chr 'Z', chr 'm', chr '8'] ++ List.replicate 1 (chr '=') := by
  refine ⟨codec_inverse.1 [chr 'f'] _ ?_, (codec_inverse.2 _ 1 ?_).2⟩
  · exact .kept _ (.junk _ (by decide) (.kept _ (.kept _ (.junk _ (by decide)
      (.kept _ (.junk _ (by decide) .nil))))))
  · exact ⟨by decide +kernel, by decide, by decide, by rintro _ ⟨⟩; rfl⟩

end Snowcone.Base64
