import Snowcone.Foundations.CMemory
import Snowcone.Base64.Canonical

/-! The codec writes through a pointer into a buffer that its caller has allocated.
A write outside of the buffer has no result, so that a result tells there was none.
-/

namespace Snowcone.Base64

open Bytes

/-- An output pointer, and the buffer it points into. -/
structure Output where
  buffer : CMemory
  cursor : Nat
  deriving DecidableEq, Repr

/-- `*output++ = byte`. -/
def Output.put (out : Output) (byte : Byte) : Option Output :=
  if out.cursor < out.buffer.length then
    some { buffer := out.buffer.store out.cursor byte, cursor := out.cursor + 1 }
  else none

/-- One write after the other. -/
def Output.putAll (out : Output) (bytes : Bytes) : Option Output := bytes.foldlM Output.put out

/-- `base64::encode`: what the buffer holds and where the last write ended. -/
def encodeInto (out : Output) : Bytes → Option Output
  | a :: b :: c :: rest => do
      let buffer := a.toUInt32 <<< 16 ||| b.toUInt32 <<< 8 ||| c.toUInt32
      let next ← out.putAll [
        extract buffer 3, extract buffer 2, extract buffer 1, extract buffer 0]
      encodeInto next rest
  | [a, b] =>
      let buffer := a.toUInt32 <<< 10 ||| b.toUInt32 <<< 2
      out.putAll [extract buffer 2, extract buffer 1, extract buffer 0, chr '=']
  | [a] =>
      let buffer := a.toUInt32 <<< 10
      out.putAll [extract buffer 2, extract buffer 1, chr '=', chr '=']
  | [] => some out

/-- The local state of `base64::decode`. -/
structure Decoding where
  buffer : UInt32
  output : Output

/-- One round of the loop of `base64::decode`. -/
def Decoding.read (d : Decoding) (c : Byte) : Option Decoding :=
  match alphabetValue c with
  | none => some d
  | some value =>
      let buffer := d.buffer <<< 6 ||| value
      if filled buffer 4 then do
        let output ← d.output.putAll [
          (buffer >>> 16).toUInt8, (buffer >>> 8).toUInt8, buffer.toUInt8]
        some { buffer := 1, output }
      else some { d with buffer }

/-- What `base64::decode` does behind its loop: what the buffer holds, and the pointer that
is returned, nothing for the null pointer.
-/
def Decoding.finish (d : Decoding) : Option (CMemory × Option Nat) :=
  if filled d.buffer 3 then do
    let buffer := d.buffer <<< 6
    let output ← d.output.putAll [(buffer >>> 16).toUInt8, (buffer >>> 8).toUInt8]
    some (output.buffer, some output.cursor)
  else if filled d.buffer 2 then do
    let buffer := d.buffer <<< 12
    let output ← d.output.putAll [(buffer >>> 16).toUInt8]
    some (output.buffer, some output.cursor)
  else if filled d.buffer 1 then some (d.output.buffer, none)
  else some (d.output.buffer, some d.output.cursor)

/-- `base64::decode`. -/
def decodeInto (out : Output) (input : Bytes) : Option (CMemory × Option Nat) := do
  let d ← input.foldlM Decoding.read { buffer := 1, output := out }
  d.finish

/-- `base64::encoded_size`. -/
def encodedSizeOf (len : UInt64) : UInt64 := (len + 2) / 3 * 4

/-- `base64::decoded_size`. -/
def decodedSizeOf (len : UInt64) : UInt64 := (len + 3) / 4 * 3

/-- `l_to_base64`, for the memory that `luaL_buffinitsize` allocates: the string that
`luaL_pushresultsize` pushes.
-/
def lToBase64 (allocate : UInt64 → CMemory) (input : Bytes) : Option Bytes := do
  let outlen := encodedSizeOf input.length.toUInt64
  let output ← encodeInto { buffer := allocate outlen, cursor := 0 } input
  some (View.read { data := 0, size := outlen.toNat } output.buffer)

/-- `l_from_base64`, for the memory that `luaL_buffinitsize` allocates: the string that
`luaL_pushresultsize` pushes, or nil.
-/
def lFromBase64 (allocate : UInt64 → CMemory) (input : Bytes) : Option (Option Bytes) := do
  let outlen := decodedSizeOf input.length.toUInt64
  let (output, last) ← decodeInto { buffer := allocate outlen, cursor := 0 } input
  some (last.map fun size => View.read { data := 0, size } output)

-----------------------------------------------------------------------------------------
-- Writing into a buffer
-----------------------------------------------------------------------------------------

/-- Writes go on where the ones before ended. -/
theorem Output.putAll_append (out : Output) (head tail : Bytes)
    : out.putAll (head ++ tail) = (out.putAll head).bind (·.putAll tail) :=
  List.foldlM_append

/-- A write inside of the buffer goes where the pointer points. -/
theorem take_store {memory : CMemory} {p : Nat} (inside : p < memory.length) (byte : Byte)
    : (memory.store p byte).take (p + 1) = memory.take p ++ [byte] := by
  have size : (memory.take p).length = p := List.length_take_of_le inside.le
  rw [CMemory.store, List.take_set, List.take_add_one, List.getElem?_eq_getElem inside,
    Option.toList_some, List.set_append_right _ _ size.le, size, Nat.sub_self]
  rfl

/-- Writes that stay inside of the buffer succeed, and they leave the rest of it alone, by
induction on them.
-/
theorem Output.putAll_fits (out : Output) (bytes : Bytes)
    (room : out.cursor + bytes.length ≤ out.buffer.length)
    : ∃ next, out.putAll bytes = some next
        ∧ next.cursor = out.cursor + bytes.length
        ∧ CMemory.Frame out.cursor next.cursor out.buffer next.buffer
        ∧ next.buffer.take next.cursor = out.buffer.take out.cursor ++ bytes := by
  induction bytes generalizing out with
  | nil => exact ⟨out, rfl, rfl, CMemory.Frame.refl _ _ _, (List.append_nil _).symm⟩
  | cons byte rest ih =>
      simp only [List.length_cons] at room
      have inside : out.cursor < out.buffer.length := by omega
      obtain ⟨next, writes, cursor, frame, holds⟩ := ih
        { buffer := out.buffer.store out.cursor byte, cursor := out.cursor + 1 }
        (by simp only [CMemory.store, List.length_set]; omega)
      simp only at cursor frame holds
      refine ⟨next, ?_, ?_, ?_, ?_⟩
      · rw [putAll, List.foldlM_cons, put, if_pos inside]
        exact writes
      · rw [cursor, List.length_cons]
        omega
      · have one := CMemory.frame_store out.buffer out.cursor byte
        exact (one.mono le_rfl (by omega)).trans (frame.mono (by omega) le_rfl)
      · rw [holds, take_store inside, List.append_assoc, List.singleton_append]

/-- The encoder writes what `encode` tells, by induction on its groups. -/
theorem encodeInto_eq (out : Output) (input : Bytes)
    : encodeInto out input = out.putAll (encode input) := by
  fun_induction encode input generalizing out with
  | case1 a b c rest buffer ih =>
      rw [encodeInto, Output.putAll_append]
      exact Option.bind_congr fun next _ => ih next
  | case2 a b buffer => rfl
  | case3 a buffer => rfl
  | case4 => rfl

/-- A round of the loop writes what the decoder puts out in it. -/
theorem Decoding.read_eq (out : Output) (d : Decoder) (c : Byte)
    : (out.putAll d.output).bind (fun output => Decoding.read { buffer := d.buffer, output } c)
      = (out.putAll (d.read c).output).map fun output =>
          { buffer := (d.read c).buffer, output } := by
  cases found : alphabetValue c with
  | none =>
      simp only [Decoding.read, Decoder.read, found]
      rw [Option.map_eq_bind]
      rfl
  | some value =>
      by_cases full : filled (d.buffer <<< 6 ||| value) 4 = true
      · simp only [Decoding.read, Decoder.read, Decoder.push, found, full, if_true]
        rw [Output.putAll_append, Option.map_bind]
        exact Option.bind_congr fun output _ => Option.map_eq_bind.symm
      · simp only [Decoding.read, Decoder.read, Decoder.push, found, full]
        rw [Option.map_eq_bind]
        rfl

/-- The loop writes what the decoder puts out, by induction on the input. -/
theorem Decoding.loop_eq (out : Output) (d : Decoder) (input : Bytes)
    : (out.putAll d.output).bind
        (fun output => input.foldlM Decoding.read { buffer := d.buffer, output })
      = (out.putAll (input.foldl Decoder.read d).output).map fun output =>
          { buffer := (input.foldl Decoder.read d).buffer, output } := by
  induction input generalizing d with
  | nil =>
      rw [Option.map_eq_bind]
      rfl
  | cons c rest ih =>
      calc (out.putAll d.output).bind
            (fun output => (c :: rest).foldlM Decoding.read { buffer := d.buffer, output })
          = ((out.putAll d.output).bind
              (fun output => Decoding.read { buffer := d.buffer, output } c)).bind
                (rest.foldlM Decoding.read) := by
            rw [Option.bind_assoc]
            rfl
        _ = (out.putAll (d.read c).output).bind
              (fun output =>
                rest.foldlM Decoding.read { buffer := (d.read c).buffer, output }) := by
            rw [read_eq, Option.bind_map]
            rfl
        _ = _ := ih (d.read c)

/-- What is left is written to the buffer as `decode` tells. -/
theorem Decoding.finish_eq (out : Output) (d : Decoder)
    : (out.putAll d.output).bind (fun output => Decoding.finish { buffer := d.buffer, output })
      = (out.putAll d.finish.1).map fun output =>
          (output.buffer, if d.finish.2 then some output.cursor else none) := by
  simp only [Decoding.finish, Decoder.finish]
  by_cases three : filled d.buffer 3 = true
  · simp only [three, if_true]
    rw [Output.putAll_append, Option.map_bind]
    exact Option.bind_congr fun output _ => Option.map_eq_bind.symm
  · by_cases two : filled d.buffer 2 = true
    · simp only [three, two, if_true, Bool.false_eq_true, if_false]
      rw [Output.putAll_append, Option.map_bind]
      exact Option.bind_congr fun output _ => Option.map_eq_bind.symm
    · by_cases one : filled d.buffer 1 = true
      · simp only [three, two, one, if_true, Bool.false_eq_true, if_false]
        exact Option.map_eq_bind.symm
      · simp only [three, two, one, if_true, Bool.false_eq_true, if_false]
        exact Option.map_eq_bind.symm

/-- The decoder writes what `decode` tells, and it returns the null pointer for invalid
input.
-/
theorem decodeInto_eq (out : Output) (input : Bytes)
    : decodeInto out input = (out.putAll (decode input).1).map fun output =>
        (output.buffer, if (decode input).2 then some output.cursor else none) := by
  have loop := Decoding.loop_eq out { buffer := 1, output := [] } input
  calc decodeInto out input
      = ((out.putAll []).bind
          (fun output => input.foldlM Decoding.read { buffer := 1, output })).bind
            Decoding.finish := rfl
    _ = (out.putAll (input.foldl Decoder.read { buffer := 1, output := [] }).output).bind
          (fun output => Decoding.finish {
            buffer := (input.foldl Decoder.read { buffer := 1, output := [] }).buffer
            output
          }) := by
        rw [loop, Option.bind_map]
        rfl
    _ = _ := Decoding.finish_eq out _

-----------------------------------------------------------------------------------------
-- The sizes
-----------------------------------------------------------------------------------------

/-- Six bits for each value make so many whole bytes, by induction on the groups. -/
theorem bytesOf_length (values : List UInt32)
    : (bytesOf values).1.length = 6 * values.length / 8 := by
  fun_induction bytesOf values with
  | case1 a b c d rest more ih =>
      simp only [more, ih, List.length_cons]
      omega
  | case2 a b c => simp
  | case3 a b => simp
  | case4 a => simp
  | case5 => simp

/-- The values of a string are those of its characters, by induction on it. -/
theorem valuesOf_count (input : Bytes)
    : (valuesOf input).length = input.countP (fun c => decide (c ∈ alphabet)) := by
  induction input with
  | nil => rfl
  | cons c rest ih =>
      cases found : alphabetValue c with
      | none =>
          have outside := (alphabetValue_eq_none_iff c).mp found
          rw [valuesOf, List.filterMap_cons_none found, List.countP_cons_of_neg (by simpa)]
          exact ih
      | some value =>
          have inside : c ∈ alphabet := by
            by_contra outside
            rw [(alphabetValue_eq_none_iff c).mpr outside] at found
            cases found
          rw [valuesOf, List.filterMap_cons_some found, List.countP_cons_of_pos (by simpa),
            List.length_cons]
          exact congrArg (· + 1) ih

/-- The size for encoding, as long as it does not wrap. -/
theorem encodedSizeOf_toNat {len : Nat} (fits : encodedSize len < 2 ^ 64)
    : (encodedSizeOf len.toUInt64).toNat = encodedSize len := by
  simp only [encodedSize] at fits ⊢
  have small : len + 2 < 2 ^ 64 := by omega
  simp only [encodedSizeOf, UInt64.toNat_mul, UInt64.toNat_div, UInt64.toNat_add,
    Nat.toUInt64_eq, UInt64.toNat_ofNat', UInt64.reduceToNat]
  rw [Nat.mod_eq_of_lt (show len < 2 ^ 64 by omega), Nat.mod_eq_of_lt small,
    Nat.mod_eq_of_lt fits]

/-- The size for decoding, as long as it does not wrap. -/
theorem decodedSizeOf_toNat {len : Nat} (fits : len + 3 < 2 ^ 64)
    : (decodedSizeOf len.toUInt64).toNat = decodedSize len := by
  simp only [decodedSize]
  simp only [decodedSizeOf, UInt64.toNat_mul, UInt64.toNat_div, UInt64.toNat_add,
    Nat.toUInt64_eq, UInt64.toNat_ofNat', UInt64.reduceToNat]
  omega

/-- The decoder writes inside of a buffer of the size for decoding, and it returns where
the last write ended unless there is one character too many.
-/
theorem decodeInto_fits (out : Output) (input : Bytes)
    (room : out.cursor + decodedSize input.length ≤ out.buffer.length)
    : ∃ memory,
        decodeInto out input
          = some (memory,
              if input.countP (fun c => decide (c ∈ alphabet)) % 4 = 1 then none
              else some
                (out.cursor + 6 * input.countP (fun c => decide (c ∈ alphabet)) / 8))
        ∧ CMemory.Frame out.cursor (out.cursor + decodedSize input.length) out.buffer memory
        ∧ memory.take (out.cursor + (decode input).1.length)
          = out.buffer.take out.cursor ++ (decode input).1 := by
  have count := valuesOf_count input
  have few : (valuesOf input).length ≤ input.length := List.length_filterMap_le _ _
  have size := bytesOf_length (valuesOf input)
  have valid := bytesOf_valid (valuesOf input)
  rw [← decode_eq, count] at size valid
  simp only [decodedSize] at room
  obtain ⟨next, writes, cursor, frame, holds⟩ := out.putAll_fits (decode input).1 (by omega)
  refine ⟨next.buffer, ?_, ?_, ?_⟩
  · rw [decodeInto_eq, writes, Option.map_some, cursor, size]
    by_cases one : input.countP (fun c => decide (c ∈ alphabet)) % 4 = 1
    · rw [if_neg (by rw [valid]; exact fun differs => differs one), if_pos one]
    · rw [if_pos (valid.mpr one), if_neg one]
  · exact frame.mono le_rfl (by simp only [decodedSize]; omega)
  · rw [← cursor]
    exact holds

/-- The encoder fills a buffer of the size for encoding. -/
theorem encodeInto_fits (out : Output) (input : Bytes)
    (room : out.cursor + encodedSize input.length ≤ out.buffer.length)
    : ∃ next, encodeInto out input = some next
        ∧ next.cursor = out.cursor + encodedSize input.length
        ∧ CMemory.Frame out.cursor next.cursor out.buffer next.buffer
        ∧ next.buffer.take next.cursor = out.buffer.take out.cursor ++ encode input := by
  rw [encodeInto_eq, ← encode_length]
  exact out.putAll_fits (encode input) (by rw [encode_length]; exact room)

/-- The codec stays inside of buffers of the sizes it asks for: the decoder fails for one
character too many and else returns the end of what it wrote, the encoder fills its buffer,
and the Lua bindings push what was written.
-/
theorem codec_stays_inside (input : Bytes) (decodes : input.length + 3 < 2 ^ 64)
    (encodes : encodedSize input.length < 2 ^ 64)
    : (∀ out : Output,
          out.cursor + (decodedSizeOf input.length.toUInt64).toNat ≤ out.buffer.length →
          ∃ memory,
            decodeInto out input
              = some (memory,
                  if input.countP (fun c => decide (c ∈ alphabet)) % 4 = 1 then none
                  else some
                    (out.cursor + 6 * input.countP (fun c => decide (c ∈ alphabet)) / 8))
            ∧ CMemory.Frame out.cursor
                (out.cursor + (decodedSizeOf input.length.toUInt64).toNat) out.buffer memory)
      ∧ (∀ out : Output,
          out.cursor + (encodedSizeOf input.length.toUInt64).toNat ≤ out.buffer.length →
          ∃ next, encodeInto out input = some next
            ∧ next.cursor = out.cursor + (encodedSizeOf input.length.toUInt64).toNat
            ∧ CMemory.Frame out.cursor next.cursor out.buffer next.buffer)
      ∧ ∀ allocate : UInt64 → CMemory, (∀ size, size.toNat ≤ (allocate size).length) →
          lToBase64 allocate input = some (toBase64 input)
          ∧ lFromBase64 allocate input = some (fromBase64 input) := by
  have decodedSize_eq := decodedSizeOf_toNat decodes
  have encodedSize_eq := encodedSizeOf_toNat encodes
  refine ⟨fun out room => ?_, fun out room => ?_, fun allocate enough => ⟨?_, ?_⟩⟩
  · rw [decodedSize_eq] at room ⊢
    obtain ⟨memory, decoded, frame, _⟩ := decodeInto_fits out input room
    exact ⟨memory, decoded, frame⟩
  · rw [encodedSize_eq] at room ⊢
    obtain ⟨next, encoded, cursor, frame, _⟩ := encodeInto_fits out input room
    exact ⟨next, encoded, cursor, frame⟩
  · have room := enough (encodedSizeOf input.length.toUInt64)
    rw [encodedSize_eq] at room
    obtain ⟨next, encoded, cursor, _, holds⟩ := encodeInto_fits
      { buffer := allocate (encodedSizeOf input.length.toUInt64), cursor := 0 } input
      (by simpa using room)
    simp only [cursor, Nat.zero_add, List.take_zero, List.nil_append] at holds
    simp only [lToBase64, encoded, View.read, encodedSize_eq, List.drop_zero]
    exact congrArg some holds
  · have room := enough (decodedSizeOf input.length.toUInt64)
    rw [decodedSize_eq] at room
    obtain ⟨memory, decoded, _, holds⟩ := decodeInto_fits
      { buffer := allocate (decodedSizeOf input.length.toUInt64), cursor := 0 } input
      (by simpa using room)
    simp only [Nat.zero_add, List.take_zero, List.nil_append] at decoded holds
    have size := bytesOf_length (valuesOf input)
    have valid := bytesOf_valid (valuesOf input)
    rw [← decode_eq, valuesOf_count] at size valid
    simp only [lFromBase64, decoded, fromBase64, View.read, List.drop_zero]
    by_cases one : input.countP (fun c => decide (c ∈ alphabet)) % 4 = 1
    · rw [if_pos one, if_neg (by rw [valid]; exact fun differs => differs one)]
      rfl
    · rw [if_neg one, if_pos (valid.mpr one), ← holds, size]
      rfl

/-- Witness: a character too many, and a buffer that is larger than needed. -/
theorem codec_stays_inside_witness
    : ∃ memory, decodeInto { buffer := [1, 2, 3, 4, 5, 6, 7, 8], cursor := 1 }
        [chr 'Z', chr 'm', chr '8', chr 'v', 10, chr 'Z'] = some (memory, none) := by
  obtain ⟨memory, decoded, _⟩ := (codec_stays_inside
    [chr 'Z', chr 'm', chr '8', chr 'v', 10, chr 'Z'] (by decide) (by decide)).1
      { buffer := [1, 2, 3, 4, 5, 6, 7, 8], cursor := 1 } (by decide)
  exact ⟨memory, decoded⟩

end Snowcone.Base64
