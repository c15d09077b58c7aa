import Snowcone.Foundations.Bytes

/-! Base64 encoding and decoding through a 32-bit buffer. -/

namespace Snowcone.Base64

open Bytes

def alphabet : Bytes :=
  [
    'A', 'B', 'C', 'D', 'E', 'F', 'G', 'H', 'I', 'J', 'K', 'L', 'M', 'N', 'O', 'P',
    'Q', 'R', 'S', 'T', 'U', 'V', 'W', 'X', 'Y', 'Z', 'a', 'b', 'c', 'd', 'e', 'f',
    'g', 'h', 'i', 'j', 'k', 'l', 'm', 'n', 'o', 'p', 'q', 'r', 's', 't', 'u', 'v',
    'w', 'x', 'y', 'z', '0', '1', '2', '3', '4', '5', '6', '7', '8', '9', '+', '/'
  ].map chr

/-- The table `alphabet_values`; no value stands for its -1. -/
def alphabetValue (c : Byte) : Option UInt32 :=
  (alphabet.findIdx? (· == c)).map UInt32.ofNat

/-- The buffer needed to encode a string. -/
def encodedSize (len : Nat) : Nat := (len + 2) / 3 * 4

/-- The buffer needed to decode a string. -/
def decodedSize (len : Nat) : Nat := (len + 3) / 4 * 3

/-- The character for the `i`th group of six bits in the buffer. -/
def extract (buffer i : UInt32) : Byte :=
  alphabet.getD (0x3f &&& buffer >>> (6 * i)).toNat 0

/-- Encode a string: three bytes at a time, then the one or two that are left. -/
def encode : Bytes → Bytes
  | a :: b :: c :: rest =>
      let buffer := a.toUInt32 <<< 16 ||| b.toUInt32 <<< 8 ||| c.toUInt32
      [extract buffer 3, extract buffer 2, extract buffer 1, extract buffer 0] ++ encode rest
  | [a, b] =>
      let buffer := a.toUInt32 <<< 10 ||| b.toUInt32 <<< 2
      [extract buffer 2, extract buffer 1, extract buffer 0, chr '=']
  | [a] =>
      let buffer := a.toUInt32 <<< 10
      [extract buffer 2, extract buffer 1, chr '=', chr '=']
  | [] => []

/-- The buffer of the decoder and what it has written. The highest bit set in the buffer
tells how full it is.
-/
structure Decoder where
  buffer : UInt32
  output : Bytes

/-- Whether the buffer holds at least `i` characters. -/
def filled (buffer i : UInt32) : Bool := buffer >>> (6 * i) != 0

/-- Put one value into the buffer and write the buffer out when it is full. -/
def Decoder.push (d : Decoder) (value : UInt32) : Decoder :=
  let buffer := d.buffer <<< 6 ||| value
  if filled buffer 4 then
    {
      buffer := 1
      output := d.output ++ [(buffer >>> 16).toUInt8, (buffer >>> 8).toUInt8, buffer.toUInt8]
    }
  else { d with buffer }

/-- One round of the loop over the input. -/
def Decoder.read (d : Decoder) (c : Byte) : Decoder :=
  match alphabetValue c with
  | none => d
  | some value => d.push value

/-- Write out what is left in the buffer, and tell whether the input was valid. -/
def Decoder.finish (d : Decoder) : Bytes × Bool :=
  if filled d.buffer 3 then
    let buffer := d.buffer <<< 6
    (d.output ++ [(buffer >>> 16).toUInt8, (buffer >>> 8).toUInt8], true)
  else if filled d.buffer 2 then
    let buffer := d.buffer <<< 12
    (d.output ++ [(buffer >>> 16).toUInt8], true)
  else if filled d.buffer 1 then (d.output, false)
  else (d.output, true)

/-- Decode a string: what is written to the output, and whether the input was valid. -/
def decode (input : Bytes) : Bytes × Bool :=
  (input.foldl Decoder.read { buffer := 1, output := [] }).finish

/-- The Lua binding of `encode`. -/
def toBase64 (input : Bytes) : Bytes := encode input

/-- The Lua binding of `decode`; nil for invalid input. -/
def fromBase64 (input : Bytes) : Option Bytes :=
  let (output, valid) := decode input
  if valid then some output else none

end Snowcone.Base64
