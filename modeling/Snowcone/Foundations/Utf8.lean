import Snowcone.Foundations.Bytes

/-! UTF-8 as Lua's `utf8` library writes and reads it. -/

namespace Utf8

/-- The bytes of a code above ASCII: continuation bytes from the last to the first, as long as
the rest does not fit into the first byte.
-/
def escape (x mfb : Nat) (tail : Bytes) : Nat → Bytes
  | 0 => UInt8.ofNat ((254 - 2 * mfb) ||| x) :: tail
  | most + 1 =>
      if x ≤ mfb then UInt8.ofNat ((254 - 2 * mfb) ||| x) :: tail
      else escape (x >>> 6) (mfb >>> 1) (UInt8.ofNat (0x80 ||| (x &&& 0x3f)) :: tail) most

/-- `luaO_utf8esc` -/
def charBytes (x : Nat) : Bytes :=
  if x < 0x80 then [UInt8.ofNat x]
  else escape (x >>> 6) 0x1f [UInt8.ofNat (0x80 ||| (x &&& 0x3f))] 5

/-- `utf8.char` for one code; a code that is out of range makes it raise an error. -/
def charOf (code : Int) : Option Bytes :=
  if 0 ≤ code ∧ code ≤ 0x7fffffff then some (charBytes code.toNat) else none

/-- `utf8.char` -/
def char (codes : List Int) : Option Bytes := (codes.mapM charOf).map List.flatten

/-- The continuation bytes of a sequence: the shifted first byte, their number and their bits. -/
def continuation : Nat → Nat → Nat → Nat → Bytes → Option (Nat × Nat × Nat × Bytes)
  | 0, _, _, _, _ => none
  | most + 1, c, count, res, text =>
      if c &&& 0x40 = 0 then some (c, count, res, text)
      else
        match text with
        | [] => none
        | cc :: text =>
            if cc &&& 0xc0 = 0x80 then
              continuation most (c <<< 1) (count + 1) (res <<< 6 ||| (cc &&& 0x3f).toNat) text
            else none

/-- The least code for a number of continuation bytes. -/
def limits : List Nat := [0xffffffff, 0x80, 0x800, 0x10000, 0x200000, 0x4000000]

/-- `utf8_decode`, strictly. -/
def decode : Bytes → Option (Nat × Bytes)
  | [] => none
  | c :: text =>
      if c < 0x80 then some (c.toNat, text)
      else
        match continuation 8 c.toNat 0 0 text with
        | none => none
        | some (c, count, res, text) =>
            let res := res ||| ((c &&& 0x7f) <<< (count * 5))
            if 5 < count ∨ 0x7fffffff < res ∨ res < limits.getD count 0 then none
            else if 0x10ffff < res ∨ (0xd800 ≤ res ∧ res ≤ 0xdfff) then none
            else some (res, text)

/-- The codes of a text that takes at most some number of sequences. -/
def codesOf : Nat → Bytes → Option (List Int)
  | _, [] => some []
  | 0, _ => none
  | most + 1, text =>
      match decode text with
      | none => none
      | some (code, text) => (codesOf most text).map (Int.ofNat code :: ·)

/-- `utf8.codepoint(text, 1, -1)`; a text that is not valid makes it raise an error. -/
def codepoint (text : Bytes) : Option (List Int) := codesOf text.length text

end Utf8
