import Snowcone.Foundations.Bytes

/-! Values of Lua: tables are written out or live in a heap, and have no metatables. -/

namespace Lua

open Bytes

/-- The key of a table entry; `other` is one that is neither a string nor an integer, known by
a number and by the text that it has in a concatenation, where it has one.
-/
inductive Key where
  | string (text : Bytes)
  | integer (n : Int)
  | other (text : Option Bytes) (number : Nat)
deriving DecidableEq

/-- A value other than `nil`; a float is known by its text. -/
inductive Value where
  | boolean (b : Bool)
  | integer (n : Int)
  | float (text : Bytes)
  | string (text : Bytes)
  /-- A table that is written out and never changed. -/
  | table (entries : List (Key × Value))
  /-- A table of the heap. -/
  | reference (address : Nat)
  | function
  | userdata
  | thread

/-- The tables of a heap. -/
abbrev Heap := Nat → List (Key × Value)

/-- The key that a string literal is. -/
def key (name : String) : Key := .string (lit name)

/-- `type`; an absent value is `nil`. -/
def typeName : Option Value → Bytes
  | none => lit "nil"
  | some (.boolean _) => lit "boolean"
  | some (.integer _) | some (.float _) => lit "number"
  | some (.string _) => lit "string"
  | some (.table _) | some (.reference _) => lit "table"
  | some .function => lit "function"
  | some .userdata => lit "userdata"
  | some .thread => lit "thread"

/-- What counts as true in a condition. -/
def truthy : Option Value → Bool
  | none => false
  | some (.boolean b) => b
  | some _ => true

/-- The text of a key in a concatenation. -/
def Key.text : Key → Option Bytes
  | .string text => some text
  | .integer n => some (lit (toString n))
  | .other text _ => text

section Tables

variable (heap : Heap)

/-- The entries of a table, in the order of `pairs`; no other value has any. -/
def entries? : Value → Option (List (Key × Value))
  | .table entries => some entries
  | .reference address => some (heap address)
  | _ => none

/-- The value at a key, among the entries of a table. -/
def get (entries : List (Key × Value)) (key : Key) : Option Value :=
  (entries.find? (fun entry => entry.1 == key)).map (·.2)

/-- `value[key]`; strings have methods, which are none of the keys here. -/
def index (value : Value) (key : Key) : Except Bytes (Option Value) :=
  match entries? heap value, value with
  | some entries, _ => .ok (get entries key)
  | none, .string _ => .ok none
  | none, _ => .error (lit "attempt to index a " ++ typeName (some value) ++ lit " value")

/-- The values at consecutive integers, at most as many as there are entries. -/
def sequenceFrom (entries : List (Key × Value)) (i : Int) : Nat → List Value
  | 0 => []
  | most + 1 =>
      match get entries (.integer i) with
      | none => []
      | some value => value :: sequenceFrom entries (i + 1) most

/-- What `ipairs` goes through: the values at one, two, and so on, up to the first absent. -/
def sequence (entries : List (Key × Value)) : List Value :=
  sequenceFrom entries 1 entries.length

/-- `ipairs`; values that cannot be indexed make the loop raise an error. -/
def ipairs (value : Value) : Except Bytes (List Value) :=
  match entries? heap value, value with
  | some entries, _ => .ok (sequence entries)
  | none, .string _ => .ok []
  | none, _ => .error (lit "attempt to index a " ++ typeName (some value) ++ lit " value")

/-- `pairs`. -/
def pairs (value : Value) : Except Bytes (List (Key × Value)) :=
  match entries? heap value with
  | some entries => .ok entries
  | none =>
      .error (lit "bad argument #1 to 'for iterator' (table expected, got "
        ++ typeName (some value) ++ lit ")")

end Tables

end Lua
