import Mathlib.Logic.Function.Basic
import Snowcone.Foundations.Loops

/-! The bounded history with keys: a ring of slots and an index from keys to slots.
Lua tables are functions to optional values; slots count from one.
-/

namespace Snowcone.Components

open Function WhileLoop

variable {K V : Type} [DecidableEq K]

/-- The fields of an `OrderedMap`. -/
structure OrderedMap (K V : Type) where
  index : K → Option Nat
  keys : Nat → Option K
  vals : Nat → Option V
  n : Nat
  max : Nat
  ticker : Nat
  keyfn : Option (K → K)
  predicate : Option (V → Bool)

namespace OrderedMap

/-- The constructor, with the predicate that a buffer may set afterwards. -/
def new (n : Nat) (keyfn : Option (K → K)) (predicate : Option (V → Bool))
    : OrderedMap K V where
  index := fun _ => none
  keys := fun _ => none
  vals := fun _ => none
  n := 0
  max := n
  ticker := 0
  keyfn := keyfn
  predicate := predicate

/-- The key under which the index knows `key`. -/
def norm (m : OrderedMap K V) (key : K) : K :=
  match m.keyfn with
  | some f => f key
  | none => key

def setindex (m : OrderedMap K V) (key : K) (i : Option Nat) : OrderedMap K V :=
  { m with index := update m.index (m.norm key) i }

def getindex (m : OrderedMap K V) : Option K → Option Nat
  | none => none
  | some key => m.index (m.norm key)

/-- Overwriting an old entry removes it from the index if needed. -/
def overwrite (m : OrderedMap K V) (i : Nat) : OrderedMap K V :=
  match m.keys i with
  | some old => if m.getindex (some old) = some i then m.setindex old none else m
  | none => m

/-- Remember a new entry's index, if it has a key. -/
def remember (m : OrderedMap K V) (key : Option K) (i : Nat) : OrderedMap K V :=
  match key with
  | some key => m.setindex key (some i)
  | none => m

def insert (m : OrderedMap K V) (key : Option K) (val : V) : OrderedMap K V :=
  let i := m.n % m.max + 1
  let m := (({ m with n := m.n + 1 } : OrderedMap K V).overwrite i).remember key i
  let m := { m with keys := update m.keys i key, vals := update m.vals i (some val) }
  match m.predicate with
  | none => { m with ticker := m.ticker + 1 }
  | some p => if p val then { m with ticker := m.ticker + 1 } else m

def lookup (m : OrderedMap K V) (key : Option K) : Option V :=
  (m.getindex key).bind m.vals

def rekey (m : OrderedMap K V) (old : Option K) (new : K) : OrderedMap K V :=
  match old, m.getindex old with
  | some old, some i =>
      let m := m.setindex old none
      let m := { m with keys := update m.keys i (some new) }
      m.setindex new (some i)
  | _, _ => m

def getOldest (m : OrderedMap K V) : Option V :=
  if m.n ≤ m.max then m.vals 1 else m.vals (m.n % m.max + 1)

/-- One call of a generator by a `for` loop, which ends at the first value that is nil. The
generator counts `i` up to the number of entries and reads the slot `slot i`.
-/
def genRound (m : OrderedMap K V) (slot : Nat → Nat) (s : Nat × List (V × Option K))
    : Round (Nat × List (V × Option K)) (List (V × Option K)) :=
  let (i, seen) := s
  if i < min m.n m.max then
    match m.vals (slot i) with
    | some val => .again (i + 1, seen ++ [(val, m.keys (slot i))])
    | none => .leave seen
  else .leave seen

/-- What a `for` loop over the generator sees. -/
def enumerate (m : OrderedMap K V) (slot : Nat → Nat) (start : Nat)
    : Option (List (V × Option K)) :=
  run (m.genRound slot) (m.n + 1) (start, [])

/-- What a loop over `each(offset)` sees. -/
def each (m : OrderedMap K V) (offset : Option Nat) : Option (List (V × Option K)) :=
  m.enumerate (fun i => (m.n - (i + 1)) % m.max + 1) (offset.getD 0)

/-- What a loop over `reveach()` sees. -/
def reveach (m : OrderedMap K V) : Option (List (V × Option K)) :=
  m.enumerate (fun i => (m.n + i) % min m.n m.max + 1) 0

end OrderedMap

/-- An entry; `id` counts the insertions before it. -/
structure Entry (K V : Type) where
  id : Nat
  key : Option K
  val : V

/-- A history: its newest entries, newest first, and the entries that keys are bound to. -/
structure History (K V : Type) where
  inserted : Nat
  entries : List (Entry K V)
  bound : K → Option Nat

namespace History

/-- The history before any insertion. -/
def empty : History K V := { inserted := 0, entries := [], bound := fun _ => none }

/-- Forgetting an entry unbinds its key, if that is still bound to it. -/
def unbind (norm : K → K) (bound : K → Option Nat) (entry : Entry K V) : K → Option Nat :=
  match entry.key with
  | some key => if bound (norm key) = some entry.id then update bound (norm key) none else bound
  | none => bound

/-- Bind a key, if there is one. -/
def bind (norm : K → K) (bound : K → Option Nat) (key : Option K) (id : Nat)
    : K → Option Nat :=
  match key with
  | some key => update bound (norm key) (some id)
  | none => bound

/-- A new entry in front; beyond `max` entries the oldest is forgotten. -/
def insert (max : Nat) (norm : K → K) (h : History K V) (key : Option K) (val : V)
    : History K V where
  inserted := h.inserted + 1
  entries := { id := h.inserted, key, val } :: h.entries.take (max - 1)
  bound := bind norm ((h.entries.drop (max - 1)).foldl (unbind norm) h.bound) key h.inserted

/-- Bind another key to the entry a key is bound to. -/
def rekey (norm : K → K) (h : History K V) (old : Option K) (new : K) : History K V :=
  match old with
  | none => h
  | some old =>
      match h.bound (norm old) with
      | none => h
      | some id =>
          { h with
            entries := h.entries.map (fun e => if e.id = id then { e with key := some new } else e)
            bound := update (update h.bound (norm old) none) (norm new) (some id) }

/-- The value a key is bound to. -/
def lookup (norm : K → K) (h : History K V) (key : Option K) : Option V := do
  let key ← key
  let id ← h.bound (norm key)
  let entry ← h.entries.find? (fun entry => entry.id = id)
  pure entry.val

end History

end Snowcone.Components
