import Mathlib.Logic.Function.Basic

/-! A table with weak values, over the heap that holds its objects. An object is shared by
its address: whoever holds the address sees every change that is made to the object.
-/

/-- A table with weak values: its entries are addresses on a heap. -/
structure WeakTable (Key Object : Type) where
  entries : Key → Option Nat
  heap : Nat → Object
  next : Nat

namespace WeakTable

variable {Key Object : Type}

/-- A table without entries, on a heap of blank objects of which none is in use. -/
def empty (blank : Object) : WeakTable Key Object :=
  { entries := fun _ => none, heap := fun _ => blank, next := 0 }

/-- Change the object at an address. -/
def modify (table : WeakTable Key Object) (address : Nat) (change : Object → Object)
    : WeakTable Key Object :=
  { table with heap := Function.update table.heap address (change (table.heap address)) }

/-- Put a new object on the heap. -/
def alloc (table : WeakTable Key Object) (object : Object) : WeakTable Key Object :=
  { table with
    heap := Function.update table.heap table.next object
    next := table.next + 1 }

section Updates

variable [DecidableEq Key]

/-- Set the entry of a key, or take it away. -/
def assign (table : WeakTable Key Object) (key : Key) (entry : Option Nat)
    : WeakTable Key Object :=
  { table with entries := Function.update table.entries key entry }

/-- The object under a key; where there is none yet, a new one is made. -/
def intern (table : WeakTable Key Object) (key : Key) (object : Object)
    : WeakTable Key Object × Nat :=
  match table.entries key with
  | some address => (table, address)
  | none => ((table.alloc object).assign key (some table.next), table.next)

end Updates

/-- What the collector may do: entries go away whose objects nobody else refers to. -/
structure Collects (referenced : Nat → Prop) (before after : WeakTable Key Object) : Prop where
  heap : after.heap = before.heap
  next : after.next = before.next
  stays : ∀ key address, before.entries key = some address → referenced address →
    after.entries key = some address
  comes : ∀ key address, after.entries key = some address → before.entries key = some address

/-- Every entry stands under the key of its object, and its object is in use. -/
def Keyed (keyOf : Object → Key) (table : WeakTable Key Object) : Prop :=
  ∀ key address, table.entries key = some address →
    keyOf (table.heap address) = key ∧ address < table.next

variable {keyOf : Object → Key} {table : WeakTable Key Object}

@[simp] theorem entries_modify (address : Nat) (change : Object → Object)
    : (table.modify address change).entries = table.entries :=
  rfl

@[simp] theorem heap_modify_self (address : Nat) (change : Object → Object)
    : (table.modify address change).heap address = change (table.heap address) :=
  Function.update_self ..

/-- A change leaves the other objects as they are. -/
theorem heap_modify_of_ne {address other : Nat} (isOther : other ≠ address)
    (change : Object → Object)
    : (table.modify address change).heap other = table.heap other :=
  Function.update_of_ne isOther ..

/-- An empty table is keyed. -/
theorem keyed_empty (blank : Object) : (empty blank : WeakTable Key Object).Keyed keyOf := by
  intro key address isEntry
  cases isEntry

/-- An object has one key. -/
theorem Keyed.key_unique (keyed : table.Keyed keyOf) {key key' : Key} {address : Nat}
    (isEntry : table.entries key = some address) (isEntry' : table.entries key' = some address)
    : key = key' :=
  (keyed key address isEntry).1.symm.trans (keyed key' address isEntry').1

/-- A change that keeps the key of an object keeps the table keyed. -/
theorem Keyed.modify (keyed : table.Keyed keyOf) {address : Nat} {change : Object → Object}
    (keepsKey : keyOf (change (table.heap address)) = keyOf (table.heap address))
    : (table.modify address change).Keyed keyOf := by
  intro key other isEntry
  obtain ⟨itsKey, inUse⟩ := keyed key other isEntry
  refine ⟨?_, inUse⟩
  by_cases same : other = address
  · subst same
    rw [heap_modify_self, keepsKey, itsKey]
  · rw [heap_modify_of_ne same, itsKey]

@[simp] theorem entries_alloc (object : Object) : (table.alloc object).entries = table.entries :=
  rfl

@[simp] theorem heap_alloc_next (object : Object)
    : (table.alloc object).heap table.next = object :=
  Function.update_self ..

/-- A new object leaves the objects that are in use as they are. -/
theorem heap_alloc_of_lt {address : Nat} (inUse : address < table.next) (object : Object)
    : (table.alloc object).heap address = table.heap address :=
  Function.update_of_ne (Nat.ne_of_lt inUse) ..

/-- A new object without an entry keeps the table keyed. -/
theorem Keyed.alloc (keyed : table.Keyed keyOf) (object : Object)
    : (table.alloc object).Keyed keyOf := by
  intro key address isEntry
  obtain ⟨itsKey, inUse⟩ := keyed key address isEntry
  exact ⟨by rw [heap_alloc_of_lt inUse, itsKey], Nat.lt_succ_of_lt inUse⟩

/-- What the collector leaves is keyed. -/
theorem Keyed.collects (keyed : table.Keyed keyOf) {referenced : Nat → Prop}
    {after : WeakTable Key Object} (collects : Collects referenced table after)
    : after.Keyed keyOf := by
  intro key address isEntry
  rw [collects.heap, collects.next]
  exact keyed key address (collects.comes key address isEntry)

section Updates

variable [DecidableEq Key]

@[simp] theorem heap_assign (key : Key) (entry : Option Nat)
    : (table.assign key entry).heap = table.heap :=
  rfl

@[simp] theorem entries_assign_self (key : Key) (entry : Option Nat)
    : (table.assign key entry).entries key = entry :=
  Function.update_self ..

/-- Setting an entry leaves the entries of the other keys. -/
theorem entries_assign_of_ne {key other : Key} (isOther : other ≠ key) (entry : Option Nat)
    : (table.assign key entry).entries other = table.entries other :=
  Function.update_of_ne isOther ..

/-- Taking an entry away keeps the table keyed. -/
theorem Keyed.remove (keyed : table.Keyed keyOf) (key : Key)
    : (table.assign key none).Keyed keyOf := by
  apply (Function.forall_update_iff table.entries (fun key entry => ∀ address,
    entry = some address → keyOf (table.heap address) = key ∧ address < table.next)).mpr
  exact ⟨by rintro _ ⟨⟩, fun other _ => keyed other⟩

/-- Setting the entry of a key to an object with that key keeps the table keyed. -/
theorem Keyed.put (keyed : table.Keyed keyOf) {key : Key} {address : Nat}
    (itsKey : keyOf (table.heap address) = key) (inUse : address < table.next)
    : (table.assign key (some address)).Keyed keyOf := by
  apply (Function.forall_update_iff table.entries (fun key entry => ∀ address,
    entry = some address → keyOf (table.heap address) = key ∧ address < table.next)).mpr
  refine ⟨?_, fun other _ => keyed other⟩
  rintro _ ⟨⟩
  exact ⟨itsKey, inUse⟩

/-- An object that is there is the one that is found. -/
theorem intern_of_some {key : Key} {object : Object} {address : Nat}
    (isEntry : table.entries key = some address)
    : table.intern key object = (table, address) := by
  simp only [intern, isEntry]

/-- Where there is no object yet, a new one is made. -/
theorem intern_of_none {key : Key} (object : Object) (isFree : table.entries key = none)
    : table.intern key object
      = ((table.alloc object).assign key (some table.next), table.next) := by
  simp only [intern, isFree]

/-- The entry that was asked for is there. -/
@[simp] theorem entries_intern_self (table : WeakTable Key Object) (key : Key) (object : Object)
    : (table.intern key object).1.entries key = some (table.intern key object).2 := by
  cases isEntry : table.entries key with
  | some address => rw [intern_of_some isEntry, isEntry]
  | none => rw [intern_of_none object isEntry, entries_assign_self]

/-- The entries that were there stay. -/
theorem entries_intern_of_some {key key' : Key} {object : Object} {address : Nat}
    (isEntry : table.entries key' = some address)
    : (table.intern key object).1.entries key' = some address := by
  cases found : table.entries key with
  | some other => rw [intern_of_some found, isEntry]
  | none =>
      have isOther : key' ≠ key := by
        rintro rfl
        rw [isEntry] at found
        cases found
      rw [intern_of_none object found, entries_assign_of_ne isOther, entries_alloc, isEntry]

/-- A new object goes under its own key, by cases on whether one was there. -/
theorem Keyed.intern (keyed : table.Keyed keyOf) {key : Key} {object : Object}
    (itsKey : keyOf object = key)
    : (table.intern key object).1.Keyed keyOf := by
  cases found : table.entries key with
  | some there => rwa [intern_of_some found]
  | none =>
      rw [intern_of_none object found]
      exact (keyed.alloc object).put (by rw [heap_alloc_next, itsKey]) (Nat.lt_succ_self _)

/-- A change of an object that moves its entry to the key that it has now keeps the table
keyed: no other key has the object.
-/
theorem Keyed.rekey (keyed : table.Keyed keyOf) {old new : Key} {address : Nat}
    {change : Object → Object} (isEntry : table.entries old = some address)
    (itsKey : keyOf (change (table.heap address)) = new)
    : (((table.modify address change).assign old none).assign new (some address)).Keyed
      keyOf := by
  refine Keyed.put ?_ (by rw [heap_assign, heap_modify_self, itsKey])
    (keyed old address isEntry).2
  intro key other holds
  by_cases isOld : key = old
  · subst isOld
    rw [entries_assign_self] at holds
    cases holds
  · rw [entries_assign_of_ne isOld] at holds
    have unchanged : other ≠ address := by
      rintro rfl
      exact isOld (keyed.key_unique holds isEntry)
    rw [heap_assign, heap_modify_of_ne unchanged]
    exact keyed key other holds

end Updates

end WeakTable
