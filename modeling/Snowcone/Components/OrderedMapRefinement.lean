import Mathlib.Data.List.Induction
import Snowcone.Components.OrderedMap

/-! The ring and its index represent a history.
An entry's slot is its number modulo the capacity, so the live entries have distinct slots
and a new entry takes the slot of the one it evicts.
-/

namespace Snowcone.Components

open Function WhileLoop

variable {K V : Type}

/-- The slot of the entry with number `id`. -/
def slot (max id : Nat) : Nat := id % max + 1

/-- Entries less than a whole round apart have different slots. -/
theorem slot_ne {max id other : Nat} (later : other < id) (near : id < other + max)
    : slot max other ≠ slot max id := by
  intro same
  have congruent : id % max = other % max := (Nat.add_right_cancel same).symm
  have multiple := Nat.sub_mod_eq_zero_of_mod_eq congruent
  rw [Nat.mod_eq_of_lt (by omega)] at multiple
  omega

/-- A whole round later comes the same slot. -/
theorem slot_sub {max id : Nat} (full : max ≤ id) : slot max (id - max) = slot max id := by
  rw [slot, slot, ← Nat.mod_eq_sub_mod full]

/-- The `i`th newest entry of a history stands in its slot. -/
structure Stored (m : OrderedMap K V) (i : Nat) (entry : Entry K V) : Prop where
  id : entry.id + 1 + i = m.n
  key : m.keys (slot m.max entry.id) = entry.key
  val : m.vals (slot m.max entry.id) = some entry.val

/-- The ring and its index represent the history. -/
structure Represents (m : OrderedMap K V) (h : History K V) : Prop where
  inserted : h.inserted = m.n
  length : h.entries.length = min m.n m.max
  stored : ∀ i (inside : i < h.entries.length), Stored m i h.entries[i]
  unused : ∀ id, m.n ≤ id → id < m.max → m.keys (slot m.max id) = none
    ∧ m.vals (slot m.max id) = none
  index : ∀ key, m.index key = (h.bound key).map (slot m.max)
  live : ∀ key id, h.bound key = some id →
    ∃ entry ∈ h.entries, entry.id = id ∧ entry.key.map m.norm = some key

/-- Every entry of the history is stored. -/
theorem Represents.stored_mem {m : OrderedMap K V} {h : History K V} (rep : Represents m h)
    {entry : Entry K V} (member : entry ∈ h.entries)
    : ∃ i < h.entries.length, Stored m i entry := by
  obtain ⟨i, inside, rfl⟩ := List.mem_iff_getElem.mp member
  exact ⟨i, inside, rep.stored i inside⟩

/-- Live entries with the same slot are the same. -/
theorem Represents.id_eq_of_slot {m : OrderedMap K V} {h : History K V}
    (rep : Represents m h) {entry other : Entry K V} (member : entry ∈ h.entries)
    (member' : other ∈ h.entries) (same : slot m.max entry.id = slot m.max other.id)
    : entry.id = other.id := by
  obtain ⟨i, inside, stored⟩ := rep.stored_mem member
  obtain ⟨j, inside', stored'⟩ := rep.stored_mem member'
  have first := stored.id
  have second := stored'.id
  have length := rep.length
  rcases Nat.lt_trichotomy entry.id other.id with less | equal | greater
  · exact absurd same (slot_ne less (by omega))
  · exact equal
  · exact absurd same.symm (slot_ne greater (by omega))

/-- The number of an entry tells it apart. -/
theorem Represents.find_eq {m : OrderedMap K V} {h : History K V} (rep : Represents m h)
    {entry : Entry K V} (member : entry ∈ h.entries)
    : h.entries.find? (fun other => other.id = entry.id) = some entry := by
  obtain ⟨i, inside, rfl⟩ := List.mem_iff_getElem.mp member
  refine List.find?_eq_some_iff_getElem.mpr ⟨by simp, i, inside, rfl, ?_⟩
  intro j less
  have first := (rep.stored j (by omega)).id
  have second := (rep.stored i inside).id
  simp only [Bool.not_eq_true', decide_eq_false_iff_not]
  omega

/-- Entries with the same number are the same. -/
theorem Represents.eq_of_id {m : OrderedMap K V} {h : History K V} (rep : Represents m h)
    {entry other : Entry K V} (member : entry ∈ h.entries) (member' : other ∈ h.entries)
    (same : entry.id = other.id)
    : entry = other :=
  Option.some.inj ((rep.find_eq member).symm.trans (same ▸ rep.find_eq member'))

/-- At most one entry is evicted: the one whose slot the next entry takes. -/
theorem Represents.evicted {m : OrderedMap K V} {h : History K V} (rep : Represents m h)
    (positive : 0 < m.max)
    : (h.entries.drop (m.max - 1) = [] ∧ m.keys (slot m.max m.n) = none)
      ∨ ∃ entry ∈ h.entries,
          h.entries.drop (m.max - 1) = [entry]
          ∧ slot m.max entry.id = slot m.max m.n
          ∧ m.keys (slot m.max m.n) = entry.key := by
  have length := rep.length
  by_cases full : m.max ≤ m.n
  · have inside : m.max - 1 < h.entries.length := by omega
    have stored := rep.stored (m.max - 1) inside
    have place := stored.id
    have same := slot_sub full
    rw [show m.n - m.max = h.entries[m.max - 1].id by omega] at same
    refine Or.inr ⟨h.entries[m.max - 1], List.getElem_mem inside, ?_, same, same ▸ stored.key⟩
    rw [List.drop_eq_getElem_cons inside, List.drop_eq_nil_of_le (by omega)]
  · exact Or.inl ⟨List.drop_eq_nil_of_le (by omega), (rep.unused m.n (by omega) (by omega)).1⟩

-----------------------------------------------------------------------------------------
-- What the operations return
-----------------------------------------------------------------------------------------

/-- A key is looked up in the history. -/
theorem Represents.lookup {m : OrderedMap K V} {h : History K V} (rep : Represents m h)
    (key : Option K)
    : m.lookup key = h.lookup m.norm key := by
  cases key with
  | none => rfl
  | some key =>
      simp only [OrderedMap.lookup, OrderedMap.getindex, rep.index, History.lookup,
        Option.bind_eq_bind, Option.bind_some]
      cases bound : h.bound (m.norm key) with
      | none => rfl
      | some id =>
          obtain ⟨entry, member, rfl, _⟩ := rep.live _ id bound
          obtain ⟨i, _, stored⟩ := rep.stored_mem member
          simp only [Option.map_some, Option.bind_some, rep.find_eq member, stored.val]
          rfl

/-- What is looked up belongs to an entry that is still there, under the same key. -/
theorem Represents.lookup_sound {m : OrderedMap K V} {h : History K V}
    (rep : Represents m h) {key : Option K} {val : V} (found : m.lookup key = some val)
    : ∃ entry ∈ h.entries,
        entry.val = val ∧ key ≠ none ∧ entry.key.map m.norm = key.map m.norm := by
  cases key with
  | none => cases found
  | some key =>
      simp only [OrderedMap.lookup, OrderedMap.getindex, rep.index] at found
      cases bound : h.bound (m.norm key) with
      | none => simp [bound] at found
      | some id =>
          obtain ⟨entry, member, rfl, keyed⟩ := rep.live _ id bound
          obtain ⟨i, _, stored⟩ := rep.stored_mem member
          simp only [bound, Option.map_some, Option.bind_some, stored.val,
            Option.some.injEq] at found
          exact ⟨entry, member, found, by simp, keyed⟩

/-- A loop over a generator sees the entries from `start` on, if the generator's slots hold
them, by induction on how many are left.
-/
theorem OrderedMap.enumerate_eq {m : OrderedMap K V} {slot : Nat → Nat}
    {list : List (V × Option K)} (length : list.length = min m.n m.max)
    (slots : ∀ i (inside : i < list.length),
      m.vals (slot i) = some list[i].1 ∧ m.keys (slot i) = list[i].2)
    (start : Nat)
    : m.enumerate slot start = some (list.drop start) := by
  have runs : ∀ left i seen bound, list.length - i = left → left < bound →
      run (m.genRound slot) bound (i, seen) = some (seen ++ list.drop i) := by
    intro left
    induction left with
    | zero =>
        intro i seen bound none' enough
        obtain ⟨bound, rfl⟩ : ∃ less, bound = less + 1 := ⟨bound - 1, by omega⟩
        have past : ¬ i < min m.n m.max := by omega
        simp only [run, genRound, past, if_false]
        rw [List.drop_eq_nil_of_le (by omega), List.append_nil]
    | succ left ih =>
        intro i seen bound some' enough
        obtain ⟨bound, rfl⟩ : ∃ less, bound = less + 1 := ⟨bound - 1, by omega⟩
        have inside : i < list.length := by omega
        have more : i < min m.n m.max := by omega
        obtain ⟨val, key⟩ := slots i inside
        simp only [run, genRound, more, if_true, val, key]
        rw [ih (i + 1) _ bound (by omega) (by omega), List.drop_eq_getElem_cons inside,
          List.append_assoc]
        rfl
  have whole := runs (list.length - start) start [] (m.n + 1) rfl (by omega)
  rwa [List.nil_append] at whole

/-- What a loop sees of an entry. -/
def Entry.shown (entry : Entry K V) : V × Option K := (entry.val, entry.key)

/-- `each(offset)` enumerates the entries newest first and skips the `offset` newest. -/
theorem Represents.each {m : OrderedMap K V} {h : History K V} (rep : Represents m h)
    (offset : Option Nat)
    : m.each offset = some ((h.entries.map Entry.shown).drop (offset.getD 0)) := by
  refine OrderedMap.enumerate_eq (by rw [List.length_map, rep.length]) ?_ _
  intro i inside
  have inside' : i < h.entries.length := by simpa using inside
  have stored := rep.stored i inside'
  have place := stored.id
  rw [List.getElem_map, show m.n - (i + 1) = h.entries[i].id by omega]
  exact ⟨stored.val, stored.key⟩

/-- Counting on from the number of insertions reaches the oldest entry's slot. -/
theorem slot_oldest {max n i : Nat} (inside : i < min n max)
    : (n + i) % min n max + 1 = slot max (n - min n max + i) := by
  rw [slot]
  by_cases full : n ≤ max
  · rw [Nat.min_eq_left full, Nat.add_mod_left, Nat.sub_self, Nat.zero_add,
      Nat.mod_eq_of_lt (by omega), Nat.mod_eq_of_lt (by omega)]
  · rw [Nat.min_eq_right (by omega), show n + i = n - max + i + max by omega,
      Nat.add_mod_right]

/-- `reveach()` enumerates the entries oldest first. -/
theorem Represents.reveach {m : OrderedMap K V} {h : History K V} (rep : Represents m h)
    : m.reveach = some (h.entries.map Entry.shown).reverse := by
  have length := rep.length
  change m.enumerate _ 0 = some ((h.entries.map Entry.shown).reverse.drop 0)
  refine OrderedMap.enumerate_eq ?_ ?_ 0
  · rw [List.length_reverse, List.length_map, length]
  intro i inside
  rw [List.length_reverse, List.length_map] at inside
  have inside' : h.entries.length - 1 - i < h.entries.length := by omega
  have stored := rep.stored (h.entries.length - 1 - i) inside'
  have place := stored.id
  rw [slot_oldest (by omega), List.getElem_reverse, List.getElem_map]
  simp only [List.length_map]
  rw [show m.n - min m.n m.max + i = h.entries[h.entries.length - 1 - i].id by omega]
  exact ⟨stored.val, stored.key⟩

/-- `get_oldest()` returns the value of the last entry. -/
theorem Represents.getOldest {m : OrderedMap K V} {h : History K V} (rep : Represents m h)
    (positive : 0 < m.max)
    : m.getOldest = h.entries.getLast?.map Entry.val := by
  have length := rep.length
  rw [OrderedMap.getOldest, List.getLast?_eq_getElem?]
  by_cases none' : m.n = 0
  · have unused := (rep.unused 0 (by omega) positive).2
    rw [if_pos (by omega), List.getElem?_eq_none (by omega)]
    exact unused
  · have inside : h.entries.length - 1 < h.entries.length := by omega
    have stored := rep.stored (h.entries.length - 1) inside
    have place := stored.id
    rw [List.getElem?_eq_getElem inside, Option.map_some, ← stored.val]
    split
    · rw [show h.entries[h.entries.length - 1].id = 0 by omega]
      rfl
    · have same : slot m.max h.entries[h.entries.length - 1].id = slot m.max m.n := by
        rw [show h.entries[h.entries.length - 1].id = m.n - m.max by omega,
          slot_sub (by omega)]
      rw [same]
      rfl

-----------------------------------------------------------------------------------------
-- The operations keep the representation
-----------------------------------------------------------------------------------------

/-- A new map represents the empty history. -/
theorem new_represents (max : Nat) (keyfn : Option (K → K)) (predicate : Option (V → Bool))
    : Represents (.new max keyfn predicate : OrderedMap K V) .empty where
  inserted := rfl
  length := (Nat.zero_min max).symm
  stored := fun i inside => absurd inside (Nat.not_lt_zero i)
  unused := fun _ _ _ => ⟨rfl, rfl⟩
  index := fun _ => rfl
  live := fun _ _ bound => by cases bound

variable [DecidableEq K]

/-- What an insertion changes. -/
structure Inserted (m m' : OrderedMap K V) (key : Option K) (val : V) : Prop where
  n : m'.n = m.n + 1
  max : m'.max = m.max
  keyfn : m'.keyfn = m.keyfn
  keys : m'.keys = update m.keys (slot m.max m.n) key
  vals : m'.vals = update m.vals (slot m.max m.n) (some val)
  index
    : m'.index = ((m.overwrite (slot m.max m.n)).remember key (slot m.max m.n)).index

/-- Overwriting changes the index only, whatever the counter is. -/
theorem OrderedMap.overwrite_eq (m : OrderedMap K V) (n i : Nat)
    : ({ m with n } : OrderedMap K V).overwrite i
      = { m with n, index := (m.overwrite i).index } := by
  simp only [overwrite]
  cases m.keys i with
  | none => rfl
  | some old =>
      change (if m.getindex (some old) = some i then _ else _) = _
      by_cases current : m.getindex (some old) = some i
      · simp only [current, if_true]
        rfl
      · simp only [current, if_false]

/-- An insertion changes the index, one slot and the counters. -/
theorem OrderedMap.insert_inserted (m : OrderedMap K V) (key : Option K) (val : V)
    : Inserted m (m.insert key val) key val := by
  have same : ∀ index,
      (({ m with n := m.n + 1, index } : OrderedMap K V).remember key (slot m.max m.n)).index
      = (({ m with index } : OrderedMap K V).remember key (slot m.max m.n)).index := by
    cases key <;> exact fun _ => rfl
  have rest : ∀ m' : OrderedMap K V, m'.remember key (slot m.max m.n)
      = { m' with index := (m'.remember key (slot m.max m.n)).index } := by
    cases key <;> exact fun _ => rfl
  have whole : m.overwrite (slot m.max m.n)
      = { m with index := (m.overwrite (slot m.max m.n)).index } :=
    m.overwrite_eq m.n _
  have step := m.overwrite_eq (m.n + 1) (slot m.max m.n)
  simp only [insert]
  rw [show m.n % m.max + 1 = slot m.max m.n from rfl, step, rest, same, ← whole]
  cases m.predicate with
  | none => exact ⟨rfl, rfl, rfl, rfl, rfl, rfl⟩
  | some p =>
      by_cases counted : p val
      · simp only [counted, if_true]
        exact ⟨rfl, rfl, rfl, rfl, rfl, rfl⟩
      · simp only [counted]
        exact ⟨rfl, rfl, rfl, rfl, rfl, rfl⟩

/-- The evicted entry's key leaves the index as it leaves the history. -/
theorem Represents.overwrite {m : OrderedMap K V} {h : History K V} (rep : Represents m h)
    (positive : 0 < m.max) (key : K)
    : (m.overwrite (slot m.max m.n)).index key
      = ((h.entries.drop (m.max - 1)).foldl (History.unbind m.norm) h.bound key).map
        (slot m.max) := by
  rcases rep.evicted positive with ⟨none', unused⟩ | ⟨entry, member, only, place, stored⟩
  · simp only [OrderedMap.overwrite, unused, none', List.foldl_nil, rep.index]
  · simp only [OrderedMap.overwrite, stored, only, List.foldl_cons, List.foldl_nil,
      History.unbind]
    cases entry.key with
    | none => exact rep.index key
    | some old =>
        have current : m.getindex (some old) = some (slot m.max m.n)
            ↔ h.bound (m.norm old) = some entry.id := by
          simp only [OrderedMap.getindex, rep.index, ← place]
          constructor
          · intro found
            obtain ⟨id, bound, same⟩ := Option.map_eq_some_iff.mp found
            obtain ⟨other, member', rfl, _⟩ := rep.live _ id bound
            rw [bound, rep.id_eq_of_slot member' member same]
          · intro bound
            rw [bound]
            rfl
        by_cases bound : h.bound (m.norm old) = some entry.id
        · simp only [current.mpr bound, bound, if_true, OrderedMap.setindex]
          by_cases same : key = m.norm old
          · subst same
            simp
          · rw [update_of_ne same, update_of_ne same, rep.index]
        · simp only [mt current.mp bound, bound, if_false, rep.index]

/-- A binding that outlives an eviction is to an entry that does.
Witness: an evicted entry that a key is bound to is bound to that key only, and unbound.
-/
theorem Represents.kept {m : OrderedMap K V} {h : History K V} (rep : Represents m h)
    (positive : 0 < m.max) {key : K} {id : Nat}
    (bound : (h.entries.drop (m.max - 1)).foldl (History.unbind m.norm) h.bound key = some id)
    : ∃ entry ∈ h.entries.take (m.max - 1),
        entry.id = id ∧ entry.key.map m.norm = some key := by
  rcases rep.evicted positive with ⟨none', _⟩ | ⟨evicted, member, only, _, _⟩
  · rw [none', List.foldl_nil] at bound
    obtain ⟨entry, member, found⟩ := rep.live key id bound
    rw [← List.take_append_drop (m.max - 1) h.entries, none', List.append_nil] at member
    exact ⟨entry, member, found⟩
  · rw [only, List.foldl_cons, List.foldl_nil] at bound
    have before : h.bound key = some id
        ∧ ¬ (h.bound key = some evicted.id ∧ evicted.key.map m.norm = some key) := by
      cases stored : evicted.key with
      | none =>
          simp only [History.unbind, stored] at bound
          simp [bound]
      | some old =>
          simp only [History.unbind, stored] at bound
          split at bound
          · by_cases same : key = m.norm old
            · subst same
              simp at bound
            · rw [update_of_ne same] at bound
              simp [bound, Ne.symm same]
          · next stale =>
            refine ⟨bound, fun both => stale ?_⟩
            exact Option.some.inj both.2 ▸ both.1
    obtain ⟨entry, member', rfl, keyed⟩ := rep.live key id before.1
    rw [← List.take_append_drop (m.max - 1) h.entries, only, List.mem_append] at member'
    rcases member' with kept | last
    · exact ⟨entry, kept, rfl, keyed⟩
    · obtain rfl := List.mem_singleton.mp last
      exact absurd ⟨before.1, keyed⟩ before.2

/-- Insertion keeps the representation. -/
theorem Represents.insert {m : OrderedMap K V} {h : History K V} (rep : Represents m h)
    (positive : 0 < m.max) (key : Option K) (val : V)
    : Represents (m.insert key val) (h.insert m.max m.norm key val) := by
  have step := m.insert_inserted key val
  generalize m.insert key val = m' at step
  have norm : m'.norm = m.norm := by
    funext key
    simp only [OrderedMap.norm, step.keyfn]
  have length := rep.length
  constructor
  case inserted => rw [step.n, History.insert, rep.inserted]
  case length =>
    rw [step.n, step.max]
    simp only [History.insert, List.length_cons, List.length_take]
    omega
  case stored =>
    intro i inside
    cases i with
    | zero =>
        simp only [History.insert, List.getElem_cons_zero]
        exact {
          id := by simp only [step.n, rep.inserted, Nat.add_zero]
          key := by simp only [step.keys, step.max, rep.inserted, update_self]
          val := by simp only [step.vals, step.max, rep.inserted, update_self]
        }
    | succ i =>
        simp only [History.insert, List.length_cons, List.length_take] at inside
        simp only [History.insert, List.getElem_cons_succ, List.getElem_take]
        have stored := rep.stored i (by omega)
        have place := stored.id
        have apart : slot m.max h.entries[i].id ≠ slot m.max m.n :=
          slot_ne (by omega) (by omega)
        exact {
          id := by rw [step.n]; omega
          key := by rw [step.keys, step.max, update_of_ne apart, stored.key]
          val := by rw [step.vals, step.max, update_of_ne apart, stored.val]
        }
  case unused =>
    intro id later inside
    rw [step.n] at later
    rw [step.max] at inside ⊢
    have apart : slot m.max id ≠ slot m.max m.n := (slot_ne (by omega) (by omega)).symm
    rw [step.keys, step.vals, update_of_ne apart, update_of_ne apart]
    exact rep.unused id (by omega) inside
  case index =>
    intro wanted
    have evicted := rep.overwrite positive
    rw [step.index, step.max]
    cases key with
    | none => exact evicted wanted
    | some key =>
        have same : (m.overwrite (slot m.max m.n)).norm key = m.norm key := by
          rw [show m.overwrite _ = _ from m.overwrite_eq m.n _]
          rfl
        simp only [OrderedMap.remember, OrderedMap.setindex, same, History.insert,
          History.bind]
        by_cases new : wanted = m.norm key
        · subst new
          simp [rep.inserted]
        · rw [update_of_ne new, update_of_ne new]
          exact evicted wanted
  case live =>
    intro wanted id bound
    have older : (h.entries.drop (m.max - 1)).foldl (History.unbind m.norm) h.bound wanted
        = some id →
        ∃ entry ∈ (h.insert m.max m.norm key val).entries,
          entry.id = id ∧ entry.key.map m'.norm = some wanted := by
      intro bound
      obtain ⟨entry, kept, found⟩ := rep.kept positive bound
      exact ⟨entry, List.mem_cons_of_mem _ kept, norm ▸ found⟩
    cases key with
    | none => exact older bound
    | some key =>
        simp only [History.insert, History.bind] at bound
        by_cases new : wanted = m.norm key
        · subst new
          rw [update_self, Option.some.injEq] at bound
          exact ⟨_, List.mem_cons_self, bound, by simp [norm]⟩
        · rw [update_of_ne new] at bound
          exact older bound

/-- Rekeying keeps the representation. -/
theorem Represents.rekey {m : OrderedMap K V} {h : History K V} (rep : Represents m h)
    (old : Option K) (new : K)
    : Represents (m.rekey old new) (h.rekey m.norm old new) := by
  cases old with
  | none => exact rep
  | some old =>
      cases bound : h.bound (m.norm old) with
      | none => simpa [OrderedMap.rekey, History.rekey, OrderedMap.getindex, rep.index, bound]
      | some id =>
          have found : m.getindex (some old) = some (slot m.max id) := by
            simp [OrderedMap.getindex, rep.index, bound]
          obtain ⟨renamed, member, rfl, keyed⟩ := rep.live _ id bound
          simp only [OrderedMap.rekey, found, History.rekey, bound]
          constructor
          case inserted => exact rep.inserted
          case length => exact (List.length_map _).trans rep.length
          case stored =>
            intro i inside
            simp only [List.getElem_map]
            have inside' : i < h.entries.length := by simpa using inside
            have stored := rep.stored i inside'
            by_cases same : h.entries[i].id = renamed.id
            · rw [rep.eq_of_id (List.getElem_mem inside') member same] at stored ⊢
              simp only [if_true]
              exact {
                id := stored.id
                key := by simp [OrderedMap.setindex]
                val := stored.val
              }
            · simp only [same, if_false]
              have apart : slot m.max h.entries[i].id ≠ slot m.max renamed.id :=
                fun equal => same (rep.id_eq_of_slot (List.getElem_mem inside') member equal)
              exact {
                id := stored.id
                key := by
                  simp only [OrderedMap.setindex]
                  rw [update_of_ne apart, stored.key]
                val := stored.val
              }
          case unused =>
            intro id later inside
            obtain ⟨i, inside', stored⟩ := rep.stored_mem member
            have place := stored.id
            simp only [OrderedMap.setindex] at later inside
            have apart : slot m.max id ≠ slot m.max renamed.id :=
              (slot_ne (by omega) (by omega)).symm
            simp only [OrderedMap.setindex]
            rw [update_of_ne apart]
            exact rep.unused id later inside
          case index =>
            intro key
            simp only [OrderedMap.setindex]
            change update (update m.index (m.norm old) none) (m.norm new) _ key = _
            by_cases bindsNew : key = m.norm new
            · subst bindsNew
              simp
            · rw [update_of_ne bindsNew, update_of_ne bindsNew]
              by_cases bindsOld : key = m.norm old
              · subst bindsOld
                simp
              · rw [update_of_ne bindsOld, update_of_ne bindsOld, rep.index]
          case live =>
            intro key id live
            dsimp only at live
            change ∃ entry ∈ List.map _ _, Entry.id entry = id ∧ entry.key.map m.norm = some key
            by_cases bindsNew : key = m.norm new
            · subst bindsNew
              rw [update_self, Option.some.injEq] at live
              exact ⟨_, List.mem_map_of_mem member, by simp [live]⟩
            · rw [update_of_ne bindsNew] at live
              by_cases bindsOld : key = m.norm old
              · subst bindsOld
                simp at live
              · rw [update_of_ne bindsOld] at live
                obtain ⟨entry, member', rfl, keyed'⟩ := rep.live key id live
                have other : entry.id ≠ renamed.id := by
                  intro same
                  rw [rep.eq_of_id member' member same, keyed] at keyed'
                  exact bindsOld (Option.some.inj keyed').symm
                refine ⟨_, List.mem_map_of_mem member', ?_⟩
                simp only [other, if_false, keyed', and_self]

-----------------------------------------------------------------------------------------
-- Runs
-----------------------------------------------------------------------------------------

/-- A change of the map. -/
inductive Change (K V : Type) where
  | insert (key : Option K) (val : V)
  | rekey (old : Option K) (new : K)

/-- The value a change inserts. -/
def Change.inserted : Change K V → Option V
  | .insert _ val => some val
  | .rekey _ _ => none

/-- A change of the ring and its index. -/
def OrderedMap.apply (m : OrderedMap K V) : Change K V → OrderedMap K V
  | .insert key val => m.insert key val
  | .rekey old new => m.rekey old new

/-- A change of the history. -/
def History.apply (max : Nat) (norm : K → K) (h : History K V) : Change K V → History K V
  | .insert key val => h.insert max norm key val
  | .rekey old new => h.rekey norm old new

/-- Rekeying changes neither the capacity nor the key function. -/
theorem OrderedMap.rekey_fields (m : OrderedMap K V) (old : Option K) (new : K)
    : (m.rekey old new).max = m.max ∧ (m.rekey old new).keyfn = m.keyfn := by
  simp only [rekey]
  split <;> exact ⟨rfl, rfl⟩

/-- Every change keeps the representation, and the capacity and the key function. -/
theorem Represents.apply {m : OrderedMap K V} {h : History K V} (rep : Represents m h)
    (positive : 0 < m.max) (change : Change K V)
    : Represents (m.apply change) (h.apply m.max m.norm change)
      ∧ (m.apply change).max = m.max
      ∧ (m.apply change).keyfn = m.keyfn := by
  cases change with
  | insert key val =>
      have step := m.insert_inserted key val
      exact ⟨rep.insert positive key val, step.max, step.keyfn⟩
  | rekey old new => exact ⟨rep.rekey old new, m.rekey_fields old new⟩

/-- A run keeps the representation, by induction on the changes. -/
theorem Represents.run {m : OrderedMap K V} {h : History K V} (rep : Represents m h)
    (positive : 0 < m.max) (changes : List (Change K V))
    : Represents (changes.foldl OrderedMap.apply m)
        (changes.foldl (History.apply m.max m.norm) h)
      ∧ (changes.foldl OrderedMap.apply m).max = m.max
      ∧ (changes.foldl OrderedMap.apply m).norm = m.norm := by
  induction changes generalizing m h with
  | nil => exact ⟨rep, rfl, rfl⟩
  | cons change changes ih =>
      obtain ⟨rep', max, keyfn⟩ := rep.apply positive change
      have norm : (m.apply change).norm = m.norm := by
        funext key
        simp only [OrderedMap.norm, keyfn]
      have later := ih rep' (max ▸ positive)
      rwa [max, norm] at later

/-- A history holds the values inserted last, by induction on the changes. -/
theorem History.vals_run (max : Nat) (positive : 0 < max) (norm : K → K)
    (changes : List (Change K V))
    : (changes.foldl (History.apply max norm) .empty).entries.map Entry.val
      = ((changes.filterMap Change.inserted).reverse).take max := by
  induction changes using List.reverseRecOn with
  | nil => simp [empty]
  | append_singleton changes change ih =>
      rw [List.foldl_append, List.foldl_cons, List.foldl_nil, List.filterMap_append,
        List.reverse_append]
      generalize changes.foldl (History.apply max norm) .empty = h at ih ⊢
      cases change with
      | insert key val =>
          obtain ⟨less, rfl⟩ : ∃ less, max = less + 1 := ⟨max - 1, by omega⟩
          simp only [apply, insert, List.map_cons, Nat.add_sub_cancel, List.map_take, ih,
            Change.inserted, List.filterMap_cons, List.filterMap_nil, List.reverse_singleton,
            List.singleton_append, List.take_succ_cons, List.take_take]
          rw [Nat.min_eq_left (Nat.le_succ less)]
      | rekey old new =>
          have same : (h.rekey norm old new).entries.map Entry.val
              = h.entries.map Entry.val := by
            cases old with
            | none => rfl
            | some old =>
                simp only [rekey]
                cases h.bound (norm old) with
                | none => rfl
                | some id =>
                    simp only [List.map_map]
                    refine List.map_congr_left fun entry _ => ?_
                    simp only [Function.comp_apply]
                    split <;> rfl
          rw [apply, same, ih]
          rfl

/-- Through every run of changes a new map is the history they make: what it looks up,
what its generators enumerate and its oldest value are the history's, and a lookup only
ever returns the value of a live entry with the same key.
-/
theorem orderedMap_refines_history (max : Nat) (positive : 0 < max) (keyfn : Option (K → K))
    (predicate : Option (V → Bool)) (changes : List (Change K V))
    : let m := changes.foldl OrderedMap.apply (.new max keyfn predicate)
      let norm := keyfn.getD id
      let h := changes.foldl (History.apply max norm) .empty
      h.entries.map Entry.val = ((changes.filterMap Change.inserted).reverse).take max
      ∧ (∀ key, m.lookup key = h.lookup norm key)
      ∧ (∀ offset,
          m.each offset = some ((h.entries.map Entry.shown).drop (offset.getD 0)))
      ∧ m.reveach = some (h.entries.map Entry.shown).reverse
      ∧ m.getOldest = h.entries.getLast?.map Entry.val
      ∧ (∀ key val, m.lookup key = some val →
          ∃ entry ∈ h.entries,
            entry.val = val ∧ key ≠ none ∧ entry.key.map norm = key.map norm) := by
  have start : (.new max keyfn predicate : OrderedMap K V).norm = keyfn.getD id := by
    funext key
    cases keyfn <;> rfl
  obtain ⟨rep, capacity, norm⟩ := (new_represents max keyfn predicate).run positive changes
  rw [start] at rep norm
  refine ⟨History.vals_run max positive _ changes, ?_, rep.each, rep.reveach,
    rep.getOldest (capacity ▸ positive), ?_⟩
  · exact norm ▸ rep.lookup
  · exact fun key val found => norm ▸ rep.lookup_sound found

/-- Two slots and three insertions, the second renamed: the first is evicted. -/
theorem orderedMap_refines_history_witness
    : ([.insert (some 1) 10, .insert (some 2) 20, .insert none 30, .rekey (some 2) 1].foldl
        OrderedMap.apply (.new 2 none none) : OrderedMap Nat Nat).reveach
      = some [(20, some 1), (30, none)] :=
  (orderedMap_refines_history (K := Nat) (V := Nat) 2 (by decide) none none _).2.2.2.1

end Snowcone.Components
