import Snowcone.Components.OrderedMapRefinement

/-! Entries of an ordered map that are changed in place, and what is looked up after a change.
-/

namespace Snowcone.Components

open Function

variable {K V : Type}

/-- Change the entry that `key` finds: its value is a table, which those who look it up share. -/
def OrderedMap.mutate (m : OrderedMap K V) (key : Option K) (change : V → V)
    : OrderedMap K V :=
  match m.getindex key with
  | none => m
  | some i => { m with vals := update m.vals i ((m.vals i).map change) }

/-- Change the value of the entry that a key is bound to. -/
def History.mutate (norm : K → K) (h : History K V) (key : Option K) (change : V → V)
    : History K V :=
  match key with
  | none => h
  | some key =>
      match h.bound (norm key) with
      | none => h
      | some id =>
          { h with
            entries := h.entries.map (fun e =>
              if e.id = id then { e with val := change e.val } else e) }

/-- A change in place keeps the capacity, the key function and the number of insertions. -/
theorem OrderedMap.mutate_fields (m : OrderedMap K V) (key : Option K) (change : V → V)
    : (m.mutate key change).max = m.max ∧ (m.mutate key change).keyfn = m.keyfn
      ∧ (m.mutate key change).n = m.n ∧ (m.mutate key change).index = m.index := by
  simp only [mutate]
  cases m.getindex key <;> exact ⟨rfl, rfl, rfl, rfl⟩

/-- A change in place keeps the representation. -/
theorem Represents.mutate {m : OrderedMap K V} {h : History K V} (rep : Represents m h)
    (key : Option K) (change : V → V)
    : Represents (m.mutate key change) (h.mutate m.norm key change) := by
  cases key with
  | none => exact rep
  | some key =>
      cases bound : h.bound (m.norm key) with
      | none =>
          simpa [OrderedMap.mutate, History.mutate, OrderedMap.getindex, rep.index, bound]
      | some id =>
          have found : m.getindex (some key) = some (slot m.max id) := by
            simp [OrderedMap.getindex, rep.index, bound]
          obtain ⟨changed, member, rfl, keyed⟩ := rep.live _ id bound
          simp only [OrderedMap.mutate, found, History.mutate, bound]
          constructor
          case inserted => exact rep.inserted
          case length => rw [List.length_map, rep.length]
          case stored =>
            intro i inside
            rw [List.length_map] at inside
            have stored := rep.stored i inside
            rw [List.getElem_map]
            by_cases same : h.entries[i].id = changed.id
            · rw [if_pos same]
              refine ⟨stored.id, stored.key, ?_⟩
              have isChanged : m.vals (slot m.max changed.id) = some h.entries[i].val :=
                same ▸ stored.val
              have isSlot : slot m.max h.entries[i].id = slot m.max changed.id :=
                congrArg _ same
              dsimp only
              rw [isSlot, isChanged, update_self]
              rfl
            · rw [if_neg same]
              refine ⟨stored.id, stored.key, ?_⟩
              have apart : slot m.max h.entries[i].id ≠ slot m.max changed.id :=
                fun equal => same (rep.id_eq_of_slot (List.getElem_mem inside) member equal)
              dsimp only
              rw [update_of_ne apart]
              exact stored.val
          case unused =>
            intro id later inside
            obtain ⟨i, _, stored⟩ := rep.stored_mem member
            have place := stored.id
            dsimp only at later inside
            have apart : slot m.max id ≠ slot m.max changed.id :=
              (slot_ne (by omega) (by omega)).symm
            dsimp only
            rw [update_of_ne apart]
            exact rep.unused id later inside
          case index => exact rep.index
          case live =>
            intro wanted id live
            obtain ⟨entry, member', rfl, keyed'⟩ := rep.live wanted id live
            refine ⟨_, List.mem_map_of_mem member', ?_⟩
            split <;> exact ⟨rfl, keyed'⟩

-----------------------------------------------------------------------------------------
-- What is looked up after a change
-----------------------------------------------------------------------------------------

/-- What is looked up rests on the index key alone. -/
theorem OrderedMap.lookup_congr (m : OrderedMap K V) {key other : K}
    (same : m.norm key = m.norm other)
    : m.lookup (some key) = m.lookup (some other) := by
  simp only [lookup, getindex, same]

/-- Different index keys lead to different slots. -/
theorem Represents.index_inj {m : OrderedMap K V} {h : History K V} (rep : Represents m h)
    {key other : K} {i : Nat} (found : m.index key = some i) (found' : m.index other = some i)
    : key = other := by
  rw [rep.index] at found found'
  obtain ⟨id, bound, isSlot⟩ := Option.map_eq_some_iff.mp found
  obtain ⟨id', bound', isSlot'⟩ := Option.map_eq_some_iff.mp found'
  obtain ⟨entry, member, rfl, keyed⟩ := rep.live key id bound
  obtain ⟨entry', member', rfl, keyed'⟩ := rep.live other id' bound'
  have same := rep.eq_of_id member member'
    (rep.id_eq_of_slot member member' (isSlot.trans isSlot'.symm))
  subst same
  exact Option.some.inj (keyed.symm.trans keyed')

/-- Without an entry there is nothing to change. -/
theorem OrderedMap.mutate_of_none {m : OrderedMap K V} {key : K}
    (missing : m.index (m.norm key) = none) (change : V → V)
    : m.mutate (some key) change = m := by
  simp only [mutate, getindex, missing]

/-- An entry is changed in its slot. -/
theorem OrderedMap.mutate_of_some {m : OrderedMap K V} {key : K} {i : Nat}
    (found : m.index (m.norm key) = some i) (change : V → V)
    : m.mutate (some key) change = { m with vals := update m.vals i ((m.vals i).map change) } := by
  simp only [mutate, getindex, found]

/-- A change in place shows under the key, and nowhere else. -/
theorem Represents.lookup_mutate [DecidableEq K] {m : OrderedMap K V} {h : History K V}
    (rep : Represents m h) (key other : K) (change : V → V)
    : (m.mutate (some key) change).lookup (some other)
      = if m.norm other = m.norm key then (m.lookup (some other)).map change
        else m.lookup (some other) := by
  cases found : m.index (m.norm key) with
  | none =>
      rw [OrderedMap.mutate_of_none found]
      split
      · next same => simp [OrderedMap.lookup, OrderedMap.getindex, same, found]
      · rfl
  | some i =>
      rw [OrderedMap.mutate_of_some found]
      change (m.index (m.norm other)).bind (update m.vals i _) = _
      split
      · next same => simp [OrderedMap.lookup, OrderedMap.getindex, same, found]
      · next differs =>
          cases found' : m.index (m.norm other) with
          | none => simp [OrderedMap.lookup, OrderedMap.getindex, found']
          | some j =>
              have apart : j ≠ i := by
                rintro rfl
                exact differs (rep.index_inj found' found)
              simp [OrderedMap.lookup, OrderedMap.getindex, found', update_of_ne apart]

/-- Where there is room, an insertion shows under its key, and the rest stays. -/
theorem Represents.lookup_insert [DecidableEq K] {m : OrderedMap K V} {h : History K V}
    (rep : Represents m h) (room : m.n < m.max) (key other : K) (val : V)
    : (m.insert (some key) val).lookup (some other)
      = if m.norm other = m.norm key then some val else m.lookup (some other) := by
  have step := m.insert_inserted (some key) val
  have empty : m.keys (slot m.max m.n) = none := (rep.unused m.n (Nat.le_refl _) room).1
  have kept : m.overwrite (slot m.max m.n) = m := by
    simp only [OrderedMap.overwrite, empty]
  have norm : (m.insert (some key) val).norm = m.norm := by
    funext key'
    simp only [OrderedMap.norm, step.keyfn]
  simp only [OrderedMap.lookup, OrderedMap.getindex, norm, step.index, step.vals, kept,
    OrderedMap.remember, OrderedMap.setindex]
  by_cases same : m.norm other = m.norm key
  · rw [if_pos same, same, update_self, Option.bind_some, update_self]
  · rw [if_neg same, update_of_ne same]
    cases found : m.index (m.norm other) with
    | none => rfl
    | some i =>
        rw [rep.index] at found
        obtain ⟨id, bound, rfl⟩ := Option.map_eq_some_iff.mp found
        obtain ⟨entry, member, rfl, -⟩ := rep.live _ id bound
        obtain ⟨j, inside, stored⟩ := rep.stored_mem member
        have place := stored.id
        have apart : slot m.max entry.id ≠ slot m.max m.n := slot_ne (by omega) (by omega)
        rw [Option.bind_some, Option.bind_some, update_of_ne apart]

/-- What a key finds stays under the new key, and nothing is left under the old one. -/
theorem OrderedMap.lookup_rekey [DecidableEq K] {m : OrderedMap K V} {old : K} {val : V}
    (found : m.lookup (some old) = some val) (new other : K)
    : (m.rekey (some old) new).lookup (some other)
      = if m.norm other = m.norm new then some val
        else if m.norm other = m.norm old then none
        else m.lookup (some other) := by
  obtain ⟨i, isIndex, isVal⟩ := Option.bind_eq_some_iff.mp found
  have isIndex' : m.getindex (some old) = some i := isIndex
  simp only [rekey, isIndex']
  change (update (update m.index (m.norm old) none) (m.norm new) (some i) (m.norm other)).bind
    m.vals = _
  by_cases isNew : m.norm other = m.norm new
  · rw [if_pos isNew, isNew, update_self]
    exact isVal
  · rw [if_neg isNew, update_of_ne isNew]
    by_cases isOld : m.norm other = m.norm old
    · rw [if_pos isOld, isOld, update_self]
      rfl
    · rw [if_neg isOld, update_of_ne isOld]
      rfl

end Snowcone.Components
