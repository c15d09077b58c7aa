import Mathlib.Data.List.Basic

/-! Lua tables that are sequences, by the list of their values. Writing beside a sequence, which
would leave a hole in it, is a case of its own.
-/

namespace LuaSequence

variable {α : Type}

/-- `t[i]` -/
def get (t : List α) (i : Int) : Option α := if 1 ≤ i then t[(i - 1).toNat]? else none

/-- `t[i] = value`, where the table is a sequence afterwards. -/
def set (t : List α) (i : Int) (value : α) : Option (List α) :=
  if 1 ≤ i ∧ i ≤ t.length then some (t.set (i - 1).toNat value)
  else if i = t.length + 1 then some (t ++ [value])
  else none

/-- `table.insert(t, i, value)`; a position out of bounds makes it raise an error. -/
def insert (t : List α) (i : Int) (value : α) : Option (List α) :=
  if 1 ≤ i ∧ i ≤ t.length + 1 then some (t.insertIdx (i - 1).toNat value) else none

/-- `table.remove(t, i)`; a position out of bounds makes it raise an error. -/
def remove (t : List α) (i : Int) : Option (List α) :=
  if (1 ≤ i ∧ i ≤ t.length + 1) ∨ i = t.length then some (t.eraseIdx (i - 1).toNat) else none

/-- `table.unpack(t, i, j)`, where all of these are there. -/
def unpack (t : List α) (i j : Int) : Option (List α) :=
  (List.range (j - i + 1).toNat).mapM (fun offset : Nat => get t (i + offset))

/-- The values from one position to another. -/
def slice (t : List α) (i j : Int) : List α := (t.drop (i - 1).toNat).take (j - i + 1).toNat

/-- Some values from an index on, by induction on how many. -/
theorem mapM_getElem? (t : List α) (start : Nat) {count : Nat} (within : start + count ≤ t.length)
    : (List.range count).mapM (fun offset => t[start + offset]?)
      = some ((t.drop start).take count) := by
  induction count with
  | zero => simp
  | succ count ih =>
      have isThere : start + count < t.length := within
      rw [List.range_succ, List.mapM_append, ih (Nat.le_of_lt isThere)]
      have next : (t.drop start).take (count + 1)
          = (t.drop start).take count ++ [t[start + count]] := by
        rw [List.take_add_one, List.getElem?_drop, List.getElem?_eq_getElem isThere]
        rfl
      simp [next, List.getElem?_eq_getElem isThere]

/-- What is unpacked inside of a sequence is there. -/
theorem unpack_eq {t : List α} {i j : Int} (low : 1 ≤ i) (ordered : i ≤ j + 1)
    (high : j ≤ t.length)
    : unpack t i j = some (slice t i j) := by
  have read : (fun offset : Nat => get t (i + offset))
      = fun offset => t[(i - 1).toNat + offset]? := by
    funext offset
    rw [get, if_pos (by omega)]
    congr 1
    omega
  rw [unpack, read, mapM_getElem? t _ (by omega)]
  rfl

/-- A value inside of a sequence. -/
theorem get_eq_some {t : List α} {i : Int} (low : 1 ≤ i) (high : i ≤ t.length)
    : ∃ value, get t i = some value := by
  have within : (i - 1).toNat < t.length := by omega
  exact ⟨t[(i - 1).toNat], by rw [get, if_pos low, List.getElem?_eq_getElem within]⟩

/-- Only positions inside of a sequence have a value. -/
theorem bounds_of_get {t : List α} {i : Int} {value : α} (isThere : get t i = some value)
    : 1 ≤ i ∧ i ≤ t.length := by
  rw [get] at isThere
  split at isThere
  · next low =>
      obtain ⟨within, -⟩ := List.getElem?_eq_some_iff.mp isThere
      omega
  · cases isThere

/-- Writing inside of a sequence keeps it one, of the same length. -/
theorem set_eq_some {t : List α} {i : Int} (value : α) (low : 1 ≤ i) (high : i ≤ t.length)
    : ∃ t', set t i value = some t' ∧ t'.length = t.length :=
  ⟨_, if_pos ⟨low, high⟩, List.length_set ..⟩

/-- A value that is read is one of the sequence. -/
theorem mem_of_get {t : List α} {i : Int} {value : α} (isThere : get t i = some value)
    : value ∈ t := by
  rw [get] at isThere
  split at isThere
  · exact List.mem_of_getElem? isThere
  · cases isThere

/-- Writing brings in one value. -/
theorem mem_of_set {t t' : List α} {i : Int} {value other : α} (isSet : set t i value = some t')
    (member : other ∈ t')
    : other ∈ t ∨ other = value := by
  rw [set] at isSet
  split at isSet
  · obtain rfl := Option.some.inj isSet
    exact List.mem_or_eq_of_mem_set member
  · split at isSet
    · obtain rfl := Option.some.inj isSet
      simpa using member
    · cases isSet

/-- Inserting brings in one value. -/
theorem mem_of_insert {t t' : List α} {i : Int} {value other : α}
    (inserted : insert t i value = some t') (member : other ∈ t')
    : other ∈ t ∨ other = value := by
  rw [insert] at inserted
  split at inserted
  · obtain rfl := Option.some.inj inserted
    exact ((List.mem_insertIdx (by omega)).mp member).symm
  · cases inserted

/-- Removing brings in nothing. -/
theorem mem_of_remove {t t' : List α} {i : Int} {other : α} (removed : remove t i = some t')
    (member : other ∈ t')
    : other ∈ t := by
  rw [remove] at removed
  split at removed
  · obtain rfl := Option.some.inj removed
    exact List.mem_of_mem_eraseIdx member
  · cases removed

/-- Some values of a sequence, one after the other. -/
theorem mem_of_slice {t : List α} {i j : Int} {other : α} (member : other ∈ slice t i j)
    : other ∈ t :=
  List.mem_of_mem_drop (List.mem_of_mem_take member)

/-- Removing inside of a sequence makes it shorter by one. -/
theorem length_remove {t t' : List α} {i : Int} (low : 1 ≤ i) (high : i ≤ t.length)
    (removed : remove t i = some t')
    : t'.length + 1 = t.length := by
  rw [remove, if_pos (.inl ⟨low, by omega⟩)] at removed
  obtain rfl := Option.some.inj removed
  rw [List.length_eraseIdx_of_lt (by omega)]
  omega

-----------------------------------------------------------------------------------------
-- A value with what is on both sides of it
-----------------------------------------------------------------------------------------

section Middle

variable (before : List α) (value : α) (behind : List α)

/-- The value is read. -/
theorem get_middle : get (before ++ value :: behind) (before.length + 1) = some value := by
  have index : (before.length + 1 - 1 : Int).toNat = before.length := by omega
  rw [get, if_pos (by omega), index, List.getElem?_append_right (Nat.le_refl _), Nat.sub_self]
  rfl

/-- There is nothing behind the last value. -/
theorem get_behind : get before (before.length + 1) = none := by
  rw [get, if_pos (by omega)]
  exact List.getElem?_eq_none (by omega)

/-- A value is written behind the last one. -/
theorem set_behind : set before (before.length + 1) value = some (before ++ [value]) := by
  rw [set, if_neg (by omega), if_pos rfl]

/-- The value is written over. -/
theorem set_middle (other : α)
    : set (before ++ value :: behind) (before.length + 1) other
      = some (before ++ other :: behind) := by
  have index : (before.length + 1 - 1 : Int).toNat = before.length := by omega
  have within : (1 : Int) ≤ before.length + 1
      ∧ (before.length + 1 : Int) ≤ (before ++ value :: behind).length := by
    rw [List.length_append, List.length_cons]
    omega
  rw [set, if_pos within, index, List.set_append_right _ _ (Nat.le_refl _), Nat.sub_self]
  rfl

/-- The value is removed. -/
theorem remove_middle
    : remove (before ++ value :: behind) (before.length + 1) = some (before ++ behind) := by
  have index : (before.length + 1 - 1 : Int).toNat = before.length := by omega
  have within : (1 : Int) ≤ before.length + 1
      ∧ (before.length + 1 : Int) ≤ (before ++ value :: behind).length + 1 := by
    rw [List.length_append, List.length_cons]
    omega
  rw [remove, if_pos (.inl within), index, List.eraseIdx_append_of_length_le (Nat.le_refl _),
    Nat.sub_self]
  rfl

end Middle

end LuaSequence
