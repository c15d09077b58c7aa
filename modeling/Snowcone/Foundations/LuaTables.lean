import Mathlib.Data.List.InsertIdx
import Mathlib.Data.List.Perm.Subperm
import Mathlib.Logic.Function.Basic
import Snowcone.Foundations.LuaSequence

/-! Lua tables that are held by reference: what is written to one of them is seen through every
reference to it.
-/

namespace LuaTables

variable {α : Type}

/-- The tables that there are, by reference, and the reference that the next one gets. -/
structure Tables (α : Type) where
  contents : Nat → List α
  next : Nat

namespace Tables

/-- What a table holds. -/
def read (tables : Tables α) (ref : Nat) : List α := tables.contents ref

/-- A table is changed in place. -/
def write (tables : Tables α) (ref : Nat) (values : List α) : Tables α :=
  { tables with contents := Function.update tables.contents ref values }

/-- A new table, and the reference to it. -/
def alloc (tables : Tables α) (values : List α) : Tables α × Nat :=
  ({ contents := Function.update tables.contents tables.next values, next := tables.next + 1 },
    tables.next)

/-- References to tables that are there, no two of them to the same one. -/
structure Apart (tables : Tables α) (refs : List Nat) : Prop where
  nodup : refs.Nodup
  isThere : ∀ ref ∈ refs, ref < tables.next

variable {tables : Tables α} {ref : Nat} {refs others : List Nat}

/-- A table that was changed. -/
theorem read_write (tables : Tables α) (ref : Nat) (values : List α)
    : (tables.write ref values).read ref = values :=
  Function.update_self ..

/-- The tables that were not changed. -/
theorem map_read_write (values : List α) (isOther : ref ∉ refs)
    : refs.map (tables.write ref values).read = refs.map tables.read := by
  refine List.map_congr_left fun other member => ?_
  refine Function.update_of_ne ?_ ..
  rintro rfl
  exact isOther member

/-- A new table. -/
theorem read_alloc (tables : Tables α) (values : List α)
    : (tables.alloc values).1.read (tables.alloc values).2 = values :=
  Function.update_self ..

/-- The tables that were there before a new one. -/
theorem map_read_alloc (values : List α) (areThere : ∀ ref ∈ refs, ref < tables.next)
    : refs.map (tables.alloc values).1.read = refs.map tables.read :=
  List.map_congr_left fun ref member =>
    Function.update_of_ne (Nat.ne_of_lt (areThere ref member)) ..

/-- Changing a table makes and joins none. -/
theorem Apart.write (apart : tables.Apart refs) (ref : Nat) (values : List α)
    : (tables.write ref values).Apart refs :=
  ⟨apart.nodup, apart.isThere⟩

/-- A new table is apart from those that were there. -/
theorem Apart.alloc (apart : tables.Apart refs) (values : List α)
    : (tables.alloc values).1.Apart ((tables.alloc values).2 :: refs) where
  nodup := List.nodup_cons.mpr
    ⟨fun member => Nat.lt_irrefl _ (apart.isThere _ member), apart.nodup⟩
  isThere := by
    intro ref member
    rcases List.mem_cons.mp member with rfl | earlier
    · exact Nat.lt_succ_self _
    · exact Nat.lt_succ_of_lt (apart.isThere ref earlier)

/-- Some of the references, or all of them in another order. -/
theorem Apart.subperm (apart : tables.Apart refs) (fewer : others.Subperm refs)
    : tables.Apart others where
  nodup := by
    obtain ⟨some, reordered, sublist⟩ := fewer
    exact reordered.nodup (apart.nodup.sublist sublist)
  isThere ref member := apart.isThere ref (fewer.subset member)

end Tables

end LuaTables

-----------------------------------------------------------------------------------------
-- Sequences of references
-----------------------------------------------------------------------------------------

namespace LuaSequence

variable {α β : Type}

/-- The value that is read of a sequence of values. -/
theorem get_map (f : α → β) (t : List α) (i : Int) : get (t.map f) i = (get t i).map f := by
  rw [get, get]
  split
  · exact List.getElem?_map ..
  · rfl

/-- Writing to a sequence of values. -/
theorem set_map (f : α → β) (t : List α) (i : Int) (value : α)
    : set (t.map f) i (f value) = (set t i value).map (List.map f) := by
  rw [set, set, List.length_map]
  split
  · simp
  · split
    · simp
    · rfl

/-- Removing from a sequence of values. -/
theorem remove_map (f : α → β) (t : List α) (i : Int)
    : remove (t.map f) i = (remove t i).map (List.map f) := by
  rw [remove, remove, List.length_map]
  split
  · rw [Option.map_some, List.eraseIdx_map]
  · rfl

/-- A value that is written is one more, and others may go. -/
theorem subperm_of_set {t t' : List α} {i : Int} {value : α} (isSet : set t i value = some t')
    : t'.Subperm (value :: t) := by
  rw [set] at isSet
  split at isSet
  · next within =>
      obtain rfl := Option.some.inj isSet
      have inside : (i - 1).toNat < t.length := by omega
      rw [List.set_eq_take_append_cons_drop, if_pos inside]
      refine (List.perm_middle.subperm).trans ((List.subperm_cons value).mpr ?_)
      have parts : t.take (i - 1).toNat ++ t.drop ((i - 1).toNat + 1)
          = t.eraseIdx (i - 1).toNat :=
        (List.eraseIdx_eq_take_drop_succ ..).symm
      rw [parts]
      exact (List.eraseIdx_sublist ..).subperm
  · split at isSet
    · obtain rfl := Option.some.inj isSet
      exact (List.perm_append_singleton value t).subperm
    · cases isSet

/-- What is removed leaves the others. -/
theorem sublist_of_remove {t t' : List α} {i : Int} (removed : remove t i = some t')
    : t'.Sublist t := by
  rw [remove] at removed
  split at removed
  · obtain rfl := Option.some.inj removed
    exact List.eraseIdx_sublist ..
  · cases removed

end LuaSequence
