import Mathlib.Data.List.TakeWhile

/-! Byte strings, their literals, and cutting them at a delimiter. -/

/-- One octet; a C `char` read as unsigned. -/
abbrev Byte := UInt8

/-- A byte string: a Lua string, the text of a C string, or a piece of a stream. -/
abbrev Bytes := List Byte

namespace Bytes

/-- The comparison of byte strings decides their equality. -/
instance : LawfulBEq Bytes := inferInstance

/-- The byte of an ASCII character literal. -/
def chr (c : Char) : Byte := c.toNat.toUInt8

/-- The bytes of an ASCII string literal. -/
def lit (s : String) : Bytes := s.toList.map chr

/-- The word that a string starts with: everything before the first `delim`. -/
def before (delim : Byte) (text : Bytes) : Bytes := text.takeWhile (· != delim)

/-- What is left from the first `delim` on, the delimiter included. -/
def onwards (delim : Byte) (text : Bytes) : Bytes := text.dropWhile (· != delim)

/-- A string with its leading copies of `pad` removed. -/
def dropLeading (pad : Byte) (text : Bytes) : Bytes := text.dropWhile (· == pad)

/-- Cutting at a delimiter loses nothing, by the split of `takeWhile`. -/
theorem before_append_onwards (delim : Byte) (text : Bytes)
    : before delim text ++ onwards delim text = text :=
  List.takeWhile_append_dropWhile

/-- No delimiter stands in the part before the first one. -/
theorem not_mem_before (delim : Byte) (text : Bytes) : delim ∉ before delim text := by
  intro member
  have holds := List.mem_takeWhile_imp member
  simp at holds

/-- A string without the delimiter is cut after its end. -/
theorem before_of_not_mem {delim : Byte} {text : Bytes} (absent : delim ∉ text)
    : before delim text = text := by
  refine List.takeWhile_eq_self_iff.mpr ?_
  intro byte member
  simpa using fun same : byte = delim => absent (same ▸ member)

/-- A string without the delimiter leaves nothing behind the cut. -/
theorem onwards_of_not_mem {delim : Byte} {text : Bytes} (absent : delim ∉ text)
    : onwards delim text = [] := by
  refine List.dropWhile_eq_nil_iff.mpr ?_
  intro byte member
  simpa using fun same : byte = delim => absent (same ▸ member)

/-- Everything up to the first delimiter is the part before it. -/
theorem before_append_cons {delim : Byte} {head : Bytes} (absent : delim ∉ head)
    (tail : Bytes)
    : before delim (head ++ delim :: tail) = head := by
  have keep : ∀ byte ∈ head, (byte != delim) = true := by
    intro byte member
    simpa using fun same : byte = delim => absent (same ▸ member)
  simp [before, List.takeWhile_append_of_pos keep]

/-- Everything from the first delimiter on is left behind the cut. -/
theorem onwards_append_cons {delim : Byte} {head : Bytes} (absent : delim ∉ head)
    (tail : Bytes)
    : onwards delim (head ++ delim :: tail) = delim :: tail := by
  have keep : ∀ byte ∈ head, (byte != delim) = true := by
    intro byte member
    simpa using fun same : byte = delim => absent (same ▸ member)
  simp [onwards, List.dropWhile_append_of_pos keep]

/-- A cut leaves either nothing or a rest that starts with the delimiter. -/
theorem onwards_cases (delim : Byte) (text : Bytes)
    : (onwards delim text = [] ∧ delim ∉ text)
      ∨ ∃ tail, onwards delim text = delim :: tail
          ∧ text = before delim text ++ delim :: tail := by
  by_cases member : delim ∈ text
  · obtain ⟨head, tail, split, absent⟩ := List.eq_append_cons_of_mem member
    refine Or.inr ⟨tail, ?_, ?_⟩
    · rw [split, onwards_append_cons absent]
    · conv => lhs; rw [split]
      rw [split, before_append_cons absent]
  · exact Or.inl ⟨onwards_of_not_mem member, member⟩

/-- Removing leading padding keeps a suffix of the string. -/
theorem dropLeading_suffix (pad : Byte) (text : Bytes) : dropLeading pad text <:+ text :=
  List.dropWhile_suffix _

/-- A string without leading padding does not start with the padding byte. -/
theorem dropLeading_head_ne (pad : Byte) (text : Bytes)
    : (dropLeading pad text).head? ≠ some pad := by
  intro starts
  have holds := List.head?_dropWhile_not (fun byte => byte == pad) text
  simp only [dropLeading] at starts
  simp [starts] at holds

/-- A string that does not start with the padding byte is not shortened. -/
theorem dropLeading_of_head_ne {pad : Byte} {text : Bytes} (starts : text.head? ≠ some pad)
    : dropLeading pad text = text := by
  cases text with
  | nil => rfl
  | cons head tail =>
      have differs : ¬ (head == pad) = true := by simpa using starts
      exact List.dropWhile_cons_of_neg differs

/-- Leading padding in front of a string that does not start with it is what goes. -/
theorem dropLeading_replicate_append (pad : Byte) (count : Nat) (text : Bytes)
    : dropLeading pad (List.replicate count pad ++ text) = dropLeading pad text := by
  refine List.dropWhile_append_of_pos ?_
  intro byte member
  simpa using List.eq_of_mem_replicate member

/-- A string is its leading padding followed by the rest. -/
theorem eq_replicate_append_dropLeading (pad : Byte) (text : Bytes)
    : ∃ count, text = List.replicate count pad ++ dropLeading pad text := by
  induction text with
  | nil => exact ⟨0, rfl⟩
  | cons head tail ih =>
      by_cases same : head = pad
      · subst same
        obtain ⟨count, split⟩ := ih
        refine ⟨count + 1, ?_⟩
        have goes : dropLeading head (head :: tail) = dropLeading head tail := by
          simp [dropLeading]
        rw [goes, List.replicate_succ, List.cons_append, ← split]
      · exact ⟨0, by simp [dropLeading, same]⟩

/-- What is cut out of a list does not have its separator, by induction on the length. -/
theorem of_mem_splitOn {delim : Byte} {list entry : Bytes} (isIn : entry ∈ list.splitOn delim)
    : delim ∉ entry ∧ entry ⊆ list := by
  induction size : list.length using Nat.strong_induction_on generalizing list with
  | _ size ih =>
      rcases onwards_cases delim list with ⟨_, absent⟩ | ⟨tail, _, split⟩
      · rw [List.splitOn_eq_singleton absent, List.mem_singleton] at isIn
        rw [isIn]
        exact ⟨absent, List.Subset.refl _⟩
      · have absent := not_mem_before delim list
        have shorter := congrArg List.length split
        rw [List.length_append, List.length_cons] at shorter
        rw [split, List.splitOn_append_cons_self_of_not_mem absent, List.mem_cons] at isIn
        rw [split]
        rcases isIn with rfl | later
        · exact ⟨absent, List.subset_append_left _ _⟩
        · obtain ⟨plain, subset⟩ := ih tail.length (by omega) later rfl
          exact ⟨plain, List.subset_append_of_subset_right _ (List.subset_cons_of_subset _ subset)⟩

end Bytes
