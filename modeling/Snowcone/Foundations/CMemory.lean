import Snowcone.Foundations.Bytes

/-! One mutable byte allocation with C strings and views into it.
Positions are offsets from the start of the allocation. The frame relation says which
part a computation may have written, so that a view taken early can be read late.
-/

/-- The contents of an allocation. -/
abbrev CMemory := Bytes

/-- A pointer and a length into an allocation: a `std::string_view`. -/
structure View where
  data : Nat
  size : Nat
  deriving DecidableEq, Repr

namespace CMemory

/-- `*p`. Past the allocation this reads a terminator, which no terminated string does. -/
def load (mem : CMemory) (p : Nat) : Byte := mem[p]?.getD 0

/-- `*p = byte`. -/
def store (mem : CMemory) (p : Nat) (byte : Byte) : CMemory := mem.set p byte

/-- `while (accepts(*p)) p++`. -/
def advance (accepts : Byte → Bool) (mem : CMemory) (p : Nat) : Nat :=
  p + ((mem.drop p).takeWhile accepts).length

/-- `std::string_view{p}`: the view of the C string at `p`. -/
def viewOf (mem : CMemory) (p : Nat) : View :=
  { data := p, size := ((mem.drop p).takeWhile (· != 0)).length }

/-- `strchr(p, byte)` on a C string. -/
def strchr (mem : CMemory) (p : Nat) (byte : Byte) : Option Nat :=
  let q := advance (fun b => b != 0 && b != byte) mem p
  if load mem q = byte then some q else none

/-- `strsep(&str, delim)` for a `str` that points to `p`: the token is `p` itself, and
this is the memory and what `str` points to afterwards.
-/
def strsep (mem : CMemory) (p : Nat) (delim : Byte) : CMemory × Option Nat :=
  let q := advance (fun b => b != 0 && b != delim) mem p
  if load mem q = 0 then (mem, none) else (store mem q 0, some (q + 1))

/-- `std::find(first, last, byte)`: the first match, or `last`. -/
def find (mem : CMemory) (first last : Nat) (byte : Byte) : Nat :=
  first + (Bytes.before byte ((mem.drop first).take (last - first))).length

/-- The memory that `strcpy` leaves: the string up to its first NUL, and the terminator. -/
def strcpy (txt : Bytes) : CMemory := Bytes.before 0 txt ++ [0]

/-- The memory after a run of bytes has been copied to `p`. -/
def write (mem : CMemory) (p : Nat) (bytes : Bytes) : CMemory :=
  mem.take p ++ bytes ++ mem.drop (p + bytes.length)

end CMemory

/-- The bytes a view shows. -/
def View.read (view : View) (mem : CMemory) : Bytes := (mem.drop view.data).take view.size

namespace CMemory

/-- Only the bytes in `[lo, hi)` may differ between the two memories. -/
def Frame (lo hi : Nat) (mem mem' : CMemory) : Prop :=
  mem'.length = mem.length ∧ ∀ i, i < lo ∨ hi ≤ i → mem'[i]? = mem[i]?

/-- A computation that writes nothing has every frame. -/
theorem Frame.refl (lo hi : Nat) (mem : CMemory) : Frame lo hi mem mem :=
  ⟨rfl, fun _ _ => rfl⟩

/-- A frame may be widened. -/
theorem Frame.mono {lo hi lo' hi' : Nat} {mem mem' : CMemory} (frame : Frame lo hi mem mem')
    (below : lo' ≤ lo) (above : hi ≤ hi')
    : Frame lo' hi' mem mem' :=
  ⟨frame.1, fun i outside => frame.2 i (by omega)⟩

/-- Writing one after the other stays inside the common frame. -/
theorem Frame.trans {lo hi : Nat} {mem middle mem' : CMemory}
    (first : Frame lo hi mem middle) (second : Frame lo hi middle mem')
    : Frame lo hi mem mem' :=
  ⟨second.1.trans first.1,
    fun i outside => (second.2 i outside).trans (first.2 i outside)⟩

/-- One store writes one byte. -/
theorem frame_store (mem : CMemory) (p : Nat) (byte : Byte)
    : Frame p (p + 1) mem (store mem p byte) := by
  refine ⟨List.length_set, fun i outside => ?_⟩
  exact List.getElem?_set_ne (by omega)

/-- A view apart from the frame still shows the same bytes. -/
theorem Frame.read {lo hi : Nat} {mem mem' : CMemory} (frame : Frame lo hi mem mem')
    {view : View} (apart : view.data + view.size ≤ lo ∨ hi ≤ view.data)
    : view.read mem' = view.read mem := by
  refine List.ext_getElem? fun i => ?_
  simp only [View.read, List.getElem?_take, List.getElem?_drop]
  split
  · exact frame.2 _ (by omega)
  · rfl

/-- A store inside the allocation is what is read back. -/
theorem getElem?_store {mem : CMemory} {p : Nat} (inside : p < mem.length) (byte : Byte)
    : (store mem p byte)[p]? = some byte :=
  List.getElem?_set_self inside

/-- One byte and the view behind it make a longer view. -/
theorem read_cons {mem : CMemory} {p size : Nat} {byte : Byte}
    (first : mem[p]? = some byte)
    : View.read ⟨p, size + 1⟩ mem = byte :: View.read ⟨p + 1, size⟩ mem := by
  obtain ⟨inside, same⟩ := List.getElem?_eq_some_iff.mp first
  simp only [View.read]
  rw [List.drop_eq_getElem_cons inside, same, List.take_succ_cons]

/-- Two adjacent views make one. -/
theorem read_add (mem : CMemory) (p m n : Nat)
    : View.read ⟨p, m + n⟩ mem = View.read ⟨p, m⟩ mem ++ View.read ⟨p + m, n⟩ mem := by
  simp only [View.read, List.take_add, List.drop_drop]

-----------------------------------------------------------------------------------------
-- C strings
-----------------------------------------------------------------------------------------

/-- At `p` stands the C string `text`: its bytes, none of them NUL, then a terminator. -/
def CString (mem : CMemory) (p : Nat) (text : Bytes) : Prop :=
  View.read ⟨p, text.length + 1⟩ mem = text ++ [0] ∧ 0 ∉ text

instance (mem : CMemory) (p : Nat) (text : Bytes) : Decidable (CString mem p text) :=
  inferInstanceAs (Decidable (_ ∧ _))

/-- The memory from a C string on is its text, its terminator and the rest. -/
theorem CString.drop {mem : CMemory} {p : Nat} {text : Bytes} (here : CString mem p text)
    : ∃ rest, mem.drop p = text ++ 0 :: rest := by
  refine ⟨(mem.drop p).drop (text.length + 1), ?_⟩
  have split := List.take_append_drop (text.length + 1) (mem.drop p)
  rw [show (mem.drop p).take (text.length + 1) = text ++ [0] from here.1] at split
  simpa using split.symm

/-- A terminator behind a text without NUL makes a C string. -/
theorem CString.of_drop {mem : CMemory} {p : Nat} {text rest : Bytes}
    (here : mem.drop p = text ++ 0 :: rest) (clean : 0 ∉ text)
    : CString mem p text := by
  refine ⟨?_, clean⟩
  simp only [View.read, here]
  rw [show text ++ 0 :: rest = (text ++ [0]) ++ rest by simp]
  exact List.take_left' (by simp)

/-- At one place stands one C string. -/
theorem CString.unique {mem : CMemory} {p : Nat} {text other : Bytes}
    (here : CString mem p text) (again : CString mem p other)
    : text = other := by
  obtain ⟨rest, split⟩ := here.drop
  obtain ⟨rest', split'⟩ := again.drop
  rw [← Bytes.before_append_cons here.2 rest, ← split, split',
    Bytes.before_append_cons again.2 rest']

/-- The terminator of a C string lies inside the allocation. -/
theorem CString.end_lt {mem : CMemory} {p : Nat} {text : Bytes} (here : CString mem p text)
    : p + text.length < mem.length := by
  obtain ⟨rest, split⟩ := here.drop
  have lengths := congrArg List.length split
  simp only [List.length_drop, List.length_append, List.length_cons] at lengths
  omega

/-- A C string apart from the frame is still there. -/
theorem Frame.cString {lo hi : Nat} {mem mem' : CMemory} (frame : Frame lo hi mem mem')
    {p : Nat} {text : Bytes} (here : CString mem p text)
    (apart : p + text.length < lo ∨ hi ≤ p)
    : CString mem' p text := by
  refine ⟨?_, here.2⟩
  rw [frame.read (by simp only; omega)]
  exact here.1

/-- What is left of a C string behind a first part is a C string. -/
theorem CString.tail {mem : CMemory} {p : Nat} {head tail : Bytes}
    (here : CString mem p (head ++ tail))
    : CString mem (p + head.length) tail := by
  obtain ⟨rest, split⟩ := here.drop
  refine CString.of_drop (?_ : _ = tail ++ 0 :: rest)
    fun member => here.2 (List.mem_append_right _ member)
  rw [← List.drop_drop, split, List.append_assoc, List.drop_left]

/-- Behind its first byte a C string goes on. -/
theorem CString.cons_tail {mem : CMemory} {p : Nat} {byte : Byte} {text : Bytes}
    (here : CString mem p (byte :: text))
    : CString mem (p + 1) text := by
  rw [← List.singleton_append] at here
  exact here.tail

/-- At the end of a C string stands an empty one. -/
theorem CString.ends {mem : CMemory} {p : Nat} {text : Bytes} (here : CString mem p text)
    : CString mem (p + text.length) [] := by
  rw [← List.append_nil text] at here
  exact here.tail

/-- Ending a C string early, at a byte of its own, leaves its first part. -/
theorem CString.truncate {mem : CMemory} {p : Nat} {head tail : Bytes} {byte : Byte}
    (here : CString mem p (head ++ byte :: tail))
    : CString (store mem (p + head.length) 0) p head := by
  obtain ⟨rest, split⟩ := here.drop
  refine CString.of_drop (?_ : _ = head ++ 0 :: (tail ++ 0 :: rest))
    fun member => here.2 (List.mem_append_left _ member)
  simp only [store]
  rw [List.drop_set, if_neg (by omega), split, Nat.add_sub_cancel_left, List.append_assoc,
    List.set_append_right _ _ (Nat.le_refl _), Nat.sub_self]
  rfl

/-- The text a view of a C string shows. -/
theorem CString.viewOf_eq {mem : CMemory} {p : Nat} {text : Bytes}
    (here : CString mem p text)
    : viewOf mem p = ⟨p, text.length⟩ := by
  obtain ⟨rest, split⟩ := here.drop
  have whole := Bytes.before_append_cons here.2 rest
  simp only [Bytes.before] at whole
  simp only [viewOf, split, whole]

/-- A view of the first part of a C string shows it. -/
theorem CString.read {mem : CMemory} {p : Nat} {head tail : Bytes}
    (here : CString mem p (head ++ tail))
    : View.read ⟨p, head.length⟩ mem = head := by
  obtain ⟨rest, split⟩ := here.drop
  simp only [View.read, split, List.append_assoc, List.take_left]

/-- The first byte of a C string, or its terminator. -/
theorem CString.load_eq {mem : CMemory} {p : Nat} {text : Bytes} (here : CString mem p text)
    : load mem p = text.head?.getD 0 := by
  obtain ⟨rest, split⟩ := here.drop
  have first : mem[p]? = (text ++ 0 :: rest).head? := by
    rw [← split, List.head?_drop]
  cases text <;> simp [load, first]

/-- A C string starts with a terminator exactly when it is empty. -/
theorem CString.load_eq_zero_iff {mem : CMemory} {p : Nat} {text : Bytes}
    (here : CString mem p text)
    : load mem p = 0 ↔ text = [] := by
  rw [here.load_eq]
  cases text with
  | nil => simp
  | cons head tail =>
      have clean : head ≠ 0 := fun same => here.2 (by simp [same])
      simp [clean]

/-- A scanning loop that stops at terminators moves over a prefix of the text. -/
theorem CString.advance_eq {mem : CMemory} {p : Nat} {text : Bytes}
    (here : CString mem p text) {accepts : Byte → Bool} (stops : accepts 0 = false)
    : advance accepts mem p = p + (text.takeWhile accepts).length := by
  obtain ⟨rest, split⟩ := here.drop
  have ends : (0 :: rest).takeWhile accepts = [] := by simp [stops]
  simp only [advance, split, List.takeWhile_append, ends]
  split <;> simp_all

/-- In a text without NUL, stopping at terminators too changes nothing. -/
theorem takeWhile_nonzero_eq_before {text : Bytes} (clean : 0 ∉ text) (delim : Byte)
    : text.takeWhile (fun b => b != 0 && b != delim) = Bytes.before delim text := by
  induction text with
  | nil => rfl
  | cons head tail ih =>
      simp only [List.mem_cons, not_or] at clean
      have nonzero : (head != 0) = true := by simpa using Ne.symm clean.1
      simp only [Bytes.before, List.takeWhile_cons, nonzero, Bool.true_and]
      split
      · exact congrArg (List.cons head) (ih clean.2)
      · rfl

/-- Scanning for a delimiter or the terminator moves over the part before the delimiter. -/
theorem CString.advance_before {mem : CMemory} {p : Nat} {text : Bytes}
    (here : CString mem p text) (delim : Byte)
    : advance (fun b => b != 0 && b != delim) mem p
      = p + (Bytes.before delim text).length := by
  rw [here.advance_eq (by simp), takeWhile_nonzero_eq_before here.2]

/-- `strchr` finds nothing in a text without the byte. -/
theorem CString.strchr_of_not_mem {mem : CMemory} {p : Nat} {text : Bytes} {byte : Byte}
    (here : CString mem p text) (absent : byte ∉ text) (nonzero : byte ≠ 0)
    : strchr mem p byte = none := by
  have stop : load mem (p + text.length) = 0 := here.ends.load_eq
  simp [strchr, here.advance_before, Bytes.before_of_not_mem absent, stop, nonzero.symm]

/-- `strchr` finds the first occurrence of the byte. -/
theorem CString.strchr_of_append {mem : CMemory} {p : Nat} {head tail : Bytes}
    {byte : Byte} (here : CString mem p (head ++ byte :: tail)) (absent : byte ∉ head)
    : strchr mem p byte = some (p + head.length) := by
  have found : load mem (p + head.length) = byte := here.tail.load_eq
  simp [strchr, here.advance_before, Bytes.before_append_cons absent, found]

/-- `strsep` ends the last token: nothing is written and nothing is left. -/
theorem CString.strsep_of_not_mem {mem : CMemory} {p : Nat} {text : Bytes} {delim : Byte}
    (here : CString mem p text) (absent : delim ∉ text)
    : strsep mem p delim = (mem, none) := by
  have stop : load mem (p + text.length) = 0 := here.ends.load_eq
  simp [strsep, here.advance_before, Bytes.before_of_not_mem absent, stop]

/-- `strsep` cuts at the first delimiter: one terminator is written over it, the token
stands before it and the rest of the string behind it.
-/
theorem CString.strsep_of_append {mem : CMemory} {p : Nat} {head tail : Bytes}
    {delim : Byte} (here : CString mem p (head ++ delim :: tail)) (absent : delim ∉ head)
    : ∃ mem',
        strsep mem p delim = (mem', some (p + head.length + 1))
        ∧ Frame (p + head.length) (p + head.length + 1) mem mem'
        ∧ CString mem' p head
        ∧ CString mem' (p + head.length + 1) tail := by
  have frame := frame_store mem (p + head.length) 0
  have nonzero : delim ≠ 0 := fun same => here.2 (by simp [same])
  have found : load mem (p + head.length) = delim := here.tail.load_eq
  have rest : CString mem (p + head.length + 1) tail := by
    have split : CString mem p ((head ++ [delim]) ++ tail) := by simpa using here
    simpa [Nat.add_assoc] using split.tail
  refine ⟨store mem (p + head.length) 0, ?_, frame, here.truncate, ?_⟩
  · simp [strsep, here.advance_before, Bytes.before_append_cons absent, found, nonzero]
  · exact frame.cString rest (Or.inr (Nat.le_refl _))

end CMemory

/-- The view shows `text`, and what it shows lies in `[lo, hi)`. An empty view lies
anywhere, also when it is a null one.
-/
def View.Holds (view : View) (lo hi : Nat) (mem : CMemory) (text : Bytes) : Prop :=
  view.read mem = text
  ∧ (view.size = 0 ∨ (lo ≤ view.data ∧ view.data + view.size ≤ hi))

namespace CMemory

/-- A view keeps showing its text while writes stay outside its range. -/
theorem Frame.holds {lo hi a b : Nat} {mem mem' : CMemory} (frame : Frame a b mem mem')
    {view : View} {text : Bytes} (holds : view.Holds lo hi mem text)
    (apart : hi ≤ a ∨ b ≤ lo)
    : view.Holds lo hi mem' text := by
  refine ⟨?_, holds.2⟩
  rw [← holds.1]
  rcases holds.2 with empty | inside
  · simp [View.read, empty]
  · exact frame.read (by omega)

end CMemory

/-- A view's range may be widened. -/
theorem View.Holds.mono {view : View} {lo hi lo' hi' : Nat} {mem : CMemory} {text : Bytes}
    (holds : view.Holds lo hi mem text) (below : lo' ≤ lo) (above : hi ≤ hi')
    : view.Holds lo' hi' mem text :=
  ⟨holds.1, holds.2.imp_right fun inside => by omega⟩

namespace CMemory

/-- The view of a C string shows its text, inside the string. -/
theorem CString.holds {mem : CMemory} {p : Nat} {text : Bytes} (here : CString mem p text)
    : (viewOf mem p).Holds p (p + text.length) mem text := by
  rw [here.viewOf_eq]
  rw [← List.append_nil text] at here
  exact ⟨here.read, Or.inr ⟨Nat.le_refl _, Nat.le_refl _⟩⟩

-----------------------------------------------------------------------------------------
-- Ranges
-----------------------------------------------------------------------------------------

/-- A range without the byte is searched to its end. -/
theorem find_of_not_mem {mem : CMemory} {first last : Nat} {byte : Byte}
    (ordered : first ≤ last) (inside : last ≤ mem.length)
    (absent : byte ∉ View.read ⟨first, last - first⟩ mem)
    : find mem first last byte = last := by
  simp only [View.read] at absent
  rw [find, Bytes.before_of_not_mem absent, List.length_take, List.length_drop]
  omega

/-- The search stops at the first occurrence in the range. -/
theorem find_of_append {mem : CMemory} {first last : Nat} {byte : Byte} {head tail : Bytes}
    (range : View.read ⟨first, last - first⟩ mem = head ++ byte :: tail)
    (absent : byte ∉ head)
    : find mem first last byte = first + head.length := by
  simp only [View.read] at range
  rw [find, range, Bytes.before_append_cons absent]

/-- The first part of a range. -/
theorem read_left {mem : CMemory} {p size : Nat} {head tail : Bytes}
    (range : View.read ⟨p, size⟩ mem = head ++ tail)
    : View.read ⟨p, head.length⟩ mem = head := by
  have lengths := congrArg List.length range
  simp only [View.read] at range lengths ⊢
  simp only [List.length_take, List.length_append] at lengths
  have part := congrArg (List.take head.length) range
  rwa [List.take_take, List.take_left, Nat.min_eq_left (by omega)] at part

/-- What is behind the first part of a range. -/
theorem read_right {mem : CMemory} {p size : Nat} {head tail : Bytes}
    (range : View.read ⟨p, size⟩ mem = head ++ tail)
    : View.read ⟨p + head.length, size - head.length⟩ mem = tail := by
  simp only [View.read] at range ⊢
  rw [← List.drop_drop, ← List.drop_take, range, List.drop_left]

/-- One byte of a range. -/
theorem load_of_read {mem : CMemory} {p size : Nat} {head tail : Bytes} {byte : Byte}
    (range : View.read ⟨p, size⟩ mem = head ++ byte :: tail)
    : load mem (p + head.length) = byte := by
  have behind := congrArg List.head? (read_right range)
  simp only [View.read, List.head?_take, List.head?_drop, List.head?_cons] at behind
  split at behind
  · cases behind
  · simp [load, behind]

/-- A range inside the allocation has as many bytes as it asks for. -/
theorem read_length {mem : CMemory} {p size : Nat} (inside : p + size ≤ mem.length)
    : (View.read ⟨p, size⟩ mem).length = size := by
  simp only [View.read, List.length_take, List.length_drop]
  omega

/-- Copying bytes into the allocation keeps its size. -/
theorem write_length {mem : CMemory} {p : Nat} {bytes : Bytes}
    (inside : p + bytes.length ≤ mem.length)
    : (write mem p bytes).length = mem.length := by
  simp only [write, List.length_append, List.length_take, List.length_drop]
  omega

/-- What was copied is what is read back. -/
theorem read_write {mem : CMemory} {p : Nat} {bytes : Bytes} (inside : p ≤ mem.length)
    : View.read ⟨p, bytes.length⟩ (write mem p bytes) = bytes := by
  have start : (mem.take p).length = p := List.length_take_of_le inside
  simp only [View.read, write]
  rw [List.append_assoc, List.drop_left' start, List.take_left]

/-- A range in front of the copied bytes reads as before. -/
theorem read_write_before {mem : CMemory} {p q size : Nat} {bytes : Bytes}
    (before : q + size ≤ p) (inside : p ≤ mem.length)
    : View.read ⟨q, size⟩ (write mem p bytes) = View.read ⟨q, size⟩ mem := by
  have start : (mem.take p).length = p := List.length_take_of_le inside
  refine List.ext_getElem? fun i => ?_
  simp only [View.read, write, List.append_assoc, List.getElem?_take, List.getElem?_drop]
  split
  · rw [List.getElem?_append_left (by omega), List.getElem?_take_of_lt (by omega)]
  · rfl

/-- A store directly behind a range ends it. -/
theorem read_store {mem : CMemory} {p : Nat} {text : Bytes}
    (range : View.read ⟨p, text.length⟩ mem = text) (byte : Byte)
    (inside : p + text.length < mem.length)
    : View.read ⟨p, text.length + 1⟩ (store mem (p + text.length) byte) = text ++ [byte] := by
  have frame := frame_store mem (p + text.length) byte
  rw [read_add, frame.read (Or.inl (Nat.le_refl _)), range,
    read_cons (getElem?_store inside byte)]
  simp [View.read]

/-- Bytes with a terminator behind them make the C string that ends at the first NUL. -/
theorem cString_of_read {mem : CMemory} {p : Nat} {text : Bytes}
    (range : View.read ⟨p, text.length + 1⟩ mem = text ++ [0])
    : CString mem p (Bytes.before 0 text) := by
  obtain ⟨rest, split⟩ : ∃ rest, mem.drop p = text ++ 0 :: rest := by
    refine ⟨(mem.drop p).drop (text.length + 1), ?_⟩
    have split := List.take_append_drop (text.length + 1) (mem.drop p)
    rw [show (mem.drop p).take (text.length + 1) = text ++ [0] from range] at split
    simpa using split.symm
  rcases Bytes.onwards_cases 0 text with ⟨_, clean⟩ | ⟨tail, _, cut⟩
  · rw [Bytes.before_of_not_mem clean]
    exact .of_drop split clean
  · refine .of_drop (?_ : _ = Bytes.before 0 text ++ 0 :: (tail ++ 0 :: rest))
      (Bytes.not_mem_before 0 text)
    rw [split]
    conv => lhs; rw [cut]
    simp

/-- The copy of a string is a C string. -/
theorem cString_strcpy (txt : Bytes) : CString (strcpy txt) 0 (Bytes.before 0 txt) := by
  refine ⟨?_, Bytes.not_mem_before 0 txt⟩
  rw [View.read, strcpy, List.drop_zero]
  exact List.take_of_length_le (by simp)

end CMemory
