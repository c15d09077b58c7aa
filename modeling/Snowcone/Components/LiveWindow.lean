import Mathlib.Data.List.Nodup
import Snowcone.Components.RotatingWindow

/-! A window that is not scrolled: entries stay in their rows while others come in. -/

namespace Snowcone.Components.RotatingWindow

open Function

variable {K V : Type} [DecidableEq K]

/-- The insertions of some values, with keys or without. -/
def Source.inserts (source : Source K V) (values : List (Option K × V)) : Source K V :=
  values.foldl (fun source value => source.insert value.1 value.2) source

/-- A window in which entries stand in rows, which depend on their numbers only: different entries
are in different rows, the divider is in one of its own, and there is nothing else.
-/
structure LaidOut (rows : Int) (window : Window V) (shown : List (Entry K V)) (row : Nat → Int)
    : Prop where
  inside : ∀ entry ∈ shown, 1 ≤ row entry.id ∧ row entry.id ≤ rows
  entries : ∀ entry ∈ shown, window (row entry.id) = some (.entry entry.val)
  distinct : ∀ entry ∈ shown, ∀ other ∈ shown, row entry.id = row other.id → entry = other
  divider : ∃ place, 1 ≤ place ∧ place ≤ rows ∧ window place = some .divider
    ∧ ∀ i, i ≠ place → (∀ entry ∈ shown, i ≠ row entry.id) → window i = none

/-- The entries that a predicate accepts. -/
def matching (predicate : Option (V → Bool)) (entries : List (Entry K V)) : List (Entry K V) :=
  entries.filter (fun entry => accepts predicate entry.val)

/-- Every entry that the predicate accepts has a seat: what the ticker was when it came in. -/
def Seated (seat : Nat → Int) (predicate : Option (V → Bool)) (source : Source K V) : Prop :=
  ∀ (k : Nat) (entry : Entry K V), (matching predicate source.history.entries)[k]? = some entry
    → seat entry.id = source.map.ticker - 1 - k

section Seats

variable {predicate : Option (V → Bool)} {source : Source K V}

omit [DecidableEq K] in
/-- The entries were inserted before. -/
theorem Source.id_lt (source : Source K V) {entry : Entry K V}
    (member : entry ∈ source.history.entries)
    : entry.id < source.history.inserted := by
  obtain ⟨i, _, stored⟩ := source.represents.stored_mem member
  have place := stored.id
  have inserted := source.represents.inserted
  omega

omit [DecidableEq K] in
/-- The entries have different numbers. -/
theorem Source.nodup_id (source : Source K V)
    : (source.history.entries.map Entry.id).Nodup := by
  refine List.nodup_iff_injective_getElem.mpr fun i j same => ?_
  have first := (source.represents.stored i (by simpa using i.isLt)).id
  have second := (source.represents.stored j (by simpa using j.isLt)).id
  simp only [List.getElem_map] at same
  exact Fin.ext (by omega)

omit [DecidableEq K] in
/-- There are seats for the entries of a source. -/
theorem Source.exists_seats (source : Source K V) (predicate : Option (V → Bool))
    : ∃ seat, Seated seat predicate source := by
  have distinct : ((matching predicate source.history.entries).map Entry.id).Nodup :=
    source.nodup_id.sublist (List.filter_sublist.map _)
  refine ⟨fun id => source.map.ticker - 1
    - ((matching predicate source.history.entries).map Entry.id).idxOf id, ?_⟩
  intro k entry isEntry
  obtain ⟨inside, rfl⟩ := List.getElem?_eq_some_iff.mp isEntry
  have index := distinct.idxOf_getElem k (by simpa using inside)
  rw [List.getElem_map] at index
  dsimp only
  rw [index]

/-- A new entry in front, and the others but the oldest beyond the capacity. -/
theorem Source.insert_entries (source : Source K V) (key : Option K) (val : V)
    : (source.insert key val).history.entries
      = { id := source.history.inserted, key, val }
        :: source.history.entries.take (source.map.max - 1) :=
  rfl

/-- An insertion keeps the seats, and gives the new entry the next one. -/
theorem Seated.insert {seat : Nat → Int} (seated : Seated seat predicate source)
    (isPredicate : source.map.predicate = predicate) (key : Option K) (val : V)
    : Seated (update seat source.history.inserted source.map.ticker) predicate
        (source.insert key val) := by
  have ticker : (source.insert key val).map.ticker
      = source.map.ticker + (if accepts predicate val then 1 else 0) := by
    rw [← isPredicate]
    exact (Source.insert_ticker source.map key val).1
  have earlier {k : Nat} {entry : Entry K V}
      (isEntry : (matching predicate (source.history.entries.take (source.map.max - 1)))[k]?
        = some entry)
      : update seat source.history.inserted source.map.ticker entry.id
        = source.map.ticker - 1 - k := by
    have isOld : entry ∈ source.history.entries :=
      List.mem_of_mem_take (List.mem_of_mem_filter (List.mem_of_getElem? isEntry))
    rw [update_of_ne (Nat.ne_of_lt (source.id_lt isOld))]
    refine seated k entry ?_
    have isPrefix : matching predicate (source.history.entries.take (source.map.max - 1))
        <+: matching predicate source.history.entries :=
      (List.take_prefix _ _).filter _
    obtain ⟨inside, rfl⟩ := List.getElem?_eq_some_iff.mp isEntry
    rw [isPrefix.getElem inside]
    exact List.getElem?_eq_getElem _
  intro k entry isEntry
  have front : matching predicate (source.insert key val).history.entries
      = if accepts predicate val
        then { id := source.history.inserted, key, val }
          :: matching predicate (source.history.entries.take (source.map.max - 1))
        else matching predicate (source.history.entries.take (source.map.max - 1)) :=
    List.filter_cons
  rw [front] at isEntry
  rw [ticker]
  by_cases isShown : accepts predicate val = true
  · rw [if_pos isShown] at isEntry ⊢
    cases k with
    | zero =>
        obtain rfl := Option.some.inj isEntry
        rw [update_self]
        omega
    | succ k =>
        rw [earlier isEntry]
        omega
  · rw [if_neg isShown] at isEntry ⊢
    rw [earlier isEntry, Nat.add_zero]

end Seats

section Runs

variable {predicate : Option (V → Bool)}

/-- One more insertion comes last. -/
theorem Source.inserts_concat (source : Source K V) (values : List (Option K × V))
    (value : Option K × V)
    : source.inserts (values ++ [value]) = (source.inserts values).insert value.1 value.2 := by
  rw [inserts, List.foldl_append]
  rfl

/-- Insertions are counted, and keep the predicate. By induction from the last one. -/
theorem Source.inserts_fields (source : Source K V) (values : List (Option K × V))
    : (source.inserts values).history.inserted = source.history.inserted + values.length
      ∧ (source.inserts values).map.predicate = source.map.predicate := by
  induction values using List.reverseRecOn with
  | nil => exact ⟨rfl, rfl⟩
  | append_singleton values value ih =>
      rw [source.inserts_concat, List.length_append, List.length_singleton, ← Nat.add_assoc,
        ← ih.1, ← ih.2]
      exact ⟨rfl, (insert_ticker _ _ _).2⟩

/-- There are seats that are good for a whole run. By induction from the last insertion, which
gives away one more seat.
-/
theorem Source.exists_seats_run (source : Source K V)
    (isPredicate : source.map.predicate = predicate) (values : List (Option K × V))
    : ∃ seat, ∀ n ≤ values.length, Seated seat predicate (source.inserts (values.take n)) := by
  induction values using List.reverseRecOn with
  | nil =>
      obtain ⟨seat, seated⟩ := source.exists_seats predicate
      exact ⟨seat, fun n _ => by rwa [List.take_nil]⟩
  | append_singleton values value ih =>
      obtain ⟨seat, seated⟩ := ih
      obtain ⟨inserted, kept⟩ := source.inserts_fields values
      refine ⟨update seat (source.inserts values).history.inserted
        (source.inserts values).map.ticker, fun n within => ?_⟩
      rw [List.length_append, List.length_singleton] at within
      by_cases isLast : n = values.length + 1
      · have whole : (values ++ [value]).take n = values ++ [value] := by
          rw [isLast, List.take_of_length_le]
          simp
        have before := seated values.length (Nat.le_refl _)
        rw [List.take_length] at before
        rw [whole, source.inserts_concat]
        exact before.insert (kept.trans isPredicate) value.1 value.2
      · have part : (values ++ [value]).take n = values.take n :=
          List.take_append_of_le_length (by omega)
        rw [part]
        intro k entry isEntry
        have isOld : entry ∈ (source.inserts (values.take n)).history.entries :=
          List.mem_of_mem_filter (List.mem_of_getElem? isEntry)
        have earlier := (source.inserts (values.take n)).id_lt isOld
        have count := (source.inserts_fields (values.take n)).1
        rw [List.length_take] at count
        rw [update_of_ne (by omega)]
        exact seated n (by omega) k entry isEntry

omit [DecidableEq K] in
/-- Where the entries have seats, the window lays them out by these. -/
theorem Seated.laidOut {seat : Nat → Int} {source : Source K V} {rows : Int}
    (seated : Seated seat predicate source) (hasRows : 0 < rows)
    : LaidOut rows
        (layout source.map.ticker rows
          ((shown rows predicate source.history.entries).map Entry.val))
        (shown rows predicate source.history.entries) (fun id => seat id % rows + 1) := by
  have fits : ((shown rows predicate source.history.entries).map Entry.val).length ≤ rows - 1 := by
    rw [List.length_map, shown, List.length_take]
    omega
  have row {k : Nat} {entry : Entry K V}
      (isEntry : (shown rows predicate source.history.entries)[k]? = some entry)
      : (k : Int) < rows - 1 ∧ seat entry.id % rows + 1 = rowAt source.map.ticker rows k := by
    have inside := (List.getElem?_eq_some_iff.mp isEntry).1
    rw [List.length_map] at fits
    refine ⟨by omega, ?_⟩
    rw [shown, List.getElem?_take] at isEntry
    split at isEntry
    · rw [seated k entry isEntry, rowAt]
    · cases isEntry
  refine {
    inside := fun entry member => ?_, entries := fun entry member => ?_
    distinct := fun entry member other member' same => ?_
    divider := ⟨rowAt source.map.ticker rows (-1), (rowAt_bounds hasRows _).1,
      (rowAt_bounds hasRows _).2, layout_divider _, fun i notDivider isOther => ?_⟩ }
  · obtain ⟨k, isEntry⟩ := List.mem_iff_getElem?.mp member
    rw [(row isEntry).2]
    exact rowAt_bounds hasRows k
  · obtain ⟨k, isEntry⟩ := List.mem_iff_getElem?.mp member
    obtain ⟨inside, isRow⟩ := row isEntry
    rw [isRow, layout_rowAt fits inside, List.getElem?_map, isEntry]
    rfl
  · obtain ⟨k, isEntry⟩ := List.mem_iff_getElem?.mp member
    obtain ⟨k', isEntry'⟩ := List.mem_iff_getElem?.mp member'
    obtain ⟨inside, isRow⟩ := row isEntry
    obtain ⟨inside', isRow'⟩ := row isEntry'
    have equal := rowAt_injective (by rw [abs_lt]; constructor <;> omega)
      (isRow.symm.trans (same.trans isRow'))
    obtain rfl : k = k' := by omega
    exact Option.some.inj (isEntry.symm.trans isEntry')
  · refine layout_other notDivider fun k inside isRow => ?_
    rw [List.length_map] at inside
    have isEntry := List.getElem?_eq_getElem inside
    exact isOther _ (List.getElem_mem inside) (isRow.trans (row isEntry).2.symm)

/-- In live mode every entry has its row: however many entries come in, the window shows the
newest ones that the predicate accepts and the divider, each in a row of its own, and an entry
that is still shown is in the row in which it was.
-/
theorem live_rows_stay (source : Source K V) (rows : Int) (enough : 2 ≤ rows)
    (predicate : Option (V → Bool)) (values : List (Option K × V))
    : ∃ row : Nat → Int, ∀ n ≤ values.length,
        let now := (source.drawn 0 predicate).inserts (values.take n)
        ∃ window, rotatingWindow 0 now.map now.pin rows predicate = some (window, now.map, none)
          ∧ LaidOut rows window (shown rows predicate now.history.entries) row := by
  obtain ⟨seat, seated⟩ := (source.drawn 0 predicate).exists_seats_run rfl values
  refine ⟨fun id => seat id % rows + 1, fun n within => ?_⟩
  have here := seated n within
  have kept := ((source.drawn 0 predicate).inserts_fields (values.take n)).2
  intro now
  have same : (now.drawn 0 predicate).map = now.map := by
    have isPredicate : now.map.predicate = predicate := kept
    rw [← isPredicate]
    rfl
  refine ⟨_, ?_, here.laidOut (by omega)⟩
  rw [now.rotatingWindow_eq 0 predicate (by omega), same]
  rfl

/-- Witness: three entries come in, of which one is not shown, and the ring holds two. -/
theorem live_rows_stay_witness
    : (2 : Int) ≤ 3 ∧ ∃ row : Nat → Int, ∀ n ≤ [(none, 10), (some 1, 21), (none, 30)].length,
        let now := ((Source.new 2 Nat.zero_lt_two none : Source Nat Nat).drawn 0
          (some (fun val => val % 2 == 0))).inserts
            ([(none, 10), (some 1, 21), (none, 30)].take n)
        ∃ window, rotatingWindow 0 now.map now.pin 3 (some (fun val => val % 2 == 0))
            = some (window, now.map, none)
          ∧ LaidOut 3 window (shown 3 (some (fun val => val % 2 == 0)) now.history.entries) row :=
  ⟨by decide, live_rows_stay (Source.new 2 Nat.zero_lt_two none) 3 (by decide)
    (some (fun val => val % 2 == 0)) [(none, 10), (some 1, 21), (none, 30)]⟩

end Runs

end Snowcone.Components.RotatingWindow
