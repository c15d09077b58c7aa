import Mathlib.Algebra.Order.Group.Unbundled.Int
import Mathlib.Data.Int.ModEq
import Mathlib.Tactic.Ring
import Snowcone.Components.OrderedMapRefinement

/-! The window through which the newest entries of an ordered map are shown, and what its rows
are.
-/

namespace Snowcone.Components.RotatingWindow

open Function

/-- What is shown in a row. -/
inductive Row (V : Type) where
  | entry (val : V)
  | divider

/-- `window` -/
abbrev Window (V : Type) := Int → Option (Row V)

section Drawing

variable {K V : Type}

/-- `not predicate or predicate(entry)` -/
def accepts (predicate : Option (V → Bool)) (entry : V) : Bool :=
  match predicate with
  | none => true
  | some p => p entry

/-- The row of the `n`th entry. -/
def rowAt (divider rows n : Int) : Int := (divider - 1 - n) % rows + 1

/-- The loop over the entries, which saves a row for the divider. -/
def fill (divider rows : Int) (predicate : Option (V → Bool))
    : List (V × Option K) → Nat → Window V → Window V
  | [], _, window => window
  | (entry, _) :: entries, n, window =>
      if rows ≤ n + 1 then window
      else if accepts predicate entry then
        fill divider rows predicate entries (n + 1)
          (update window (rowAt divider rows n) (some (.entry entry)))
      else fill divider rows predicate entries n window

/-- `rotating_window` of an ordered map and its `pin`: the window, and what becomes of both. The
pin is never ahead of the ticker.
-/
def rotatingWindow (scroll : Nat) (source : OrderedMap K V) (pin : Option Nat) (rows : Int)
    (predicate : Option (V → Bool)) : Option (Window V × OrderedMap K V × Option Nat) := do
  let source := { source with predicate }
  let (pin, offset, divider) :=
    if 0 < scroll then
      let pin := pin.getD source.ticker
      (some pin, scroll + source.ticker - pin, rows - 1)
    else (none, 0, (source.ticker : Int))
  if rows ≤ 0 then return (fun _ => none, source, pin)
  else
    let entries ← source.each (some offset)
    let window := fill divider rows predicate entries 0 (fun _ => none)
    return (update window (divider % rows + 1) (some .divider), source, pin)

-----------------------------------------------------------------------------------------
-- Sources
-----------------------------------------------------------------------------------------

/-- What windows are drawn of: an ordered map that represents a history, and its pin. -/
structure Source (K V : Type) where
  map : OrderedMap K V
  pin : Option Nat
  history : History K V
  represents : Represents map history
  positive : 0 < map.max
  pinned : ∀ ticker ∈ pin, ticker ≤ map.ticker

/-- The entries of a history that a window shows. -/
def shown (rows : Int) (predicate : Option (V → Bool)) (entries : List (Entry K V))
    : List (Entry K V) :=
  (entries.filter (fun entry => accepts predicate entry.val)).take (rows - 1).toNat

namespace Source

variable [DecidableEq K]

/-- A new source. -/
def new (max : Nat) (positive : 0 < max) (keyfn : Option (K → K)) : Source K V where
  map := .new max keyfn none
  pin := none
  history := .empty
  represents := new_represents max keyfn none
  positive := positive
  pinned := nofun

/-- An insertion counts or does not. -/
theorem insert_ticker (map : OrderedMap K V) (key : Option K) (val : V)
    : (map.insert key val).ticker
        = map.ticker + (if accepts map.predicate val then 1 else 0)
      ∧ (map.insert key val).predicate = map.predicate := by
  have overwritten (i : Nat) : (({ map with n := map.n + 1 } : OrderedMap K V).overwrite i).ticker
        = map.ticker
      ∧ (({ map with n := map.n + 1 } : OrderedMap K V).overwrite i).predicate
        = map.predicate := by
    rw [map.overwrite_eq]
    exact ⟨rfl, rfl⟩
  have remembered (i : Nat) (m : OrderedMap K V) : (m.remember key i).ticker = m.ticker
      ∧ (m.remember key i).predicate = m.predicate := by
    cases key <;> exact ⟨rfl, rfl⟩
  obtain ⟨ticker, predicate⟩ := overwritten (map.n % map.max + 1)
  obtain ⟨ticker', predicate'⟩ := remembered (map.n % map.max + 1)
    (({ map with n := map.n + 1 } : OrderedMap K V).overwrite (map.n % map.max + 1))
  simp only [OrderedMap.insert, ticker', predicate', ticker, predicate]
  cases isPredicate : map.predicate with
  | none => exact ⟨rfl, rfl⟩
  | some p =>
      by_cases counted : p val = true <;> simp [counted, accepts]

/-- An insertion. -/
def insert (source : Source K V) (key : Option K) (val : V) : Source K V where
  map := source.map.insert key val
  pin := source.pin
  history := source.history.insert source.map.max source.map.norm key val
  represents := source.represents.insert source.positive key val
  positive := (source.map.insert_inserted key val).max ▸ source.positive
  pinned := fun ticker isPin => by
    rw [(insert_ticker source.map key val).1]
    exact Nat.le_add_right_of_le (source.pinned ticker isPin)

/-- What a window leaves of its source. -/
def drawn (source : Source K V) (scroll : Nat) (predicate : Option (V → Bool)) : Source K V where
  map := { source.map with predicate }
  pin := if 0 < scroll then some (source.pin.getD source.map.ticker) else none
  history := source.history
  represents := {
    source.represents with
    stored := fun i inside => { source.represents.stored i inside with } }
  positive := source.positive
  pinned := by
    intro ticker isPin
    split at isPin
    · cases isPin
      cases isPinned : source.pin with
      | none => exact Nat.le_refl _
      | some earlier => exact source.pinned earlier isPinned
    · cases isPin

end Source

-----------------------------------------------------------------------------------------
-- Rows
-----------------------------------------------------------------------------------------

variable {divider rows : Int} {predicate : Option (V → Bool)}

/-- Rows are counted from one on. -/
theorem rowAt_bounds (hasRows : 0 < rows) (n : Int)
    : 1 ≤ rowAt divider rows n ∧ rowAt divider rows n ≤ rows := by
  have low := Int.emod_nonneg (divider - 1 - n) (Int.ne_of_gt hasRows)
  have high := Int.emod_lt_of_pos (divider - 1 - n) hasRows
  rw [rowAt]
  omega

/-- Entries less than a whole round apart have different rows. -/
theorem rowAt_injective {n m : Int} (near : |n - m| < rows)
    (same : rowAt divider rows n = rowAt divider rows m)
    : n = m := by
  have congruent : (divider - 1 - n) % rows = (divider - 1 - m) % rows := by
    rw [rowAt, rowAt] at same
    omega
  have divides : rows ∣ (divider - 1 - m) - (divider - 1 - n) :=
    Int.ModEq.dvd congruent
  have difference : (divider - 1 - m) - (divider - 1 - n) = n - m := by ring
  rw [difference] at divides
  have none' := Int.eq_zero_of_abs_lt_dvd divides near
  omega

/-- The divider stands in the row behind that of the newest entry. -/
theorem dividerRow_eq (divider rows : Int) : divider % rows + 1 = rowAt divider rows (-1) := by
  rw [rowAt]
  congr 2
  ring

/-- Entries put into their rows, from the `n`th on. -/
def place (divider rows : Int) : List V → Nat → Window V → Window V
  | [], _, window => window
  | entry :: entries, n, window =>
      place divider rows entries (n + 1)
        (update window (rowAt divider rows n) (some (.entry entry)))

/-- A window: entries in their rows, and the divider in its own. -/
def layout (divider rows : Int) (entries : List V) : Window V :=
  update (place divider rows entries 0 (fun _ => none)) (divider % rows + 1) (some .divider)

/-- The loop puts the entries that the predicate accepts into their rows, up to the row that is
saved. By induction on the entries.
-/
theorem fill_eq (entries : List (V × Option K)) (n : Nat) (window : Window V)
    : fill divider rows predicate entries n window
      = place divider rows
          (((entries.map Prod.fst).filter (accepts predicate)).take (rows - 1 - n).toNat) n
          window := by
  induction entries generalizing n window with
  | nil => rw [List.map_nil, List.filter_nil, List.take_nil, fill, place]
  | cons entry entries ih =>
      obtain ⟨entry, key⟩ := entry
      rw [fill]
      by_cases isFull : rows ≤ n + 1
      · have nothing : (rows - 1 - n).toNat = 0 := by omega
        rw [if_pos isFull, nothing, List.take_zero, place]
      · rw [if_neg isFull, List.map_cons]
        by_cases isShown : accepts predicate entry = true
        · have more : (rows - 1 - n).toNat = (rows - 1 - (n + 1 : Nat)).toNat + 1 := by omega
          rw [if_pos isShown, ih, List.filter_cons_of_pos isShown, more, List.take_succ_cons,
            place]
        · rw [if_neg isShown, ih, List.filter_cons_of_neg isShown]

/-- A row in which nothing is put stays as it is, by induction on the entries. -/
theorem place_other {entries : List V} {n : Nat} {window : Window V} {i : Int}
    (isOther : ∀ k < entries.length, i ≠ rowAt divider rows (n + k : Nat))
    : place divider rows entries n window i = window i := by
  induction entries generalizing n window with
  | nil => rfl
  | cons entry entries ih =>
      rw [place, ih]
      · exact update_of_ne (isOther 0 (Nat.zero_lt_succ _)) _ _
      · intro k inside
        have later := isOther (k + 1) (Nat.succ_lt_succ inside)
        rwa [Nat.add_right_comm, Nat.add_assoc]

/-- What is put into a row is there, by induction on the entries. -/
theorem place_at {entries : List V} {n k : Nat} {window : Window V} (inside : k < entries.length)
    (fits : (n + entries.length : Nat) ≤ rows)
    : place divider rows entries n window (rowAt divider rows (n + k : Nat))
      = some (.entry entries[k]) := by
  induction entries generalizing n k window with
  | nil => exact absurd inside (Nat.not_lt_zero k)
  | cons entry entries ih =>
      rw [List.length_cons] at fits
      rw [place]
      cases k with
      | zero =>
          rw [place_other]
          · exact update_self _ _ _
          · intro k inside' same
            have equal := rowAt_injective (by rw [abs_lt]; constructor <;> omega) same
            omega
      | succ k =>
          have index : n + (k + 1) = n + 1 + k := by omega
          rw [index]
          exact ih (Nat.lt_of_succ_lt_succ inside) (by omega)

/-- The row of an entry holds it, or nothing if there are fewer. -/
theorem layout_rowAt {entries : List V} (fits : entries.length ≤ rows - 1) {k : Nat}
    (inside : (k : Int) < rows - 1)
    : layout divider rows entries (rowAt divider rows k) = entries[k]?.map .entry := by
  have notDivider : rowAt divider rows k ≠ divider % rows + 1 := by
    intro same
    rw [dividerRow_eq] at same
    have equal := rowAt_injective (by rw [abs_lt]; constructor <;> omega) same
    omega
  rw [layout, update_of_ne notDivider]
  by_cases isThere : k < entries.length
  · have put := @place_at _ divider rows entries 0 k (fun _ => none) isThere (by omega)
    rw [Nat.zero_add] at put
    rw [put, List.getElem?_eq_getElem isThere]
    rfl
  · rw [place_other, List.getElem?_eq_none (by omega)]
    · rfl
    · intro j inside' same
      have equal := rowAt_injective (by rw [abs_lt]; constructor <;> omega) same
      omega

/-- The divider is in its row. -/
theorem layout_divider (entries : List V)
    : layout divider rows entries (rowAt divider rows (-1)) = some .divider := by
  rw [layout, dividerRow_eq, update_self]

/-- The other rows are empty. -/
theorem layout_other {entries : List V} {i : Int} (notDivider : i ≠ rowAt divider rows (-1))
    (isOther : ∀ k < entries.length, i ≠ rowAt divider rows k)
    : layout divider rows entries i = none := by
  rw [layout, dividerRow_eq, update_of_ne notDivider]
  refine place_other fun k inside => ?_
  rw [Nat.zero_add]
  exact isOther k inside

/-- The rows of a window tell the entries. -/
theorem layout_injective {entries others : List V} (fits : entries.length ≤ rows - 1)
    (otherFits : others.length ≤ rows - 1)
    (same : layout divider rows entries = layout divider rows others)
    : entries = others := by
  refine List.ext_getElem? fun k => ?_
  by_cases inside : (k : Int) < rows - 1
  · have here := congrFun same (rowAt divider rows k)
    rw [layout_rowAt fits inside, layout_rowAt otherFits inside] at here
    exact Option.map_injective (fun _ _ equal => Row.entry.inj equal) here
  · rw [List.getElem?_eq_none (by omega), List.getElem?_eq_none (by omega)]

-----------------------------------------------------------------------------------------
-- The window of a source
-----------------------------------------------------------------------------------------

/-- How many of the newest entries a window skips. -/
def Source.offset (source : Source K V) (scroll : Nat) : Nat :=
  if 0 < scroll then scroll + source.map.ticker - source.pin.getD source.map.ticker else 0

/-- The entries that a window shows. -/
def Source.shown (source : Source K V) (scroll : Nat) (rows : Int)
    (predicate : Option (V → Bool)) : List (Entry K V) :=
  RotatingWindow.shown rows predicate (source.history.entries.drop (source.offset scroll))

/-- There are no more of them than rows besides the divider's. -/
theorem Source.length_shown (source : Source K V) (scroll : Nat)
    (predicate : Option (V → Bool)) (hasRows : 0 < rows)
    : ((source.shown scroll rows predicate).map Entry.val).length ≤ rows - 1 := by
  rw [List.length_map, Source.shown, RotatingWindow.shown, List.length_take]
  omega

/-- The window of a source: the entries that it shows in their rows. -/
theorem Source.rotatingWindow_eq (source : Source K V) (scroll : Nat)
    (predicate : Option (V → Bool)) (hasRows : 0 < rows)
    : rotatingWindow scroll source.map source.pin rows predicate
      = some (layout (if 0 < scroll then rows - 1 else source.map.ticker) rows
            ((source.shown scroll rows predicate).map Entry.val),
          (source.drawn scroll predicate).map, (source.drawn scroll predicate).pin) := by
  have enumerates (offset : Nat) : OrderedMap.each { source.map with predicate } (some offset)
      = some ((source.history.entries.drop offset).map Entry.shown) := by
    rw [List.map_drop]
    exact (source.drawn scroll predicate).represents.each (some offset)
  have filled (divider : Int) (offset : Nat)
      : fill divider rows predicate ((source.history.entries.drop offset).map Entry.shown) 0
          (fun _ => none)
        = place divider rows ((RotatingWindow.shown rows predicate
            (source.history.entries.drop offset)).map Entry.val) 0 (fun _ => none) := by
    rw [fill_eq, List.map_map, RotatingWindow.shown, List.map_take]
    congr 1
    rw [show (rows - 1 - (0 : Nat)) = rows - 1 by omega, show Prod.fst ∘ Entry.shown
      = (Entry.val : Entry K V → V) from rfl, List.filter_map]
    rfl
  have notNone : ¬rows ≤ 0 := by omega
  simp only [rotatingWindow, if_neg notNone, Source.shown, Source.offset, Source.drawn]
  by_cases scrolled : 0 < scroll
  · simp only [if_pos scrolled, enumerates, Option.bind_eq_bind, Option.bind_some, filled]
    rfl
  · simp only [if_neg scrolled, enumerates, Option.bind_eq_bind, Option.bind_some, filled]
    rfl

end Drawing

end Snowcone.Components.RotatingWindow
