import Snowcone.Foundations.BitSets
import Snowcone.Foundations.Decimal

/-! The upload of a filter database: identifiers hold the position of a pattern and its actions,
and they decode as such unless an action or a flag is listed twice.
-/

namespace Snowcone.Sending.Filterdb

open Bytes BitSets

/-- An entry of the patterns of a filter database. -/
structure FilterEntry where
  regexp : Option Bytes
  actions : List Bytes
  flags : List Bytes

/-- What a filter database says about the platform. -/
structure FilterPlatform where
  cpuFeatures : Option Bytes
  tune : Option Bytes

/-- A filter database. -/
structure FilterDb where
  patterns : List FilterEntry
  platform : Option FilterPlatform

/-- The tables of `hsfilter` with the numbers of hyperscan. -/
structure HsFilter where
  flags : Bytes → Option Nat
  cpuFeatures : Bytes → Option Nat
  tune : Bytes → Option Nat

/-- `hsfilter.actions` -/
def actions (action : Bytes) : Option Nat :=
  if action = lit "DROP" then some (1 <<< 0)
  else if action = lit "KILL" then some (1 <<< 1)
  else if action = lit "ALARM" then some (1 <<< 2)
  else none

/-- The elements of `exprs`, `flags` and `ids` for a pattern. -/
structure FilterPattern where
  expr : Bytes
  flags : Nat
  id : Nat

/-- What `send_db` is called with. -/
structure FilterUpload where
  patterns : List FilterPattern
  platform : Option (Option Nat × Option Nat)

/-- `assert(table[name], message .. name)` -/
def assertKnown (table : Bytes → Option Nat) (message name : Bytes) : Except Bytes Nat :=
  match table name with
  | some value => .ok value
  | none => .error (message ++ name)

/-- The loops that add up what names stand for. -/
def addAll (table : Bytes → Option Nat) (message : Bytes) (start : Nat) (names : List Bytes)
    : Except Bytes Nat :=
  names.foldlM (fun acc name => do return acc + (← assertKnown table message name)) start

section Upload

variable (hsfilter : HsFilter)

/-- What the loop over the patterns does with one. -/
def uploadPattern (i nextId : Nat) (entry : FilterEntry) : Except Bytes FilterPattern := do
  let id ← addAll actions (lit "bad action: ") nextId entry.actions
  let flags ← addAll hsfilter.flags (lit "bad flag: ") 0 entry.flags
  match entry.regexp with
  | some expr => return { expr, flags, id }
  | none => .error (lit "missing regexp at index " ++ Decimal.digitsOf i)

/-- The loop over the patterns. -/
def uploadPatterns : Nat → Nat → List FilterEntry → Except Bytes (List FilterPattern)
  | _, _, [] => .ok []
  | i, nextId, entry :: entries => do
      let pattern ← uploadPattern hsfilter i nextId entry
      let patterns ← uploadPatterns (i + 1) (nextId + 8) entries
      return pattern :: patterns

/-- The numbers for a name that may be there. -/
def assertNamed (table : Bytes → Option Nat) (message : Bytes)
    : Option Bytes → Except Bytes (Option Nat)
  | some name => (assertKnown table message name).map some
  | none => .ok none

/-- `upload_filterdb`, behind reading the file. -/
def uploadFilterdb (db : FilterDb) : Except Bytes FilterUpload := do
  let patterns ← uploadPatterns hsfilter 1 0 db.patterns
  match db.platform with
  | none => return { patterns, platform := none }
  | some platform =>
      let cpuFeatures ←
        assertNamed hsfilter.cpuFeatures (lit "bad cpu_features: ") platform.cpuFeatures
      let tune ← assertNamed hsfilter.tune (lit "bad tune: ") platform.tune
      return { patterns, platform := some (cpuFeatures, tune) }

/-- A number that is stored as `unsigned`; one that does not fit has no defined value there. -/
def toUnsigned (value : Nat) : Option Nat := if value < 2 ^ 32 then some value else none

/-- What `hs_compile_multi` gets for a pattern: its identifier and its flags. -/
def FilterPattern.passed (pattern : FilterPattern) : Option (Nat × Nat) := do
  return (← toUnsigned pattern.id, ← toUnsigned pattern.flags)

end Upload

/-- The bits of a number are what some names stand for. -/
def IsSetOf (table : Bytes → Option Nat) (names : List Bytes) (value : Nat) : Prop :=
  ∀ bit, value.testBit bit = true ↔ ∃ name ∈ names, table name = some (2 ^ bit)

/-- What is passed for an entry says at which position it is and which actions and flags it
lists.
-/
def FilterPattern.Decodes (hsfilter : HsFilter) (position : Nat) (entry : FilterEntry)
    (pattern : FilterPattern) : Prop :=
  ∃ id flags, pattern.passed = some (id, flags) ∧ id / 8 = position
    ∧ IsSetOf actions entry.actions (id % 8) ∧ IsSetOf hsfilter.flags entry.flags flags

/-- What should be passed: different identifiers, which decode. -/
structure FilterdbMeets (hsfilter : HsFilter) (entries : List FilterEntry)
    (patterns : List FilterPattern) : Prop where
  distinct : (patterns.map FilterPattern.passed).Pairwise
    fun left right => left.map Prod.fst ≠ right.map Prod.fst
  decodes : ∀ position entry, entries[position]? = some entry
    → ∃ pattern : FilterPattern, patterns[position]? = some pattern
      ∧ pattern.Decodes hsfilter position entry

/-- Different names stand for different powers of two, with exponents below a bound. -/
structure IsFlagTable (table : Bytes → Option Nat) (bound : Nat) : Prop where
  power : ∀ name value, table name = some value → ∃ bit < bound, value = 2 ^ bit
  distinct : ∀ name other value, table name = some value → table other = some value
    → name = other

-----------------------------------------------------------------------------------------
-- Names and bits
-----------------------------------------------------------------------------------------

section Names

variable {table : Bytes → Option Nat} {message : Bytes} {names : List Bytes} {bits : List Nat}
  {bound start total' : Nat}

/-- The names stand for the powers of two with these exponents. -/
def Named (table : Bytes → Option Nat) (names : List Bytes) (bits : List Nat) : Prop :=
  names.Forall₂ (fun name bit => table name = some (2 ^ bit)) bits

/-- The three actions and their numbers. -/
theorem actions_cases {action : Bytes} {value : Nat} (isValue : actions action = some value)
    : action = lit "DROP" ∧ value = 2 ^ 0 ∨ action = lit "KILL" ∧ value = 2 ^ 1
      ∨ action = lit "ALARM" ∧ value = 2 ^ 2 := by
  rw [actions] at isValue
  split at isValue
  · next isDrop => exact .inl ⟨isDrop, (Option.some.inj isValue).symm⟩
  · split at isValue
    · next isKill => exact .inr (.inl ⟨isKill, (Option.some.inj isValue).symm⟩)
    · split at isValue
      · next isAlarm => exact .inr (.inr ⟨isAlarm, (Option.some.inj isValue).symm⟩)
      · cases isValue

/-- The actions are three different bits. -/
theorem actions_isFlagTable : IsFlagTable actions 3 where
  power name value isValue := by
    rcases actions_cases isValue with ⟨-, rfl⟩ | ⟨-, rfl⟩ | ⟨-, rfl⟩
    · exact ⟨0, by decide, rfl⟩
    · exact ⟨1, by decide, rfl⟩
    · exact ⟨2, by decide, rfl⟩
  distinct name other value isValue isValue' := by
    rcases actions_cases isValue with ⟨rfl, rfl⟩ | ⟨rfl, rfl⟩ | ⟨rfl, rfl⟩ <;>
      rcases actions_cases isValue' with ⟨rfl, same⟩ | ⟨rfl, same⟩ | ⟨rfl, same⟩ <;>
      first | rfl | cases same

/-- Adding up known names adds their powers of two, by induction on the names. -/
theorem named_of_addAll (isTable : IsFlagTable table bound)
    (added : addAll table message start names = .ok total')
    : ∃ bits, Named table names bits ∧ (∀ bit ∈ bits, bit < bound)
      ∧ total' = start + total bits := by
  induction names generalizing start with
  | nil =>
      obtain rfl := Except.ok.inj added
      exact ⟨[], .nil, nofun, rfl⟩
  | cons name names ih =>
      rw [addAll, List.foldlM_cons, assertKnown] at added
      cases isValue : table name with
      | none =>
          rw [isValue] at added
          cases added
      | some value =>
          rw [isValue] at added
          obtain ⟨bit, isLow, rfl⟩ := isTable.power name value isValue
          obtain ⟨bits, named, areLow, rfl⟩ := ih added
          refine ⟨bit :: bits, .cons isValue named, List.forall_mem_cons.mpr ⟨isLow, areLow⟩, ?_⟩
          rw [total_cons, Nat.add_assoc]

/-- A bit belongs to a name that stands for it, by induction on the names. -/
theorem mem_bits_iff (named : Named table names bits) (bit : Nat)
    : bit ∈ bits ↔ ∃ name ∈ names, table name = some (2 ^ bit) := by
  induction named with
  | nil => simp
  | @cons name other names bits isValue named ih =>
      have here : bit = other ↔ table name = some (2 ^ bit) := by
        rw [isValue, Option.some.injEq]
        constructor
        · rintro rfl
          rfl
        · exact fun same => (Nat.pow_right_injective (Nat.le_refl 2) same).symm
      rw [List.mem_cons, ih, here, List.exists_mem_cons_iff]

/-- The bits of a number are what names stand for, or the exponents of these. -/
theorem isSetOf_iff (named : Named table names bits) {value : Nat}
    : IsSetOf table names value ↔ IsBitSet bits value :=
  forall_congr' fun bit => by rw [mem_bits_iff named bit]

/-- No bit occurs twice if no name does, by induction on the names. -/
theorem nodup_bits_iff (isTable : IsFlagTable table bound) (named : Named table names bits)
    : bits.Nodup ↔ names.Nodup := by
  induction named with
  | nil => simp
  | @cons name bit names bits isValue named ih =>
      have member : bit ∈ bits ↔ name ∈ names := by
        rw [mem_bits_iff named bit]
        constructor
        · rintro ⟨other, isMember, isValue'⟩
          rwa [isTable.distinct name other _ isValue isValue']
        · exact fun isMember => ⟨name, isMember, isValue⟩
      rw [List.nodup_cons, List.nodup_cons, ih, member]

/-- What names add up to is their set exactly if none of them is listed twice. -/
theorem isSetOf_total_iff (isTable : IsFlagTable table bound) (named : Named table names bits)
    : IsSetOf table names (total bits) ↔ names.Nodup := by
  rw [isSetOf_iff named, isBitSet_total_iff, nodup_bits_iff isTable named]

end Names

-----------------------------------------------------------------------------------------
-- Patterns
-----------------------------------------------------------------------------------------

section Patterns

variable {hsfilter : HsFilter} {entries : List FilterEntry} {patterns : List FilterPattern}
  {entry : FilterEntry} {pattern : FilterPattern} {i nextId position : Nat}

/-- What the loop makes of an entry: its actions and flags, added up. -/
def Added (hsfilter : HsFilter) (nextId : Nat) (entry : FilterEntry) (pattern : FilterPattern)
    : Prop :=
  ∃ actionBits flagBits, Named actions entry.actions actionBits
    ∧ pattern.id = nextId + total actionBits
    ∧ Named hsfilter.flags entry.flags flagBits ∧ (∀ bit ∈ flagBits, bit < 32)
    ∧ pattern.flags = total flagBits

/-- One turn of the loop. -/
theorem added_of_uploadPattern (isTable : IsFlagTable hsfilter.flags 32)
    (uploads : uploadPattern hsfilter i nextId entry = .ok pattern)
    : Added hsfilter nextId entry pattern := by
  rw [uploadPattern] at uploads
  cases added : addAll actions (lit "bad action: ") nextId entry.actions with
  | error failure =>
      rw [added] at uploads
      cases uploads
  | ok id =>
      cases flagged : addAll hsfilter.flags (lit "bad flag: ") 0 entry.flags with
      | error failure =>
          rw [added, flagged] at uploads
          cases uploads
      | ok flags =>
          rw [added, flagged] at uploads
          obtain ⟨actionBits, named, -, rfl⟩ := named_of_addAll actions_isFlagTable added
          obtain ⟨flagBits, named', low, rfl⟩ := named_of_addAll isTable flagged
          cases isExpr : entry.regexp with
          | none => simp [isExpr, bind, Except.bind] at uploads
          | some expr =>
              simp only [isExpr, bind, Except.bind, pure, Except.pure, Except.ok.injEq] at uploads
              subst uploads
              exact ⟨actionBits, flagBits, named, rfl, named', low, Nat.zero_add _⟩

/-- The loop handles every entry at its position, by induction on the entries. -/
theorem added_of_uploadPatterns (isTable : IsFlagTable hsfilter.flags 32)
    (uploads : uploadPatterns hsfilter i nextId entries = .ok patterns)
    : patterns.length = entries.length
      ∧ ∀ position entry, entries[position]? = some entry
        → ∃ pattern, patterns[position]? = some pattern
          ∧ Added hsfilter (nextId + 8 * position) entry pattern := by
  induction entries generalizing i nextId patterns with
  | nil =>
      obtain rfl := Except.ok.inj uploads
      exact ⟨rfl, nofun⟩
  | cons entry entries ih =>
      rw [uploadPatterns] at uploads
      cases first : uploadPattern hsfilter i nextId entry with
      | error failure =>
          rw [first] at uploads
          cases uploads
      | ok pattern =>
          cases later : uploadPatterns hsfilter (i + 1) (nextId + 8) entries with
          | error failure =>
              rw [first] at uploads
              simp [bind, Except.bind, later] at uploads
          | ok others =>
              rw [first] at uploads
              simp only [bind, Except.bind, later, pure, Except.pure, Except.ok.injEq] at uploads
              subst uploads
              obtain ⟨sameLength, each⟩ := ih later
              refine ⟨by rw [List.length_cons, List.length_cons, sameLength], ?_⟩
              intro position other isOther
              cases position with
              | zero =>
                  obtain rfl := Option.some.inj isOther
                  exact ⟨pattern, rfl, added_of_uploadPattern isTable first⟩
              | succ position =>
                  obtain ⟨found, isFound, added⟩ := each position other isOther
                  have shifted : nextId + 8 + 8 * position = nextId + 8 * (position + 1) := by omega
                  exact ⟨found, isFound, shifted ▸ added⟩

/-- What is passed for a pattern, where it fits. -/
theorem passed_eq_some_iff {id flags : Nat}
    : pattern.passed = some (id, flags)
      ↔ pattern.id = id ∧ pattern.flags = flags ∧ pattern.id < 2 ^ 32 ∧ pattern.flags < 2 ^ 32 := by
  rw [FilterPattern.passed, toUnsigned, toUnsigned]
  by_cases fits : pattern.id < 2 ^ 32
  · by_cases fits' : pattern.flags < 2 ^ 32
    · rw [if_pos fits, if_pos fits']
      constructor
      · intro same
        obtain ⟨rfl, rfl⟩ := Prod.mk.inj (Option.some.inj same)
        exact ⟨rfl, rfl, fits, fits'⟩
      · rintro ⟨rfl, rfl, -, -⟩
        rfl
    · rw [if_pos fits, if_neg fits']
      exact iff_of_false nofun fun all => fits' all.2.2.2
  · rw [if_neg fits]
    exact iff_of_false nofun fun all => fits all.2.2.1

/-- An identifier decodes if no name is listed twice and the position leaves room for the
actions.
-/
theorem decodes_of_nodup (isTable : IsFlagTable hsfilter.flags 32)
    (added : Added hsfilter (8 * position) entry pattern) (actions : entry.actions.Nodup)
    (flags : entry.flags.Nodup) (inRange : position < 2 ^ 29)
    : pattern.Decodes hsfilter position entry := by
  obtain ⟨actionBits, flagBits, named, isId, named', low, isFlags⟩ := added
  have isActions := (isSetOf_total_iff actions_isFlagTable named).mpr actions
  have areFlags := (isSetOf_total_iff isTable named').mpr flags
  have lowActions : ∀ bit ∈ actionBits, bit < 3 := by
    intro bit member
    obtain ⟨name, -, isValue⟩ := (mem_bits_iff named bit).mp member
    obtain ⟨other, isLow, same⟩ := actions_isFlagTable.power name _ isValue
    rwa [Nat.pow_right_injective (Nat.le_refl 2) same]
  have small : total actionBits < 2 ^ 3 := ((isSetOf_iff named).mp isActions).lt lowActions
  have small' : total flagBits < 2 ^ 32 := ((isSetOf_iff named').mp areFlags).lt low
  refine ⟨pattern.id, pattern.flags, passed_eq_some_iff.mpr ⟨rfl, rfl, by omega, by omega⟩, ?_⟩
  have position' : pattern.id / 8 = position := by omega
  have rest : pattern.id % 8 = total actionBits := by omega
  rw [rest, isFlags]
  exact ⟨position', isActions, areFlags⟩

/-- An identifier that decodes is in range, and no name was listed twice. -/
theorem nodup_of_decodes (isTable : IsFlagTable hsfilter.flags 32)
    (added : Added hsfilter (8 * position) entry pattern)
    (decodes : pattern.Decodes hsfilter position entry)
    : entry.actions.Nodup ∧ entry.flags.Nodup ∧ position < 2 ^ 29 := by
  obtain ⟨actionBits, flagBits, named, isId, named', -, isFlags⟩ := added
  obtain ⟨id, flags, passed, isPosition, isActions, areFlags⟩ := decodes
  obtain ⟨rfl, rfl, inRange, -⟩ := passed_eq_some_iff.mp passed
  have rest : pattern.id % 8 = total actionBits := by omega
  rw [rest] at isActions
  rw [isFlags] at areFlags
  exact ⟨(isSetOf_total_iff actions_isFlagTable named).mp isActions,
    (isSetOf_total_iff isTable named').mp areFlags, by omega⟩

/-- Identifiers that decode are different, since they are at different positions. -/
theorem distinct_of_decodes
    (decodes : ∀ position pattern, patterns[position]? = some pattern
      → ∃ id flags, pattern.passed = some (id, flags) ∧ id / 8 = position)
    : (patterns.map FilterPattern.passed).Pairwise
      fun left right => left.map Prod.fst ≠ right.map Prod.fst := by
  rw [List.pairwise_map, List.pairwise_iff_getElem]
  intro i j inside inside' before same
  obtain ⟨id, flags, passed, isPosition⟩ := decodes i _ (List.getElem?_eq_getElem inside)
  obtain ⟨id', flags', passed', isPosition'⟩ := decodes j _ (List.getElem?_eq_getElem inside')
  rw [passed, passed'] at same
  have sameId : id = id' := Option.some.inj same
  omega

/-- An accepted filter database has only accepted patterns. -/
theorem patterns_of_uploadFilterdb {db : FilterDb} {upload : FilterUpload}
    (accepted : uploadFilterdb hsfilter db = .ok upload)
    : uploadPatterns hsfilter 1 0 db.patterns = .ok upload.patterns := by
  rw [uploadFilterdb] at accepted
  cases uploads : uploadPatterns hsfilter 1 0 db.patterns with
  | error failure =>
      rw [uploads] at accepted
      cases accepted
  | ok patterns =>
      rw [uploads] at accepted
      cases isPlatform : db.platform with
      | none =>
          simp only [isPlatform, bind, Except.bind, pure, Except.pure, Except.ok.injEq] at accepted
          rw [← accepted]
      | some platform =>
          simp only [isPlatform, bind, Except.bind] at accepted
          split at accepted
          · cases accepted
          · split at accepted
            · cases accepted
            · obtain rfl := Except.ok.inj accepted
              rfl

/-- What is passed for an accepted filter database is different for every pattern and decodes as
its position, its actions and its flags exactly if no action and no flag is listed twice for a
pattern and there are at most 2²⁹ of them.
-/
theorem uploadFilterdb_meets_iff (isTable : IsFlagTable hsfilter.flags 32) {db : FilterDb}
    {upload : FilterUpload} (accepted : uploadFilterdb hsfilter db = .ok upload)
    : FilterdbMeets hsfilter db.patterns upload.patterns
      ↔ (∀ entry ∈ db.patterns, entry.actions.Nodup ∧ entry.flags.Nodup)
        ∧ db.patterns.length ≤ 2 ^ 29 := by
  have uploads := patterns_of_uploadFilterdb accepted
  obtain ⟨sameLength, each⟩ := added_of_uploadPatterns isTable uploads
  simp only [Nat.zero_add] at each
  constructor
  · intro meets
    have nodup (position : Nat) (entry : FilterEntry)
        (isEntry : db.patterns[position]? = some entry)
        : entry.actions.Nodup ∧ entry.flags.Nodup ∧ position < 2 ^ 29 := by
      obtain ⟨pattern, isPattern, added⟩ := each position entry isEntry
      obtain ⟨pattern', isPattern', decodes⟩ := meets.decodes position entry isEntry
      obtain rfl := Option.some.inj (isPattern.symm.trans isPattern')
      exact nodup_of_decodes isTable added decodes
    constructor
    · intro entry member
      obtain ⟨position, isEntry⟩ := List.getElem?_of_mem member
      obtain ⟨actions, flags, -⟩ := nodup position entry isEntry
      exact ⟨actions, flags⟩
    · by_contra tooMany
      have inside : 2 ^ 29 < db.patterns.length := Nat.lt_of_not_le tooMany
      obtain ⟨-, -, inRange⟩ := nodup (2 ^ 29) _ (List.getElem?_eq_getElem inside)
      exact Nat.lt_irrefl _ inRange
  · rintro ⟨nodup, fewEnough⟩
    have decodes (position : Nat) (entry : FilterEntry)
        (isEntry : db.patterns[position]? = some entry)
        : ∃ pattern, upload.patterns[position]? = some pattern
          ∧ pattern.Decodes hsfilter position entry := by
      obtain ⟨pattern, isPattern, added⟩ := each position entry isEntry
      obtain ⟨inside, -⟩ := List.getElem?_eq_some_iff.mp isEntry
      obtain ⟨actions, flags⟩ := nodup entry (List.mem_of_getElem? isEntry)
      exact ⟨pattern, isPattern,
        decodes_of_nodup isTable added actions flags (Nat.lt_of_lt_of_le inside fewEnough)⟩
    refine ⟨distinct_of_decodes fun position pattern isPattern => ?_, decodes⟩
    obtain ⟨inside, -⟩ := List.getElem?_eq_some_iff.mp isPattern
    obtain ⟨other, isOther, id, flags, passed, isPosition, -⟩ :=
      decodes position _ (List.getElem?_eq_getElem (sameLength ▸ inside))
    obtain rfl := Option.some.inj (isPattern.symm.trans isOther)
    exact ⟨id, flags, passed, isPosition⟩

/-- Two of the numbers of hyperscan. -/
def hyperscan : HsFilter where
  flags name :=
    if name = lit "HS_FLAG_CASELESS" then some (2 ^ 0)
    else if name = lit "HS_FLAG_DOTALL" then some (2 ^ 1)
    else none
  cpuFeatures := fun _ => none
  tune := fun _ => none

/-- They are different bits. -/
theorem hyperscan_isFlagTable : IsFlagTable hyperscan.flags 32 := by
  have isFlag {name : Bytes} {value : Nat} (isValue : hyperscan.flags name = some value)
      : name = lit "HS_FLAG_CASELESS" ∧ value = 2 ^ 0
        ∨ name = lit "HS_FLAG_DOTALL" ∧ value = 2 ^ 1 := by
    simp only [hyperscan] at isValue
    split at isValue
    · next same => exact .inl ⟨same, (Option.some.inj isValue).symm⟩
    · split at isValue
      · next same => exact .inr ⟨same, (Option.some.inj isValue).symm⟩
      · cases isValue
  constructor
  · intro name value isValue
    rcases isFlag isValue with ⟨-, rfl⟩ | ⟨-, rfl⟩
    · exact ⟨0, by decide, rfl⟩
    · exact ⟨1, by decide, rfl⟩
  · intro name other value isValue isValue'
    rcases isFlag isValue with ⟨rfl, rfl⟩ | ⟨rfl, rfl⟩ <;>
      rcases isFlag isValue' with ⟨rfl, same⟩ | ⟨rfl, same⟩ <;> first | rfl | cases same

/-- Witness: two patterns, with all three actions and with none. -/
theorem uploadFilterdb_meets_iff_witness
    : IsFlagTable hyperscan.flags 32
      ∧ ∃ db upload, uploadFilterdb hyperscan db = .ok upload
        ∧ db.patterns.map FilterEntry.actions
          = [[lit "ALARM", lit "DROP", lit "KILL"], []]
        ∧ FilterdbMeets hyperscan db.patterns upload.patterns := by
  let first : FilterEntry := {
    regexp := some (lit "a"), actions := [lit "ALARM", lit "DROP", lit "KILL"]
    flags := [lit "HS_FLAG_DOTALL"] }
  let second : FilterEntry := { regexp := some (lit "b"), actions := [], flags := [] }
  let db : FilterDb := { patterns := [first, second], platform := none }
  have accepted : ∃ upload, uploadFilterdb hyperscan db = .ok upload := ⟨_, rfl⟩
  obtain ⟨upload, accepted⟩ := accepted
  refine ⟨hyperscan_isFlagTable, db, upload, accepted, rfl, ?_⟩
  refine (uploadFilterdb_meets_iff hyperscan_isFlagTable accepted).mpr ⟨?_, by decide⟩
  intro entry member
  simp only [db, List.mem_cons, List.not_mem_nil, or_false] at member
  rcases member with rfl | rfl
  · exact ⟨by decide +kernel, by decide +kernel⟩
  · exact ⟨List.nodup_nil, List.nodup_nil⟩

/-- A filter database that lists an action twice. -/
def twiceDropped : FilterDb where
  patterns := [{ regexp := some [], actions := [lit "DROP", lit "DROP"], flags := [] }]
  platform := none

/-- Another one, with a second pattern. -/
def twiceAlarmed : FilterDb where
  patterns :=
    [
      { regexp := some [], actions := [lit "ALARM", lit "ALARM"], flags := [] },
      { regexp := some [], actions := [], flags := [] }
    ]
  platform := none

/-- Where it is not so: `DROP` listed twice is passed as `KILL`, and `ALARM` listed twice makes an
identifier that is the one of the next pattern.
-/
theorem uploadFilterdb_counterexample
    : (∃ upload, uploadFilterdb hyperscan twiceDropped = .ok upload
        ∧ upload.patterns.map FilterPattern.passed = [some (2, 0)]
        ∧ ¬ FilterdbMeets hyperscan twiceDropped.patterns upload.patterns)
      ∧ ∃ upload, uploadFilterdb hyperscan twiceAlarmed = .ok upload
        ∧ upload.patterns.map FilterPattern.passed = [some (8, 0), some (8, 0)]
        ∧ ¬ FilterdbMeets hyperscan twiceAlarmed.patterns upload.patterns := by
  constructor
  · have dropped : ∃ upload, uploadFilterdb hyperscan twiceDropped = .ok upload
        ∧ upload.patterns.map FilterPattern.passed = [some (2, 0)] := by
      exact ⟨_, rfl, by decide +kernel⟩
    obtain ⟨upload, accepted, passed⟩ := dropped
    refine ⟨upload, accepted, passed, fun meets => ?_⟩
    obtain ⟨pattern, isPattern, id, flags, isPassed, -, isActions, -⟩ := meets.decodes 0 _ rfl
    have first := congrArg (·[0]?) passed
    rw [List.getElem?_map, isPattern, Option.map_some, isPassed] at first
    obtain ⟨rfl, -⟩ := Prod.mk.inj (Option.some.inj (Option.some.inj first))
    -- the bit of `DROP` is not set in 2
    have isSet := (isActions 0).mpr ⟨lit "DROP", List.mem_cons_self, by decide⟩
    exact absurd isSet (by decide)
  · have alarmed : ∃ upload, uploadFilterdb hyperscan twiceAlarmed = .ok upload
        ∧ upload.patterns.map FilterPattern.passed = [some (8, 0), some (8, 0)] := by
      exact ⟨_, rfl, by decide +kernel⟩
    obtain ⟨upload, accepted, passed⟩ := alarmed
    refine ⟨upload, accepted, passed, fun meets => ?_⟩
    have distinct := meets.distinct
    rw [passed] at distinct
    exact absurd distinct (by decide)

end Patterns

end Snowcone.Sending.Filterdb
