import Mathlib.Logic.Relation
import Snowcone.Configuration.Schema
import Snowcone.Foundations.Action

/-! What a check decides: which values conform to a schema, and for which of them the check accepts
just those.
-/

namespace Snowcone.Configuration

open Action Bytes Lua

section Deciding

variable {α : Type} {action : Check Unit} {p q : Prop}

/-- The keys of the path have a text. -/
def Textual (state : State) : Prop := ∀ k ∈ state.path, k.text.isSome

/-- A check accepts if something is the case, and raises an error if it is not. -/
def Decides (action : Check Unit) (p : Prop) : Prop :=
  ∀ before, Textual before →
    ∃ after, Textual after
      ∧ (action before = .ok () after ∧ p ∨ ∃ failure, action before = .error failure after ∧ ¬p)

/-- The same is decided of what is equivalent. -/
theorem Decides.congr (decides : Decides action p) (same : p ↔ q) : Decides action q := by
  rwa [Decides, ← same]

/-- Nothing is wrong. -/
theorem decides_pure : Decides (pure ()) True :=
  fun before textual => ⟨before, textual, .inl ⟨rfl, trivial⟩⟩

/-- An error is raised. -/
theorem decides_throw (failure : Bytes) : Decides (throw failure) False :=
  fun before textual => ⟨before, textual, .inr ⟨failure, rfl, not_false⟩⟩

/-- A sequence decides whether both are the case. -/
theorem Decides.bind {next : Unit → Check Unit} (first : Decides action p)
    (second : p → Decides (next ()) q)
    : Decides (action >>= next) (p ∧ q) := by
  intro before textual
  obtain ⟨between, isTextual, ⟨isOk, holds⟩ | ⟨failure, isError, fails⟩⟩ := first before textual
  · obtain ⟨after, alsoTextual, ⟨isOk', holds'⟩ | ⟨failure, isError, fails⟩⟩ :=
      second holds between isTextual
    · exact ⟨after, alsoTextual, .inl ⟨(bind_of_ok isOk).trans isOk', holds, holds'⟩⟩
    · exact ⟨after, alsoTextual,
        .inr ⟨failure, (bind_of_ok isOk).trans isError, fun both => fails both.2⟩⟩
  · exact ⟨between, isTextual, .inr ⟨failure, bind_of_error isError, fun both => fails both.1⟩⟩

/-- The state is read first. -/
theorem decides_get {next : State → Check Unit}
    (rest : ∀ state, Textual state → Decides (next state) p)
    : Decides (get >>= next) p :=
  fun before textual => rest before textual before textual

/-- A table is read first. -/
theorem decides_read {outcome : Except Bytes α} {value : α} {next : α → Check Unit}
    (known : outcome = .ok value) (rest : Decides (next value) p)
    : Decides (ofExcept outcome >>= next) p := by
  subst known
  exact rest

/-- Reading a table raises an error. -/
theorem decides_read_error {outcome : Except Bytes α} {failure : Bytes} {next : α → Check Unit}
    (known : outcome = .error failure)
    : Decides (ofExcept outcome >>= next) False := by
  subst known
  exact decides_throw failure

/-- Keys that have a text have them all, by induction on the keys. -/
theorem exists_texts {keys : List Key} (texts : ∀ k ∈ keys, k.text.isSome)
    : ∃ texts, keys.mapM Key.text = some texts := by
  induction keys with
  | nil => exact ⟨[], rfl⟩
  | cons k keys ih =>
      obtain ⟨first, isFirst⟩ := Option.isSome_iff_exists.mp (texts k List.mem_cons_self)
      obtain ⟨rest, isRest⟩ := ih fun other member => texts other (List.mem_cons_of_mem k member)
      exact ⟨first :: rest, by rw [List.mapM_cons, isFirst, isRest]; rfl⟩

/-- The text of the path is made first. -/
theorem decides_pathText {next : Bytes → Check Unit} (rest : ∀ text, Decides (next text) p)
    : Decides (pathText >>= next) p := by
  intro before textual
  obtain ⟨texts, isTexts⟩ := exists_texts textual
  have isText : pathText before = .ok (texts.intersperse (lit ".")).flatten before := by
    rw [pathText, get_bind, isTexts]
    rfl
  rw [bind_of_ok isText]
  exact rest _ before textual

/-- The path is replaced first. -/
theorem decides_setPath {path : List Key} {next : Unit → Check Unit}
    (texts : ∀ k ∈ path, k.text.isSome) (rest : Decides (next ()) p)
    : Decides (setPath path >>= next) p :=
  fun before _ => rest { before with path } texts

/-- The path is replaced at the end. -/
theorem decides_setPath_last {path : List Key} (texts : ∀ k ∈ path, k.text.isSome)
    : Decides (setPath path) True :=
  fun before _ => ⟨{ before with path }, texts, .inl ⟨rfl, trivial⟩⟩

/-- Below a key that has a text, the same is decided. -/
theorem Decides.below {k : Key} (text : k.text.isSome) (decides : Decides action p)
    : Decides (below k action) p := by
  intro before textual
  have entered : Textual { before with path := before.path ++ [k] } := by
    intro other member
    rcases List.mem_append.mp member with isOld | isNew
    · exact textual other isOld
    · rwa [List.mem_singleton.mp isNew]
  have enters : Configuration.below k action before
      = (action >>= fun _ => modify (fun state => { state with path := state.path.dropLast }))
        { before with path := before.path ++ [k] } :=
    modify_bind
  obtain ⟨after, isTextual, ⟨isOk, holds⟩ | ⟨failure, isError, fails⟩⟩ := decides _ entered
  · refine ⟨{ after with path := after.path.dropLast },
      fun other member => isTextual other (List.dropLast_subset _ member), .inl ⟨?_, holds⟩⟩
    rw [enters, bind_of_ok isOk]
    rfl
  · exact ⟨after, isTextual, .inr ⟨failure, enters.trans (bind_of_error isError), fails⟩⟩

/-- A loop decides whether something is the case for all elements. It gets to those of which it is
the case for all before them. By induction on the list.
-/
theorem decides_forM {list : List α} {round : α → Check Unit} {p : α → Prop}
    (each : ∀ before element after, list = before ++ element :: after
      → (∀ other ∈ before, p other) → Decides (round element) (p element))
    : Decides (list.forM round) (∀ element ∈ list, p element) := by
  induction list with
  | nil => exact decides_pure.congr (by simp)
  | cons element rest ih =>
      have first := each [] element rest rfl nofun
      have later (holds : p element) : Decides (rest.forM round) (∀ other ∈ rest, p other) := by
        refine ih fun before other after isSplit earlier => ?_
        exact each (element :: before) other after (congrArg _ isSplit)
          (List.forall_mem_cons.mpr ⟨holds, earlier⟩)
      exact (@Decides.bind _ _ _ (fun _ => rest.forM round) first later).congr
        List.forall_mem_cons.symm

/-- An attempt goes on in one way or the other. -/
theorem Decides.attempt {next : Option Bytes → Check Unit} (decides : Decides action p)
    (accepted : p → Decides (next none) q)
    (rejected : ¬p → ∀ failure, Decides (next (some failure)) q)
    : Decides (attempt action >>= next) q := by
  intro before textual
  obtain ⟨after, isTextual, ⟨isOk, holds⟩ | ⟨failure, isError, fails⟩⟩ := decides before textual
  · have attempted : Configuration.attempt action before = .ok none after := by
      rw [Configuration.attempt, isOk]
    rw [bind_of_ok attempted]
    exact accepted holds after isTextual
  · have attempted : Configuration.attempt action before = .ok (some failure) after := by
      rw [Configuration.attempt, isError]
    rw [bind_of_ok attempted]
    exact rejected fails failure after isTextual

end Deciding

-----------------------------------------------------------------------------------------
-- Schemas and the values that conform to them
-----------------------------------------------------------------------------------------

/-- A schema: a table whose parts are as they should be, to any depth. -/
inductive IsSchema (heap : Heap) : Value → Prop
  | mk {schema : Value} (readable : ∀ name, ∃ part, setting heap schema name = .ok part)
    (offers : ∀ offered, setting heap schema "oneOf" = .ok (some offered)
      → ∃ alternatives, ipairs heap offered = .ok alternatives)
    (alternatives : ∀ offered alternatives alternative,
      setting heap schema "oneOf" = .ok (some offered) → ipairs heap offered = .ok alternatives
      → alternative ∈ alternatives → IsSchema heap alternative)
    (types : ∀ type, setting heap schema "type" = .ok (some type) → ∃ name, type = .string name)
    (elements : ∀ element, setting heap schema "elements" = .ok (some element)
      → IsSchema heap element)
    (declares : ∀ fields, setting heap schema "fields" = .ok (some fields)
      → ∃ declared, pairs heap fields = .ok declared ∧ ∀ field ∈ declared, field.1.text.isSome)
    (fields : ∀ fields declared field, setting heap schema "fields" = .ok (some fields)
      → pairs heap fields = .ok declared → field ∈ declared → IsSchema heap field.2)
    (assocs : ∀ assoc, setting heap schema "assocs" = .ok (some assoc) → IsSchema heap assoc)
    : IsSchema heap schema

/-- A value conforms to a schema: it is there if it is required, it meets an alternative, it has
the type, its text has the pattern, and its elements, fields and associations conform to theirs.
-/
inductive Conforms (heap : Heap) : Value → Option Value → Prop
  | absent {schema : Value} (optional : setting heap schema "required" = .ok none)
    : Conforms heap schema none
  | present {schema value : Value} (alternative : Value)
    (isOffered : ∀ offered alternatives, setting heap schema "oneOf" = .ok (some offered)
      → ipairs heap offered = .ok alternatives → alternative ∈ alternatives)
    (oneOf : ∀ offered, setting heap schema "oneOf" = .ok (some offered)
      → Conforms heap alternative (some value))
    (type : ∀ type, setting heap schema "type" = .ok (some type)
      → type = .string (typeName (some value)))
    (pattern : ∀ text pattern, setting heap schema "pattern" = .ok (some pattern)
      → value = .string text → findPattern text pattern = .ok true)
    (elements : ∀ elements entries element, setting heap schema "elements" = .ok (some elements)
      → entries? heap value = some entries → element ∈ sequence entries
      → Conforms heap elements (some element))
    (fields : ∀ fields declared entries field, setting heap schema "fields" = .ok (some fields)
      → pairs heap fields = .ok declared → entries? heap value = some entries
      → field ∈ declared → Conforms heap field.2 (Lua.get entries field.1))
    (assocs : ∀ assocs entries entry, setting heap schema "assocs" = .ok (some assocs)
      → entries? heap value = some entries → entry ∈ entries
      → Conforms heap assocs (some entry.2))
    : Conforms heap schema (some value)

section Meaning

variable (heap : Heap) (schema value : Value)

/-- A value has the type that a schema names. -/
def TypeMet : Prop :=
  ∀ type, setting heap schema "type" = .ok (some type) → type = .string (typeName (some value))

/-- A text has the pattern of a schema. -/
def PatternMet : Prop :=
  ∀ text pattern, setting heap schema "pattern" = .ok (some pattern) → value = .string text
    → findPattern text pattern = .ok true

/-- The elements of a table conform to their schema. -/
def ElementsConform : Prop :=
  ∀ elements entries element, setting heap schema "elements" = .ok (some elements)
    → entries? heap value = some entries → element ∈ sequence entries
    → Conforms heap elements (some element)

/-- The declared fields of a table conform to their schemas. -/
def FieldsConform : Prop :=
  ∀ fields declared entries field, setting heap schema "fields" = .ok (some fields)
    → pairs heap fields = .ok declared → entries? heap value = some entries
    → field ∈ declared → Conforms heap field.2 (Lua.get entries field.1)

/-- The associations of a table conform to their schema. -/
def AssocsConform : Prop :=
  ∀ assocs entries entry, setting heap schema "assocs" = .ok (some assocs)
    → entries? heap value = some entries → entry ∈ entries
    → Conforms heap assocs (some entry.2)

/-- A schema for tables, which has no alternatives. -/
structure ForTables : Prop where
  single : setting heap schema "oneOf" = .ok none
  typed : setting heap schema "type" = .ok (some (.string (lit "table")))

end Meaning

/-- What the check of a value against a schema goes on with: alternatives up to the first that is
met, and elements or fields up to the first that does not conform.
-/
inductive Part (heap : Heap) : Value × Value → Value × Value → Prop
  | alternative {schema value offered alternative : Value} {before after : List Value}
    (offers : setting heap schema "oneOf" = .ok (some offered))
    (listed : ipairs heap offered = .ok (before ++ alternative :: after))
    (unmet : ∀ other ∈ before, ¬ Conforms heap other (some value))
    : Part heap (schema, value) (alternative, value)
  | element {schema value elements element : Value} {entries : List (Key × Value)}
    {before after : List Value} (forTables : ForTables heap schema)
    (isSet : setting heap schema "elements" = .ok (some elements))
    (areEntries : entries? heap value = some entries)
    (areElements : sequence entries = before ++ element :: after)
    (conform : ∀ other ∈ before, Conforms heap elements (some other))
    : Part heap (schema, value) (elements, element)
  | field {schema value fields inner : Value} {entries before after : List (Key × Value)}
    {field : Key × Value} (forTables : ForTables heap schema)
    (noElements : setting heap schema "elements" = .ok none)
    (isSet : setting heap schema "fields" = .ok (some fields))
    (listed : pairs heap fields = .ok (before ++ field :: after))
    (areEntries : entries? heap value = some entries)
    (conform : ∀ other ∈ before, Conforms heap other.2 (Lua.get entries other.1))
    (isThere : Lua.get entries field.1 = some inner)
    : Part heap (schema, value) (field.2, inner)

/-- A value and a schema that are checked as they are meant. If the value meets what is looked at,
it meets what is not looked at as well, and all keys that are shown have a text. Associations are
no tables, and all of them are texts exactly if they conform.
-/
structure Regular (heap : Heap) (schema value : Value) : Prop where
  oneOf : ∀ offered alternatives alternative, setting heap schema "oneOf" = .ok (some offered)
    → ipairs heap offered = .ok alternatives → alternative ∈ alternatives
    → Conforms heap alternative (some value)
    → TypeMet heap schema value ∧ PatternMet heap schema value ∧ ElementsConform heap schema value
      ∧ FieldsConform heap schema value ∧ AssocsConform heap schema value
  untyped : setting heap schema "oneOf" = .ok none → setting heap schema "type" = .ok none
    → PatternMet heap schema value ∧ ElementsConform heap schema value
      ∧ FieldsConform heap schema value ∧ AssocsConform heap schema value
  elements : ForTables heap schema
    → ∀ elements entries, setting heap schema "elements" = .ok (some elements)
      → entries? heap value = some entries → ElementsConform heap schema value
      → FieldsConform heap schema value ∧ AssocsConform heap schema value
        ∧ ∀ entry ∈ entries, entry.1.text.isSome
  fields : ForTables heap schema → setting heap schema "elements" = .ok none
    → ∀ fields entries, setting heap schema "fields" = .ok (some fields)
      → entries? heap value = some entries → FieldsConform heap schema value
      → AssocsConform heap schema value ∧ ∀ entry ∈ entries, entry.1.text.isSome
  assocs : ForTables heap schema → setting heap schema "elements" = .ok none
    → setting heap schema "fields" = .ok none
    → ∀ assocs entries, setting heap schema "assocs" = .ok (some assocs)
      → entries? heap value = some entries
      → (∀ entry ∈ entries, entry.1.text.isSome ∧ entries? heap entry.2 = none)
        ∧ ((∀ entry ∈ entries, ∃ text, entry.2 = .string text) ↔ AssocsConform heap schema value)

/-- A value and a schema that are checked as they are meant, to any depth. -/
def RegularThroughout (heap : Heap) (schema value : Value) : Prop :=
  ∀ part, Relation.ReflTransGen (Part heap) (schema, value) part → Regular heap part.1 part.2

section Checking

variable {heap : Heap} {schema value : Value}

/-- What is true throughout is true of what the check goes on with. -/
theorem RegularThroughout.part {inner : Value × Value}
    (regular : RegularThroughout heap schema value) (isPart : Part heap (schema, value) inner)
    : RegularThroughout heap inner.1 inner.2 :=
  fun other later => regular other (.head isPart later)

/-- A depth that is enough for all schemas of a list, by induction on the list. -/
theorem exists_depth {list : List Value} {p : Nat → Value → Prop}
    (each : ∀ schema ∈ list, ∃ bound, ∀ depth, bound ≤ depth → p depth schema)
    : ∃ bound, ∀ depth, bound ≤ depth → ∀ schema ∈ list, p depth schema := by
  induction list with
  | nil => exact ⟨0, fun _ _ => nofun⟩
  | cons schema list ih =>
      obtain ⟨first, enough⟩ := each schema List.mem_cons_self
      obtain ⟨rest, enoughForRest⟩ := ih fun other member =>
        each other (List.mem_cons_of_mem schema member)
      refine ⟨max first rest, fun depth within => List.forall_mem_cons.mpr ⟨?_, ?_⟩⟩
      · exact enough depth (Nat.le_trans (Nat.le_max_left ..) within)
      · exact enoughForRest depth (Nat.le_trans (Nat.le_max_right ..) within)

/-- Showing what is not expected raises no error, if the keys have a text. -/
theorem decides_showUnexpected {validated : List Key} {entries : List (Key × Value)}
    (texts : ∀ entry ∈ entries, entry.1.text.isSome)
    : Decides (showUnexpected validated entries) True := by
  refine (decides_forM (p := fun _ => True) fun before entry after isSplit _ => ?_).congr (by simp)
  have member : entry ∈ entries := isSplit ▸ List.mem_append_right before List.mem_cons_self
  obtain ⟨k, v⟩ := entry
  dsimp only
  split
  · exact decides_pure
  · refine Decides.below (texts _ member) (decides_pathText fun text => ?_)
    exact fun before textual =>
      ⟨{ before with statuses := before.statuses ++ [lit "Unexpected field " ++ text] }, textual,
        .inl ⟨rfl, trivial⟩⟩

variable {recurse : Value → Option Value → Check Unit}

/-- The alternatives behind the first one are tried, by induction on them. -/
theorem decides_checkLater {path callers : List Key} {message : Bytes} {alternatives : List Value}
    {p : Value → Prop} (texts : ∀ k ∈ path, k.text.isSome)
    (callersTexts : ∀ k ∈ callers, k.text.isSome)
    (each : ∀ before alternative after, alternatives = before ++ alternative :: after
      → (∀ other ∈ before, ¬ p other) → Decides (recurse alternative (some value)) (p alternative))
    : Decides (checkLater recurse value path callers message alternatives)
        (∃ alternative ∈ alternatives, p alternative) := by
  induction alternatives generalizing message with
  | nil => exact decides_setPath callersTexts ((decides_throw message).congr (by simp))
  | cons alternative alternatives ih =>
      have first := each [] alternative alternatives rfl nofun
      have later (fails : ¬ p alternative) (message : Bytes) := @ih message
        fun before other after isSplit unmet =>
          each (alternative :: before) other after (congrArg _ isSplit)
            (List.forall_mem_cons.mpr ⟨fails, unmet⟩)
      refine decides_setPath texts (first.attempt (fun holds => ?_) fun fails failure => ?_)
      · exact (decides_setPath_last callersTexts).congr
          (iff_of_true trivial ⟨alternative, List.mem_cons_self, holds⟩)
      · exact (later fails _).congr (by simp [fails])

/-- The branch for `oneOf` decides whether some alternative is met. -/
theorem decides_checkOneOf {offered : Value} {alternatives : List Value} {p : Value → Prop}
    (listed : ipairs heap offered = .ok alternatives)
    (each : ∀ before alternative after, alternatives = before ++ alternative :: after
      → (∀ other ∈ before, ¬ p other) → Decides (recurse alternative (some value)) (p alternative))
    : Decides (checkOneOf heap recurse value offered)
        (∃ alternative ∈ alternatives, p alternative) := by
  refine decides_pathText fun text => decides_read listed ?_
  cases alternatives with
  | nil => exact (decides_throw _).congr (by simp)
  | cons alternative alternatives =>
      refine decides_get fun state textual => ?_
      have first := each [] alternative alternatives rfl nofun
      refine first.attempt (fun holds => ?_) fun fails failure => ?_
      · exact decides_pure.congr (iff_of_true trivial ⟨alternative, List.mem_cons_self, holds⟩)
      · refine decides_get fun callers callersTextual => ?_
        refine (decides_checkLater textual callersTextual fun before other after isSplit unmet =>
          each (alternative :: before) other after (congrArg _ isSplit)
            (List.forall_mem_cons.mpr ⟨fails, unmet⟩)).congr ?_
        simp [fails]

/-- The elements of a table are checked. -/
theorem decides_elements {entries : List (Key × Value)} {elements : Value} {p : Value → Prop}
    (isSet : setting heap schema "elements" = .ok (some elements))
    (texts : (∀ element ∈ sequence entries, p element) → ∀ entry ∈ entries, entry.1.text.isSome)
    (each : ∀ before element after, sequence entries = before ++ element :: after
      → (∀ other ∈ before, p other) → Decides (recurse elements (some element)) (p element))
    : Decides (checkTable heap recurse schema entries)
        (∀ element ∈ sequence entries, p element) := by
  have same : (∀ pair ∈ (sequence entries).zipIdx 1, p pair.1)
      ↔ ∀ element ∈ sequence entries, p element := by
    rw [← List.forall_mem_map, List.zipIdx_map_fst]
  refine decides_read isSet ?_
  have loop := @decides_forM _ ((sequence entries).zipIdx 1)
    (fun pair => below (.integer pair.2) (recurse elements (some pair.1)))
    (fun pair => p pair.1) fun before pair after isSplit earlier => by
      refine Decides.below rfl (each (before.map Prod.fst) pair.1 (after.map Prod.fst) ?_
        (List.forall_mem_map.mpr earlier))
      rw [← List.map_cons, ← List.map_append, ← isSplit, List.zipIdx_map_fst]
  refine (loop.bind fun all => decides_showUnexpected (texts (same.mp all))).congr ?_
  rw [and_true, same]

/-- The declared fields of a table are checked. -/
theorem decides_fields {entries declared : List (Key × Value)} {fields : Value}
    {p : Key × Value → Prop}
    (noElements : setting heap schema "elements" = .ok none)
    (isSet : setting heap schema "fields" = .ok (some fields))
    (listed : pairs heap fields = .ok declared)
    (declaredTexts : ∀ field ∈ declared, field.1.text.isSome)
    (texts : (∀ field ∈ declared, p field) → ∀ entry ∈ entries, entry.1.text.isSome)
    (each : ∀ before field after, declared = before ++ field :: after
      → (∀ other ∈ before, p other)
      → Decides (recurse field.2 (Lua.get entries field.1)) (p field))
    : Decides (checkTable heap recurse schema entries) (∀ field ∈ declared, p field) := by
  refine decides_read noElements (decides_read isSet (decides_read listed ?_))
  have loop := @decides_forM _ declared
    (fun field => below field.1 (recurse field.2 (Lua.get entries field.1))) p
    fun before field after isSplit earlier =>
      (each before field after isSplit earlier).below
        (declaredTexts field (isSplit ▸ List.mem_append_right before List.mem_cons_self))
  exact (loop.bind fun all => decides_showUnexpected (texts all)).congr (by rw [and_true])

/-- What is an entry of a table is found there. -/
theorem exists_get {entries : List (Key × Value)} {entry : Key × Value} (member : entry ∈ entries)
    : ∃ inner, Lua.get entries entry.1 = some inner := by
  have found : (entries.find? fun other => other.1 == entry.1).isSome := by
    rw [List.find?_isSome]
    exact ⟨entry, member, beq_self_eq_true _⟩
  obtain ⟨other, isFound⟩ := Option.isSome_iff_exists.mp found
  exact ⟨other.2, by rw [Lua.get, isFound]; rfl⟩

/-- A value that is taken for a schema, and is no table, accepts everything if it is a text; the
others cannot be indexed.
-/
theorem decides_check_own {depth : Nat} {own inner : Value} (noTable : entries? heap own = none)
    : Decides (check heap (depth + 1) own (some inner)) (∃ text, own = .string text) := by
  cases own with
  | string text =>
      refine decides_read rfl (decides_read rfl ?_)
      exact decides_pure.congr (iff_of_true trivial ⟨text, rfl⟩)
  | table entries => cases noTable
  | reference address => cases noTable
  | _ => exact (decides_read_error rfl).congr (by simp)

/-- Associations are checked against themselves. -/
theorem decides_assocs {entries : List (Key × Value)} {assocs : Value}
    (noElements : setting heap schema "elements" = .ok none)
    (noFields : setting heap schema "fields" = .ok none)
    (isSet : setting heap schema "assocs" = .ok (some assocs))
    (plain : ∀ entry ∈ entries, entry.1.text.isSome ∧ entries? heap entry.2 = none)
    (own : ∀ own inner, entries? heap own = none
      → Decides (recurse own (some inner)) (∃ text, own = .string text))
    : Decides (checkTable heap recurse schema entries)
        (∀ entry ∈ entries, ∃ text, entry.2 = .string text) := by
  refine decides_read noElements (decides_read noFields (decides_read isSet ?_))
  refine @decides_forM _ entries (fun entry => below entry.1 (recurse entry.2
    (Lua.get entries entry.1))) _ fun before entry after isSplit _ => ?_
  have member : entry ∈ entries := isSplit ▸ List.mem_append_right before List.mem_cons_self
  obtain ⟨inner, found⟩ := exists_get member
  rw [found]
  exact (own entry.2 inner (plain entry member).2).below (plain entry member).1

/-- Every table is fine for a schema that says nothing about it. -/
theorem decides_unregulated {entries : List (Key × Value)}
    (noElements : setting heap schema "elements" = .ok none)
    (noFields : setting heap schema "fields" = .ok none)
    (noAssocs : setting heap schema "assocs" = .ok none)
    : Decides (checkTable heap recurse schema entries) True :=
  decides_read noElements (decides_read noFields (decides_read noAssocs decides_pure))

/-- The pattern is looked for in a text. -/
theorem decides_checkString {text : Bytes} {pattern : Option Value}
    (isSet : setting heap schema "pattern" = .ok pattern)
    : Decides (checkString heap schema text)
        (∀ expected, pattern = some expected → findPattern text expected = .ok true) := by
  refine decides_read isSet ?_
  cases pattern with
  | none => exact decides_pure.congr (by simp)
  | some expected =>
      cases outcome : findPattern text expected with
      | error failure => exact (decides_read_error outcome).congr (by simp [outcome])
      | ok found =>
          refine decides_read outcome ?_
          cases found with
          | true => exact decides_pure.congr (by simp [outcome])
          | false =>
              exact (decides_pathText fun text => decides_throw _).congr (by simp [outcome])

/-- What is set is not unset. -/
theorem setting_ne {name : String} {part : Value} (isNone : setting heap schema name = .ok none)
    : setting heap schema name ≠ .ok (some part) := by
  rw [isNone]
  nofun

/-- What conforming means for a value that is there, where there are no alternatives. -/
theorem conforms_single_iff (single : setting heap schema "oneOf" = .ok none)
    : Conforms heap schema (some value)
      ↔ TypeMet heap schema value ∧ PatternMet heap schema value
        ∧ ElementsConform heap schema value ∧ FieldsConform heap schema value
        ∧ AssocsConform heap schema value := by
  constructor
  · intro conforms
    cases conforms with
    | present _ _ _ type pattern elements fields assocs =>
        exact ⟨type, pattern, elements, fields, assocs⟩
  · rintro ⟨type, pattern, elements, fields, assocs⟩
    exact .present schema (fun _ _ isSet => absurd isSet (setting_ne single))
      (fun _ isSet => absurd isSet (setting_ne single)) type pattern elements fields assocs

/-- A value that is there conforms to a schema of alternatives if it conforms to one of them. -/
theorem conforms_oneOf_iff {offered : Value} {alternatives : List Value}
    (regular : Regular heap schema value)
    (isSet : setting heap schema "oneOf" = .ok (some offered))
    (listed : ipairs heap offered = .ok alternatives)
    : Conforms heap schema (some value)
      ↔ ∃ alternative ∈ alternatives, Conforms heap alternative (some value) := by
  constructor
  · intro conforms
    cases conforms with
    | present alternative isOffered oneOf _ _ _ _ _ =>
        exact ⟨alternative, isOffered _ _ isSet listed, oneOf _ isSet⟩
  · rintro ⟨alternative, isOffered, conforms⟩
    obtain ⟨type, pattern, elements, fields, assocs⟩ :=
      regular.oneOf offered alternatives alternative isSet listed isOffered conforms
    refine .present alternative (fun _ _ isSet' listed' => ?_) (fun _ _ => conforms)
      type pattern elements fields assocs
    obtain rfl := Option.some.inj (Except.ok.inj (isSet.symm.trans isSet'))
    obtain rfl := Except.ok.inj (listed.symm.trans listed')
    exact isOffered

/-- What conforming means for elements that have a schema. -/
theorem elementsConform_iff {elements : Value} {entries : List (Key × Value)}
    (isSet : setting heap schema "elements" = .ok (some elements))
    (areEntries : entries? heap value = some entries)
    : ElementsConform heap schema value
      ↔ ∀ element ∈ sequence entries, Conforms heap elements (some element) := by
  constructor
  · exact fun conform element member => conform elements entries element isSet areEntries member
  · intro all _ _ element isSet' areEntries' member
    obtain rfl := Option.some.inj (Except.ok.inj (isSet.symm.trans isSet'))
    obtain rfl := Option.some.inj (areEntries.symm.trans areEntries')
    exact all element member

/-- What conforming means for fields that are declared. -/
theorem fieldsConform_iff {fields : Value} {declared entries : List (Key × Value)}
    (isSet : setting heap schema "fields" = .ok (some fields))
    (listed : pairs heap fields = .ok declared) (areEntries : entries? heap value = some entries)
    : FieldsConform heap schema value
      ↔ ∀ field ∈ declared, Conforms heap field.2 (Lua.get entries field.1) := by
  constructor
  · exact fun conform field member =>
      conform fields declared entries field isSet listed areEntries member
  · intro all _ _ _ field isSet' listed' areEntries' member
    obtain rfl := Option.some.inj (Except.ok.inj (isSet.symm.trans isSet'))
    obtain rfl := Except.ok.inj (listed.symm.trans listed')
    obtain rfl := Option.some.inj (areEntries.symm.trans areEntries')
    exact all field member

/-- The check of a table decides whether it conforms. -/
theorem decides_checkTable {entries : List (Key × Value)}
    (readable : ∀ name, ∃ part, setting heap schema name = .ok part)
    (declares : ∀ fields, setting heap schema "fields" = .ok (some fields)
      → ∃ declared, pairs heap fields = .ok declared ∧ ∀ field ∈ declared, field.1.text.isSome)
    (regular : Regular heap schema value) (forTables : ForTables heap schema)
    (areEntries : entries? heap value = some entries)
    (elements : ∀ elements before element after,
      setting heap schema "elements" = .ok (some elements)
      → sequence entries = before ++ element :: after
      → (∀ other ∈ before, Conforms heap elements (some other))
      → Decides (recurse elements (some element)) (Conforms heap elements (some element)))
    (fields : ∀ fields before field after, setting heap schema "elements" = .ok none
      → setting heap schema "fields" = .ok (some fields)
      → pairs heap fields = .ok (before ++ field :: after)
      → (∀ other ∈ before, Conforms heap other.2 (Lua.get entries other.1))
      → Decides (recurse field.2 (Lua.get entries field.1))
        (Conforms heap field.2 (Lua.get entries field.1)))
    (own : ∀ own inner, entries? heap own = none
      → Decides (recurse own (some inner)) (∃ text, own = .string text))
    : Decides (checkTable heap recurse schema entries)
        (ElementsConform heap schema value ∧ FieldsConform heap schema value
          ∧ AssocsConform heap schema value) := by
  obtain ⟨elements?, isElements⟩ := readable "elements"
  obtain ⟨fields?, isFields⟩ := readable "fields"
  obtain ⟨assocs?, isAssocs⟩ := readable "assocs"
  have noElements (isNone : elements? = none) : ElementsConform heap schema value :=
    fun _ _ _ isSet => absurd isSet (setting_ne (isNone ▸ isElements))
  have noFields (isNone : fields? = none) : FieldsConform heap schema value :=
    fun _ _ _ _ isSet => absurd isSet (setting_ne (isNone ▸ isFields))
  cases elements? with
  | some elementsOf =>
      have meaning := elementsConform_iff isElements areEntries
      have rest := regular.elements forTables _ _ isElements areEntries
      refine (decides_elements isElements (fun all => (rest (meaning.mpr all)).2.2)
        fun before element after => elements _ before element after isElements).congr ?_
      rw [← meaning]
      exact ⟨fun conform => ⟨conform, (rest conform).1, (rest conform).2.1⟩, fun all => all.1⟩
  | none =>
      cases fields? with
      | some fieldsOf =>
          obtain ⟨declared, listed, declaredTexts⟩ := declares _ isFields
          have meaning := fieldsConform_iff isFields listed areEntries
          have rest := regular.fields forTables isElements _ _ isFields areEntries
          refine (decides_fields isElements isFields listed declaredTexts
            (fun all => (rest (meaning.mpr all)).2) fun before field after isSplit =>
              fields _ before field after isElements isFields (isSplit ▸ listed)).congr ?_
          rw [← meaning]
          exact ⟨fun conform => ⟨noElements rfl, conform, (rest conform).1⟩, fun all => all.2.1⟩
      | none =>
          cases assocs? with
          | some assocsOf =>
              obtain ⟨plain, meaning⟩ :=
                regular.assocs forTables isElements isFields _ _ isAssocs areEntries
              refine (decides_assocs isElements isFields isAssocs plain own).congr ?_
              rw [meaning]
              exact ⟨fun conform => ⟨noElements rfl, noFields rfl, conform⟩, fun all => all.2.2⟩
          | none =>
              exact (decides_unregulated isElements isFields isAssocs).congr
                (iff_of_true trivial ⟨noElements rfl, noFields rfl,
                  fun _ _ _ isSet => absurd isSet (setting_ne isAssocs)⟩)

/-- The branches for the types decide what is left of conforming. -/
theorem decides_checkTyped {depth : Nat}
    (readable : ∀ name, ∃ part, setting heap schema name = .ok part)
    (declares : ∀ fields, setting heap schema "fields" = .ok (some fields)
      → ∃ declared, pairs heap fields = .ok declared ∧ ∀ field ∈ declared, field.1.text.isSome)
    (regular : Regular heap schema value) (single : setting heap schema "oneOf" = .ok none)
    (typed : setting heap schema "type" = .ok (some (.string (typeName (some value)))))
    (parts : ∀ inner, Part heap (schema, value) inner
      → Decides (check heap (depth + 1) inner.1 (some inner.2))
        (Conforms heap inner.1 (some inner.2)))
    (absent : ∀ fields declared field, setting heap schema "fields" = .ok (some fields)
      → pairs heap fields = .ok declared → field ∈ declared
      → Decides (check heap (depth + 1) field.2 none) (Conforms heap field.2 none))
    : Decides (checkTyped heap (check heap (depth + 1)) schema value)
        (PatternMet heap schema value ∧ ElementsConform heap schema value
          ∧ FieldsConform heap schema value ∧ AssocsConform heap schema value) := by
  cases areEntries : entries? heap value with
  | some entries =>
      have isTable : checkTyped heap (check heap (depth + 1)) schema value
          = checkTable heap (check heap (depth + 1)) schema entries := by
        simp only [checkTyped, areEntries]
      have forTables : ForTables heap schema := by
        refine ⟨single, typed.trans ?_⟩
        cases value <;> first | rfl | cases areEntries
      rw [isTable]
      refine (decides_checkTable readable declares regular forTables areEntries
        (fun elements before element after isSet areElements conform => parts (elements, element)
          (.element forTables isSet areEntries areElements conform))
        (fun fields before field after noElements isSet listed conform => ?_)
        fun own inner => decides_check_own).congr ?_
      · cases isThere : Lua.get entries field.1 with
        | none =>
            exact absent fields _ field isSet listed
              (List.mem_append_right before List.mem_cons_self)
        | some inner =>
            exact parts (field.2, inner)
              (.field forTables noElements isSet listed areEntries conform isThere)
      · refine ⟨fun all => ⟨?_, all⟩, fun all => all.2⟩
        rintro text pattern - rfl
        cases areEntries
  | none =>
      have rest : ElementsConform heap schema value ∧ FieldsConform heap schema value
          ∧ AssocsConform heap schema value := by
        refine ⟨fun _ entries _ _ isTable => ?_, fun _ _ entries _ _ _ isTable => ?_,
          fun _ entries _ _ isTable => ?_⟩ <;>
          cases areEntries.symm.trans isTable
      cases value with
      | string text =>
          obtain ⟨pattern?, isPattern⟩ := readable "pattern"
          refine Decides.congr (p := ∀ expected, pattern? = some expected →
            findPattern text expected = .ok true) ?_ ?_
          · exact decides_checkString isPattern
          · constructor
            · refine fun all => ⟨?_, rest⟩
              rintro _ pattern isSet ⟨⟩
              exact all pattern (Except.ok.inj (isPattern.symm.trans isSet))
            · intro all expected isExpected
              exact all.1 text expected (isPattern.trans (congrArg _ isExpected)) rfl
      | table entries => cases areEntries
      | reference address => cases areEntries
      | _ => exact decides_pure.congr (iff_of_true trivial ⟨nofun, rest⟩)

/-- The check of a value that is there decides whether it conforms, if the checks of what it goes
on with decide that.
-/
theorem decides_check_some {depth : Nat} (isSchema : IsSchema heap schema)
    (regular : Regular heap schema value)
    (parts : ∀ inner, Part heap (schema, value) inner
      → Decides (check heap (depth + 1) inner.1 (some inner.2))
        (Conforms heap inner.1 (some inner.2)))
    (absent : ∀ fields declared field, setting heap schema "fields" = .ok (some fields)
      → pairs heap fields = .ok declared → field ∈ declared
      → Decides (check heap (depth + 1) field.2 none) (Conforms heap field.2 none))
    : Decides (check heap (depth + 2) schema (some value)) (Conforms heap schema (some value)) := by
  obtain ⟨readable, offers, -, types, -, declares, -, -⟩ := isSchema
  obtain ⟨offered?, isOffered⟩ := readable "oneOf"
  refine decides_read isOffered ?_
  cases offered? with
  | some offered =>
      obtain ⟨alternatives, listed⟩ := offers offered isOffered
      exact (decides_checkOneOf listed fun before alternative after isSplit unmet =>
        parts (alternative, value) (.alternative isOffered (isSplit ▸ listed) unmet)).congr
          (conforms_oneOf_iff regular isOffered listed).symm
  | none =>
      obtain ⟨type?, isType⟩ := readable "type"
      refine Decides.congr ?_ (conforms_single_iff isOffered).symm
      refine decides_read isType ?_
      cases type? with
      | none =>
          exact decides_pure.congr (iff_of_true trivial
            ⟨fun _ isSet => absurd isSet (setting_ne isType), regular.untyped isOffered isType⟩)
      | some type =>
          obtain ⟨name, rfl⟩ := types type isType
          change Decides (if name = typeName (some value) then checkTyped heap
            (check heap (depth + 1)) schema value else checkType.mismatch value (.string name)) _
          by_cases isName : name = typeName (some value)
          · subst isName
            rw [if_pos rfl]
            have typeMet : TypeMet heap schema value := fun type isSet =>
              (Option.some.inj (Except.ok.inj (isType.symm.trans isSet))).symm
            exact (decides_checkTyped readable declares regular isOffered isType parts absent).congr
              ⟨fun all => ⟨typeMet, all⟩, fun all => all.2⟩
          · rw [if_neg isName]
            refine Decides.congr (p := False) (decides_pathText fun text => decides_throw _) ?_
            refine iff_of_false not_false fun all => isName ?_
            exact Value.string.inj (all.1 _ isType)

/-- The check of an absent value decides whether it may be absent. -/
theorem decides_check_none {depth : Nat}
    (readable : ∀ name, ∃ part, setting heap schema name = .ok part)
    : Decides (check heap (depth + 1) schema none) (Conforms heap schema none) := by
  obtain ⟨required?, isRequired⟩ := readable "required"
  refine decides_read isRequired ?_
  cases required? with
  | none => exact decides_pure.congr (iff_of_true trivial (.absent isRequired))
  | some required =>
      refine Decides.congr (p := False) (decides_pathText fun text => decides_throw _) ?_
      refine iff_of_false not_false fun conforms => ?_
      cases conforms with
      | absent optional => exact setting_ne optional isRequired

/-- From some depth on, a check against a schema decides whether values conform that are checked
as they are meant. By induction on the schema.
-/
theorem exists_decides_check (isSchema : IsSchema heap schema)
    : ∃ bound, ∀ depth, bound ≤ depth → ∀ value : Option Value,
      (∀ v ∈ value, RegularThroughout heap schema v)
      → Decides (check heap depth schema value) (Conforms heap schema value) := by
  have whole := isSchema
  induction isSchema with
  | @mk schema readable offers alternatives types elements declares fields assocs
      ofAlternatives ofElements ofFields _ =>
      obtain ⟨offered?, isOffered⟩ := readable "oneOf"
      obtain ⟨elements?, isElements⟩ := readable "elements"
      obtain ⟨fields?, isFields⟩ := readable "fields"
      obtain ⟨first, enough⟩ : ∃ bound, ∀ depth, bound ≤ depth → ∀ offered listed,
          setting heap schema "oneOf" = .ok (some offered) → ipairs heap offered = .ok listed
          → ∀ alternative ∈ listed, ∀ value : Option Value,
            (∀ v ∈ value, RegularThroughout heap alternative v)
            → Decides (check heap depth alternative value) (Conforms heap alternative value) := by
        cases offered? with
        | none => exact ⟨0, fun _ _ _ _ isSet => absurd isSet (setting_ne isOffered)⟩
        | some offered =>
            obtain ⟨listed, isListed⟩ := offers offered isOffered
            obtain ⟨bound, enough⟩ := exists_depth fun alternative member =>
              ofAlternatives _ _ alternative isOffered isListed member
                (alternatives _ _ alternative isOffered isListed member)
            refine ⟨bound, fun depth within offered' listed' isSet isListed' => ?_⟩
            obtain rfl := Option.some.inj (Except.ok.inj (isOffered.symm.trans isSet))
            obtain rfl := Except.ok.inj (isListed.symm.trans isListed')
            exact enough depth within
      obtain ⟨second, enoughForElements⟩ : ∃ bound, ∀ depth, bound ≤ depth → ∀ element,
          setting heap schema "elements" = .ok (some element)
          → ∀ value : Option Value, (∀ v ∈ value, RegularThroughout heap element v)
            → Decides (check heap depth element value) (Conforms heap element value) := by
        cases elements? with
        | none => exact ⟨0, fun _ _ _ isSet => absurd isSet (setting_ne isElements)⟩
        | some element =>
            obtain ⟨bound, enough⟩ := ofElements element isElements (elements element isElements)
            refine ⟨bound, fun depth within element' isSet => ?_⟩
            obtain rfl := Option.some.inj (Except.ok.inj (isElements.symm.trans isSet))
            exact enough depth within
      obtain ⟨third, enoughForFields⟩ : ∃ bound, ∀ depth, bound ≤ depth → ∀ inner declared,
          setting heap schema "fields" = .ok (some inner) → pairs heap inner = .ok declared
          → ∀ field ∈ declared, ∀ value : Option Value,
            (∀ v ∈ value, RegularThroughout heap field.2 v)
            → Decides (check heap depth field.2 value) (Conforms heap field.2 value) := by
        cases fields? with
        | none => exact ⟨0, fun _ _ _ _ isSet => absurd isSet (setting_ne isFields)⟩
        | some inner =>
            obtain ⟨declared, listed, -⟩ := declares inner isFields
            obtain ⟨bound, enough⟩ := @exists_depth (declared.map Prod.snd) _ fun inner member =>
              (List.mem_map.mp member).elim fun field member' => member'.2 ▸
                ofFields _ _ field isFields listed member'.1
                  (fields _ _ field isFields listed member'.1)
            refine ⟨bound, fun depth within inner' declared' isSet listed' field member => ?_⟩
            obtain rfl := Option.some.inj (Except.ok.inj (isFields.symm.trans isSet))
            obtain rfl := Except.ok.inj (listed.symm.trans listed')
            exact enough depth within field.2 (List.mem_map_of_mem member)
      refine ⟨max first (max second third) + 2, fun depth within value regular => ?_⟩
      obtain ⟨depth, rfl⟩ : ∃ less, depth = less + 2 := ⟨depth - 2, by omega⟩
      cases value with
      | none => exact decides_check_none readable
      | some value =>
          have isRegular := regular value rfl
          refine decides_check_some whole (isRegular _ .refl) (fun inner isPart => ?_) ?_
          · have innerRegular : ∀ v ∈ some inner.2, RegularThroughout heap inner.1 v := by
              rintro _ ⟨⟩
              exact isRegular.part isPart
            cases isPart with
            | alternative isSet listed _ =>
                exact enough (depth + 1) (by omega) _ _ isSet listed _
                  (List.mem_append_right _ List.mem_cons_self) _ innerRegular
            | element _ isSet _ _ _ =>
                exact enoughForElements (depth + 1) (by omega) _ isSet _ innerRegular
            | field _ _ isSet listed _ _ _ =>
                exact enoughForFields (depth + 1) (by omega) _ _ isSet listed _
                  (List.mem_append_right _ List.mem_cons_self) _ innerRegular
          · intro fields declared field isSet listed member
            exact enoughForFields (depth + 1) (by omega) _ _ isSet listed field member none nofun

/-- A check accepts a value if and only if it conforms to the schema, to any depth, if what the
check goes on with is checked as it is meant: what is not looked at is met as well, the keys that
are shown have a text, and where associations are checked against themselves this makes no
difference.
-/
theorem check_accepts_iff (heap : Heap) (schema : Value) (isSchema : IsSchema heap schema)
    (value : Option Value) (regular : ∀ v ∈ value, RegularThroughout heap schema v)
    : ∃ bound, ∀ depth, bound ≤ depth → ∀ statuses,
      (∃ after, check heap depth schema value { path := [], statuses } = .ok () after)
        ↔ Conforms heap schema value := by
  obtain ⟨bound, decides⟩ := exists_decides_check isSchema
  refine ⟨bound, fun depth within statuses => ?_⟩
  obtain ⟨after, -, ⟨isOk, holds⟩ | ⟨failure, isError, fails⟩⟩ :=
    decides depth within value regular { path := [], statuses } nofun
  · exact iff_of_true ⟨after, isOk⟩ holds
  · refine iff_of_false ?_ fails
    rintro ⟨other, isOk⟩
    rw [isError] at isOk
    cases isOk

/-- A schema for any table. -/
def anyTable : Value := .table [(key "type", .string (lit "table"))]

/-- A schema for a table of numbers by name. -/
def numbersByName : Value :=
  .table [(key "type", .string (lit "table")),
    (key "assocs", .table [(key "type", .string (lit "number"))])]

/-- A schema for any table, or one of numbers. -/
def tableOrNumbers : Value :=
  .table [(key "oneOf", .table [(.integer 1, anyTable), (.integer 2, numbersByName)])]

/-- A table with a number. -/
def numberByName : Value := .table [(key "x", .integer 1)]

/-- A table is a table. -/
theorem conforms_anyTable : Conforms (fun _ => []) anyTable (some numberByName) := by
  refine .present anyTable nofun nofun ?_ nofun nofun nofun nofun
  rintro _ ⟨⟩
  rfl

/-- Witness: the alternative for numbers is not reached, as any table is fine. -/
theorem check_accepts_iff_witness
    : IsSchema (fun _ => []) tableOrNumbers
      ∧ RegularThroughout (fun _ => []) tableOrNumbers numberByName
      ∧ ∃ bound, ∀ depth, bound ≤ depth → ∀ statuses,
        (∃ after, check (fun _ => []) depth tableOrNumbers (some numberByName)
            { path := [], statuses } = .ok () after)
          ↔ Conforms (fun _ => []) tableOrNumbers (some numberByName) := by
  have isTable : IsSchema (fun _ => []) anyTable := by
    refine .mk (fun _ => ⟨_, rfl⟩) nofun nofun ?_ nofun nofun nofun nofun
    rintro _ ⟨⟩
    exact ⟨_, rfl⟩
  have isNumbers : IsSchema (fun _ => []) numbersByName := by
    refine .mk (fun _ => ⟨_, rfl⟩) nofun nofun ?_ nofun nofun nofun ?_
    · rintro _ ⟨⟩
      exact ⟨_, rfl⟩
    · rintro _ ⟨⟩
      refine .mk (fun _ => ⟨_, rfl⟩) nofun nofun ?_ nofun nofun nofun nofun
      rintro _ ⟨⟩
      exact ⟨_, rfl⟩
  have isSchema : IsSchema (fun _ => []) tableOrNumbers := by
    refine .mk (fun _ => ⟨_, rfl⟩) ?_ ?_ nofun nofun nofun nofun nofun
    · rintro _ ⟨⟩
      exact ⟨_, rfl⟩
    · rintro _ alternatives alternative ⟨⟩ ⟨⟩ member
      rcases List.mem_cons.mp member with rfl | isLast
      · exact isTable
      · rw [List.mem_singleton.mp isLast]
        exact isNumbers
  have regular : RegularThroughout (fun _ => []) tableOrNumbers numberByName := by
    intro part reached
    have known : part = (tableOrNumbers, numberByName) ∨ part = (anyTable, numberByName) := by
      induction reached with
      | refl => exact .inl rfl
      | tail _ isPart ih =>
          rcases ih with rfl | rfl
          · cases isPart with
            | @alternative _ _ _ alternative before after offers listed unmet =>
                cases offers
                have two : [anyTable, numbersByName] = before ++ alternative :: after :=
                  Except.ok.inj listed
                cases before with
                | nil => exact .inr (congrArg (·, numberByName) (List.cons.inj two).1.symm)
                | cons first before =>
                    obtain rfl : anyTable = first := (List.cons.inj two).1
                    exact absurd conforms_anyTable (unmet _ List.mem_cons_self)
            | element forTables => cases forTables.typed
            | field forTables => cases forTables.typed
          · cases isPart with
            | alternative offers => cases offers
            | element _ isSet => cases isSet
            | field _ _ isSet => cases isSet
    rcases known with rfl | rfl
    · exact {
        oneOf := fun _ _ _ _ _ _ _ => ⟨nofun, nofun, nofun, nofun, nofun⟩
        untyped := nofun
        elements := fun forTables => nomatch forTables.typed
        fields := fun forTables => nomatch forTables.typed
        assocs := fun forTables => nomatch forTables.typed }
    · exact {
        oneOf := nofun, untyped := nofun, elements := fun _ => nofun, fields := fun _ _ => nofun
        assocs := fun _ _ _ => nofun }
  refine ⟨isSchema, regular, check_accepts_iff _ tableOrNumbers isSchema (some numberByName) ?_⟩
  rintro _ ⟨⟩
  exact regular

/-- A table with a text. -/
def textByName : Value := .table [(key "x", .string (lit "y"))]

/-- Counterexample: a text in the place of a number is accepted. -/
theorem check_accepts_counterexample
    : IsSchema (fun _ => []) numbersByName
      ∧ (∀ depth statuses, ∃ after, check (fun _ => []) (depth + 2) numbersByName (some textByName)
        { path := [], statuses } = .ok () after)
      ∧ ¬Conforms (fun _ => []) numbersByName (some textByName) := by
  refine ⟨?_, fun _ _ => ⟨_, rfl⟩, ?_⟩
  · refine .mk (fun _ => ⟨_, rfl⟩) nofun nofun ?_ nofun nofun nofun ?_
    · rintro _ ⟨⟩
      exact ⟨_, rfl⟩
    · rintro _ ⟨⟩
      refine .mk (fun _ => ⟨_, rfl⟩) nofun nofun ?_ nofun nofun nofun nofun
      rintro _ ⟨⟩
      exact ⟨_, rfl⟩
  · rintro (_ | ⟨_, _, _, _, _, _, _, assocs⟩)
    have conforms := assocs _ _ (key "x", .string (lit "y")) rfl rfl List.mem_cons_self
    cases conforms with
    | present _ _ _ type _ _ _ _ => exact absurd (Value.string.inj (type _ rfl)) (by decide)

end Checking

end Snowcone.Configuration
