import Snowcone.Configuration.Schema

/-! What a schema says about a value, and that a check accepts only what meets the schema. -/

namespace Snowcone.Configuration

open Bytes Lua

section Accepted

variable {α β : Type} {before after : State}

/-- A sequence raises no error exactly if neither of its parts does. -/
theorem bind_ok_iff {action : Check α} {next : α → Check β} {result : β}
    : (action >>= next) before = .ok result after
      ↔ ∃ value between, action before = .ok value between
        ∧ next value between = .ok result after := by
  change EStateM.bind action next before = _ ↔ _
  rw [EStateM.bind]
  cases outcome : action before with
  | error failure between => simp
  | ok value between =>
      constructor
      · intro isOk
        exact ⟨value, between, rfl, isOk⟩
      · rintro ⟨_, _, ⟨⟩, isOk⟩
        exact isOk

/-- A value that was read from a table without an error. -/
theorem ofExcept_ok_iff {outcome : Except Bytes α} {result : α}
    : (ofExcept outcome : Check α) before = .ok result after
      ↔ outcome = .ok result ∧ before = after := by
  cases outcome with
  | ok value =>
      change EStateM.Result.ok value before = _ ↔ _
      simp
  | error failure =>
      change EStateM.Result.error failure before = _ ↔ _
      simp

/-- Behind a read of a table, the check goes on with what was read. -/
theorem rest_of_read {outcome : Except Bytes α} {next : α → Check β} {result : β}
    (accepted : (ofExcept outcome >>= next) before = .ok result after)
    : ∃ value, outcome = .ok value ∧ next value before = .ok result after := by
  obtain ⟨value, between, isRead, rest⟩ := bind_ok_iff.mp accepted
  obtain ⟨isValue, rfl⟩ := ofExcept_ok_iff.mp isRead
  exact ⟨value, isValue, rest⟩

/-- Behind a read whose outcome is known, the check goes on with it. -/
theorem rest_of_known {outcome : Except Bytes α} {value : α} {next : α → Check β} {result : β}
    (known : outcome = .ok value)
    (accepted : (ofExcept outcome >>= next) before = .ok result after)
    : next value before = .ok result after := by
  obtain ⟨other, isOther, rest⟩ := rest_of_read accepted
  obtain rfl := Except.ok.inj (known.symm.trans isOther)
  exact rest

/-- Below a key the action itself raises no error. -/
theorem ok_of_below {k : Key} {action : Check Unit}
    (accepted : below k action before = .ok () after)
    : ∃ before after, action before = .ok () after := by
  obtain ⟨_, entered, -, rest⟩ := bind_ok_iff.mp accepted
  obtain ⟨_, left, isAccepted, -⟩ := bind_ok_iff.mp rest
  exact ⟨entered, left, isAccepted⟩

/-- A loop raises no error in any of its rounds, by induction on the list. -/
theorem ok_of_forM {list : List α} {action : α → Check Unit}
    (accepted : list.forM action before = .ok () after)
    : ∀ element ∈ list, ∃ before after, action element before = .ok () after := by
  induction list generalizing before with
  | nil => simp
  | cons first rest ih =>
      change (action first >>= fun _ => rest.forM action) before = _ at accepted
      obtain ⟨_, between, isFirst, isRest⟩ := bind_ok_iff.mp accepted
      intro element isIn
      rcases List.mem_cons.mp isIn with rfl | later
      · exact ⟨before, between, isFirst⟩
      · exact ih isRest element later

/-- An attempt without an error is one that raised none. -/
theorem ok_of_attempt {action : Check Unit} (accepted : attempt action before = .ok none after)
    : action before = .ok () after := by
  rw [attempt] at accepted
  cases outcome : action before with
  | ok value between =>
      rw [outcome] at accepted
      cases accepted
      rfl
  | error failure between =>
      rw [outcome] at accepted
      cases accepted

end Accepted

-----------------------------------------------------------------------------------------
-- What a schema says
-----------------------------------------------------------------------------------------

/-- A value, or the lack of one, meets a schema. -/
inductive Meets (heap : Heap) : Value → Option Value → Prop
  | absent {schema} (optional : setting heap schema "required" = .ok none)
    : Meets heap schema none
  | oneOf {schema value offered alternatives alternative}
    (offers : setting heap schema "oneOf" = .ok (some offered))
    (listed : ipairs heap offered = .ok alternatives) (isOffered : alternative ∈ alternatives)
    (meets : Meets heap alternative (some value))
    : Meets heap schema (some value)
  | anything {schema value} (single : setting heap schema "oneOf" = .ok none)
    (untyped : setting heap schema "type" = .ok none)
    : Meets heap schema (some value)
  | typed {schema value} (single : setting heap schema "oneOf" = .ok none)
    (type : setting heap schema "type" = .ok (some (.string (typeName (some value)))))
    (elements : ∀ entries schemaOf element, entries? heap value = some entries
      → setting heap schema "elements" = .ok (some schemaOf)
      → element ∈ sequence entries → Meets heap schemaOf (some element))
    (fields : ∀ entries fields declared field, entries? heap value = some entries
      → setting heap schema "elements" = .ok none
      → setting heap schema "fields" = .ok (some fields)
      → pairs heap fields = .ok declared
      → field ∈ declared → Meets heap field.2 (Lua.get entries field.1))
    (assocs : ∀ entries assocs entry, entries? heap value = some entries
      → setting heap schema "elements" = .ok none → setting heap schema "fields" = .ok none
      → setting heap schema "assocs" = .ok (some assocs)
      → entry ∈ entries → Meets heap entry.2 (Lua.get entries entry.1))
    (pattern : ∀ text pattern, value = .string text
      → setting heap schema "pattern" = .ok (some pattern)
      → findPattern text pattern = .ok true)
    : Meets heap schema (some value)

section Soundness

variable {heap : Heap} {recurse : Value → Option Value → Check Unit}
  {schema value : Value} {before after : State}

/-- Some alternative behind the first one was accepted, by induction on the alternatives. -/
theorem accepted_of_checkLater {path callers : List Key} {message : Bytes}
    {alternatives : List Value}
    (accepted : checkLater recurse value path callers message alternatives before = .ok () after)
    : ∃ alternative ∈ alternatives, ∃ before after,
      recurse alternative (some value) before = .ok () after := by
  induction alternatives generalizing before message with
  | nil =>
      obtain ⟨_, between, -, raised⟩ := bind_ok_iff.mp accepted
      cases raised
  | cons alternative alternatives ih =>
      obtain ⟨_, entered, -, rest⟩ := bind_ok_iff.mp accepted
      obtain ⟨outcome, between, attempted, rest⟩ := bind_ok_iff.mp rest
      cases outcome with
      | none =>
          exact ⟨alternative, List.mem_cons_self, entered, between, ok_of_attempt attempted⟩
      | some failure =>
          obtain ⟨later, isIn, isAccepted⟩ := ih rest
          exact ⟨later, List.mem_cons_of_mem alternative isIn, isAccepted⟩

/-- Some alternative was accepted. -/
theorem accepted_of_checkOneOf {offered : Value}
    (accepted : checkOneOf heap recurse value offered before = .ok () after)
    : ∃ alternatives, ipairs heap offered = .ok alternatives
      ∧ ∃ alternative ∈ alternatives, ∃ before after,
        recurse alternative (some value) before = .ok () after := by
  obtain ⟨text, _, -, rest⟩ := bind_ok_iff.mp accepted
  obtain ⟨alternatives, listed, rest⟩ := rest_of_read rest
  refine ⟨alternatives, listed, ?_⟩
  cases alternatives with
  | nil => cases rest
  | cons alternative alternatives =>
      obtain ⟨_, _, -, rest⟩ := bind_ok_iff.mp rest
      obtain ⟨outcome, between, attempted, rest⟩ := bind_ok_iff.mp rest
      cases outcome with
      | none => exact ⟨alternative, List.mem_cons_self, _, _, ok_of_attempt attempted⟩
      | some failure =>
          obtain ⟨_, _, -, rest⟩ := bind_ok_iff.mp rest
          obtain ⟨later, isIn, isAccepted⟩ := accepted_of_checkLater rest
          exact ⟨later, List.mem_cons_of_mem alternative isIn, isAccepted⟩

/-- The elements of an accepted table were accepted. -/
theorem elements_of_checkTable {entries : List (Key × Value)} {elements element : Value}
    (accepted : checkTable heap recurse schema entries before = .ok () after)
    (isSet : setting heap schema "elements" = .ok (some elements))
    (isIn : element ∈ sequence entries)
    : ∃ before after, recurse elements (some element) before = .ok () after := by
  have rest := rest_of_known isSet accepted
  obtain ⟨_, _, loop, -⟩ := bind_ok_iff.mp rest
  obtain ⟨i, within, rfl⟩ := List.getElem_of_mem isIn
  have listed : ((sequence entries)[i], 1 + i) ∈ (sequence entries).zipIdx 1 :=
    List.mem_zipIdx_iff_le_and_getElem?_sub.mpr (by simp)
  obtain ⟨_, _, isAccepted⟩ := ok_of_forM loop _ listed
  exact ok_of_below isAccepted

/-- The declared fields of an accepted table were accepted. -/
theorem fields_of_checkTable {entries declared : List (Key × Value)} {fields : Value}
    {field : Key × Value}
    (accepted : checkTable heap recurse schema entries before = .ok () after)
    (noElements : setting heap schema "elements" = .ok none)
    (isSet : setting heap schema "fields" = .ok (some fields))
    (listed : pairs heap fields = .ok declared) (isIn : field ∈ declared)
    : ∃ before after, recurse field.2 (Lua.get entries field.1) before = .ok () after := by
  have rest := rest_of_known noElements accepted
  have rest := rest_of_known isSet rest
  have rest := rest_of_known listed rest
  obtain ⟨_, _, loop, -⟩ := bind_ok_iff.mp rest
  obtain ⟨_, _, isAccepted⟩ := ok_of_forM loop field isIn
  exact ok_of_below isAccepted

/-- The associations of an accepted table were accepted. -/
theorem assocs_of_checkTable {entries : List (Key × Value)} {assocs : Value}
    {entry : Key × Value}
    (accepted : checkTable heap recurse schema entries before = .ok () after)
    (noElements : setting heap schema "elements" = .ok none)
    (noFields : setting heap schema "fields" = .ok none)
    (isSet : setting heap schema "assocs" = .ok (some assocs)) (isIn : entry ∈ entries)
    : ∃ before after, recurse entry.2 (Lua.get entries entry.1) before = .ok () after := by
  have rest := rest_of_known noElements accepted
  have rest := rest_of_known noFields rest
  have rest := rest_of_known isSet rest
  obtain ⟨_, _, isAccepted⟩ := ok_of_forM rest entry isIn
  exact ok_of_below isAccepted

/-- The pattern was found in an accepted text. -/
theorem found_of_checkString {text : Bytes} {pattern : Value}
    (accepted : checkString heap schema text before = .ok () after)
    (isSet : setting heap schema "pattern" = .ok (some pattern))
    : findPattern text pattern = .ok true := by
  have rest := rest_of_known isSet accepted
  obtain ⟨found, isFound, rest⟩ := rest_of_read rest
  cases found with
  | true => exact isFound
  | false =>
      obtain ⟨_, _, -, raised⟩ := bind_ok_iff.mp rest
      cases raised

/-- A type mismatch raises an error. -/
theorem not_accepted_of_mismatch {type : Value}
    : checkType.mismatch value type before ≠ .ok () after := by
  intro accepted
  obtain ⟨_, _, -, raised⟩ := bind_ok_iff.mp accepted
  cases raised

/-- Tables are checked as tables. -/
theorem checkTyped_of_entries {entries : List (Key × Value)}
    (areEntries : entries? heap value = some entries)
    : checkTyped heap recurse schema value = checkTable heap recurse schema entries := by
  simp only [checkTyped, areEntries]

/-- A value that is accepted by the branch for types has the type, and meets what the schema
says about it.
-/
theorem meets_of_checkType {type : Value}
    (single : setting heap schema "oneOf" = .ok none)
    (isSet : setting heap schema "type" = .ok (some type))
    (sound : ∀ schema value before after, recurse schema value before = .ok () after
      → Meets heap schema value)
    (accepted : checkType heap recurse schema value type before = .ok () after)
    : Meets heap schema (some value) := by
  cases type
  case string name =>
    change (if name = typeName (some value) then checkTyped heap recurse schema value
      else checkType.mismatch value (.string name)) before = _ at accepted
    by_cases isType : name = typeName (some value)
    case neg =>
      rw [if_neg isType] at accepted
      exact absurd accepted not_accepted_of_mismatch
    case pos =>
      rw [if_pos isType] at accepted
      subst isType
      refine .typed single isSet ?_ ?_ ?_ ?_
      · intro entries schemaOf element areEntries elements isIn
        rw [checkTyped_of_entries areEntries] at accepted
        obtain ⟨_, _, isAccepted⟩ := elements_of_checkTable accepted elements isIn
        exact sound _ _ _ _ isAccepted
      · intro entries fields declared field areEntries noElements areFields listed isIn
        rw [checkTyped_of_entries areEntries] at accepted
        obtain ⟨_, _, isAccepted⟩ :=
          fields_of_checkTable accepted noElements areFields listed isIn
        exact sound _ _ _ _ isAccepted
      · intro entries assocs entry areEntries noElements noFields areAssocs isIn
        rw [checkTyped_of_entries areEntries] at accepted
        obtain ⟨_, _, isAccepted⟩ :=
          assocs_of_checkTable accepted noElements noFields areAssocs isIn
        exact sound _ _ _ _ isAccepted
      · rintro text pattern rfl isPattern
        exact found_of_checkString accepted isPattern
  all_goals exact absurd accepted not_accepted_of_mismatch

/-- Soundness: a value that is accepted meets the schema, by induction on the depth. -/
theorem meets_of_check {depth : Nat} {value : Option Value}
    (accepted : check heap depth schema value before = .ok () after)
    : Meets heap schema value := by
  induction depth generalizing schema value before after with
  | zero => cases accepted
  | succ depth ih =>
      cases value with
      | none =>
          obtain ⟨required, isSet, rest⟩ := rest_of_read accepted
          cases required with
          | none => exact .absent isSet
          | some required =>
              obtain ⟨_, _, -, raised⟩ := bind_ok_iff.mp rest
              cases raised
      | some value =>
          obtain ⟨offers, isSet, rest⟩ := rest_of_read accepted
          cases offers with
          | some offered =>
              obtain ⟨alternatives, listed, alternative, isOffered, _, _, isAccepted⟩ :=
                accepted_of_checkOneOf rest
              exact .oneOf isSet listed isOffered (ih isAccepted)
          | none =>
              obtain ⟨type, isType, rest⟩ := rest_of_read rest
              cases type with
              | none => exact .anything isSet isType
              | some type =>
                  exact meets_of_checkType isSet isType (fun _ _ _ _ => ih) rest

end Soundness

end Snowcone.Configuration
