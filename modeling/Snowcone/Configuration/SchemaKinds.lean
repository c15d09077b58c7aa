import Mathlib.Data.List.Forall2
import Snowcone.Configuration.ConfigurationSchema
import Snowcone.Configuration.Guarantee
import Snowcone.Configuration.SchemaMeaning

/-! The kinds of the values that meet the schema of the configuration. -/

namespace Snowcone.Configuration

open Bytes Lua

section Meaning

variable {heap : Heap} {schema : Value} {value : Value}

/-- A lacking value meets the schemas that require none. -/
theorem meets_none_iff : Meets heap schema none ↔ setting heap schema "required" = .ok none := by
  constructor
  · rintro ⟨⟩
    assumption
  · exact .absent

/-- A schema that requires no value says something about the value that is there. -/
theorem meets_eq_optional (isOptional : setting heap schema "required" = .ok none)
    {kind : Value → Prop} (meets_iff : ∀ value, Meets heap schema (some value) ↔ kind value)
    : Meets heap schema = optional kind := by
  funext value
  cases value with
  | none => simp [optional, meets_none_iff, isOptional]
  | some present => simp [optional, meets_iff]

/-- A schema that requires a value says so. -/
theorem meets_eq_required {flag : Value}
    (isRequired : setting heap schema "required" = .ok (some flag)) {kind : Value → Prop}
    (meets_iff : ∀ value, Meets heap schema (some value) ↔ kind value)
    : Meets heap schema = required kind := by
  funext value
  cases value with
  | none => simp [required, meets_none_iff, isRequired]
  | some present => simp [required, meets_iff]

/-- The type of a value with entries. -/
theorem ofType_table_iff
    : OfType "table" value ↔ ∃ entries, entries? heap value = some entries := by
  cases value <;> simp [OfType, typeName, entries?] <;> decide

/-- The type of a string. -/
theorem ofType_string_iff : OfType "string" value ↔ ∃ text, value = .string text := by
  cases value <;> simp [OfType, typeName] <;> decide

/-- The fields of a table constructor. -/
theorem mem_constructor_iff {fields : List (String × Value)} {field : Key × Value}
    : field ∈ fields.map (fun (name, value) => (key name, value))
      ↔ ∃ named ∈ fields, field = (key named.1, named.2) := by
  rw [List.mem_map]
  exact exists_congr fun named => and_congr_right fun _ => eq_comm

/-- What any schema for a type says. -/
theorem ofType_of_meets {type : String}
    (single : setting heap schema "oneOf" = .ok none)
    (isTyped : setting heap schema "type" = .ok (some (text type)))
    (meets : Meets heap schema (some value))
    : OfType type value := by
  cases meets with
  | oneOf offers => simp [single] at offers
  | anything _ untyped => simp [isTyped] at untyped
  | typed _ isType => simpa [OfType, isTyped, text] using isType.symm

/-- What a schema for a table with fields says. -/
theorem meets_fields_iff {fields : List (String × Value)}
    (single : setting heap schema "oneOf" = .ok none)
    (isTable : setting heap schema "type" = .ok (some (text "table")))
    (noElements : setting heap schema "elements" = .ok none)
    (areFields : setting heap schema "fields" = .ok (some (constructor fields)))
    : Meets heap schema (some value)
      ↔ HasFields heap (fields.map (fun (name, schema) => (name, Meets heap schema))) value := by
  constructor
  · intro meets
    obtain ⟨entries, areEntries⟩ :=
      ofType_table_iff.mp (ofType_of_meets single isTable meets)
    cases meets with
    | oneOf offers => simp [single] at offers
    | anything _ untyped => simp [isTable] at untyped
    | typed _ _ _ ofFields =>
        refine ⟨entries, areEntries, ?_⟩
        rw [List.forall_mem_map]
        intro named isIn
        exact ofFields entries _ _ (key named.1, named.2) areEntries noElements areFields rfl
          (mem_constructor_iff.mpr ⟨named, isIn, rfl⟩)
  · rintro ⟨entries, areEntries, ofFields⟩
    rw [List.forall_mem_map] at ofFields
    have isType : typeName (some value) = lit "table" := ofType_table_iff.mpr ⟨entries, areEntries⟩
    refine .typed single (by rw [isTable, isType]; rfl) ?_ ?_ ?_ ?_
    · simp [noElements]
    · intro others found declared field sameEntries _ isFields listed isIn
      obtain rfl : entries = others := by simpa [areEntries] using sameEntries
      obtain rfl : constructor fields = found := by simpa [areFields] using isFields
      cases listed
      obtain ⟨named, isNamed, rfl⟩ := mem_constructor_iff.mp isIn
      exact ofFields named isNamed
    · simp [areFields]
    · rintro text pattern rfl
      simp [entries?] at areEntries

/-- What a schema for an array says. -/
theorem meets_elements_iff {element : Value}
    (single : setting heap schema "oneOf" = .ok none)
    (isTable : setting heap schema "type" = .ok (some (text "table")))
    (areElements : setting heap schema "elements" = .ok (some element))
    : Meets heap schema (some value)
      ↔ ArrayOf heap (fun element' => Meets heap element (some element')) value := by
  constructor
  · intro meets
    obtain ⟨entries, areEntries⟩ :=
      ofType_table_iff.mp (ofType_of_meets single isTable meets)
    cases meets with
    | oneOf offers => simp [single] at offers
    | anything _ untyped => simp [isTable] at untyped
    | typed _ _ ofElements =>
        exact ⟨entries, areEntries, fun found isIn =>
          ofElements entries element found areEntries areElements isIn⟩
  · rintro ⟨entries, areEntries, ofElements⟩
    have isType : typeName (some value) = lit "table" := ofType_table_iff.mpr ⟨entries, areEntries⟩
    refine .typed single (by rw [isTable, isType]; rfl) ?_ ?_ ?_ ?_
    · intro others schemaOf found sameEntries isElements isIn
      obtain rfl : entries = others := by simpa [areEntries] using sameEntries
      obtain rfl : element = schemaOf := by simpa [areElements] using isElements
      exact ofElements found isIn
    · simp [areElements]
    · simp [areElements]
    · rintro text pattern rfl
      simp [entries?] at areEntries

/-- What a schema for a type says that has no rules for it. -/
theorem meets_type_iff {type : String}
    (single : setting heap schema "oneOf" = .ok none)
    (isTyped : setting heap schema "type" = .ok (some (text type)))
    (noElements : setting heap schema "elements" = .ok none)
    (noFields : setting heap schema "fields" = .ok none)
    (noAssocs : setting heap schema "assocs" = .ok none)
    (noPattern : setting heap schema "pattern" = .ok none)
    : Meets heap schema (some value) ↔ OfType type value := by
  constructor
  · exact ofType_of_meets single isTyped
  · intro isType
    refine .typed single ?_ ?_ ?_ ?_ ?_
    · rw [isTyped, isType]
      rfl
    · simp [noElements]
    · simp [noFields]
    · simp [noAssocs]
    · simp [noPattern]

/-- What a schema for a text without some characters says. -/
theorem textWithout_of_meets (set : String) {forbidden pattern : String}
    (spelled : lit pattern = lit "^[^" ++ lit set ++ lit "]+$") (isSome : lit set ≠ [])
    (plain : ∀ c ∈ lit set, LuaPattern.PlainInSet c)
    (covers : ∀ c ∈ lit forbidden, c ∈ lit set)
    (single : setting heap schema "oneOf" = .ok none)
    (isString : setting heap schema "type" = .ok (some (text "string")))
    (hasPattern : setting heap schema "pattern" = .ok (some (text pattern)))
    (meets : Meets heap schema (some value))
    : TextWithout forbidden value := by
  obtain ⟨subject, rfl⟩ := ofType_string_iff.mp (ofType_of_meets single isString meets)
  cases meets with
  | oneOf offers => simp [single] at offers
  | anything _ untyped => simp [isString] at untyped
  | typed _ _ _ _ _ ofPattern =>
      have isFound : LuaPattern.stringFind subject (lit pattern) = .ok true :=
        ofPattern subject _ rfl hasPattern
      rw [spelled, LuaPattern.stringFind_complement_iff isSome plain] at isFound
      exact ⟨subject, rfl, fun c isIn isForbidden => isFound.1 c isIn (covers c isForbidden)⟩

/-- The texts that the pattern for names allows for. -/
theorem name_of_meets (single : setting heap schema "oneOf" = .ok none)
    (isString : setting heap schema "type" = .ok (some (text "string")))
    (hasPattern : setting heap schema "pattern" = .ok (some (text "^[^\n\r\x00 ]+$")))
    (meets : Meets heap schema (some value))
    : TextWithout " \r\n\x00" value :=
  textWithout_of_meets "\n\r\x00 " (by decide) (by decide) (by decide +kernel)
    (by decide +kernel)
    single isString hasPattern meets

/-- The texts that the pattern for the real name allows for. -/
theorem gecos_of_meets (single : setting heap schema "oneOf" = .ok none)
    (isString : setting heap schema "type" = .ok (some (text "string")))
    (hasPattern : setting heap schema "pattern" = .ok (some (text "^[^\n\r\x00]+$")))
    (meets : Meets heap schema (some value))
    : TextWithout "\r\n\x00" value :=
  textWithout_of_meets "\n\r\x00" (by decide) (by decide) (by decide +kernel)
    (by decide +kernel)
    single isString hasPattern meets

/-- What a schema with alternatives says. -/
theorem meets_oneOf_iff {offered : Value} {alternatives : List Value}
    (offers : setting heap schema "oneOf" = .ok (some offered))
    (listed : ipairs heap offered = .ok alternatives)
    : Meets heap schema (some value)
      ↔ ∃ alternative ∈ alternatives, Meets heap alternative (some value) := by
  constructor
  · intro meets
    cases meets with
    | oneOf offers' listed' isOffered meets =>
        obtain rfl : offered = _ := by simpa [offers] using offers'
        obtain rfl : alternatives = _ := by simpa [listed] using listed'
        exact ⟨_, isOffered, meets⟩
    | anything single => simp [offers] at single
    | typed single => simp [offers] at single
  · rintro ⟨alternative, isOffered, meets⟩
    exact .oneOf offers listed isOffered meets

/-- A schema that is a table without a type or alternatives is met by anything. -/
theorem meets_of_untyped (single : setting heap schema "oneOf" = .ok none)
    (untyped : setting heap schema "type" = .ok none)
    : Meets heap schema (some value) :=
  .anything single untyped

end Meaning

-----------------------------------------------------------------------------------------
-- The parts of the schema
-----------------------------------------------------------------------------------------

section Parts

variable {heap : Heap} {value : Value}

@[simp] theorem meets_table (fields : List (String × Value))
    : Meets heap (table (constructor fields))
      = optional (HasFields heap (fields.map (fun (name, schema) => (name, Meets heap schema)))) :=
  meets_eq_optional rfl (fun _ => meets_fields_iff rfl rfl rfl rfl)

/-- A table that has to be there. -/
theorem meets_requiredTable (fields : List (String × Value))
    : Meets heap (requiredTable (constructor fields))
      = required (HasFields heap (fields.map (fun (name, schema) => (name, Meets heap schema)))) :=
  meets_eq_required rfl (fun _ => meets_fields_iff rfl rfl rfl rfl)

/-- A table with elements, which may be left out. -/
theorem meets_array {element : Value} {kind : Value → Prop}
    (counts : truthy (some element) = true)
    (meets_iff : ∀ value, Meets heap element (some value) ↔ kind value)
    : Meets heap (array element) = optional (ArrayOf heap kind) := by
  have areElements : setting heap (array element) "elements" = .ok (some element) := by
    change Except.ok (if truthy (some element) = true then some element else none) = _
    rw [if_pos counts]
  refine meets_eq_optional rfl fun value => ?_
  rw [meets_elements_iff rfl rfl areElements]
  simp only [meets_iff]

@[simp] theorem meets_plain (type : String) : Meets heap (plain type) = optional (OfType type) :=
  meets_eq_optional rfl (fun _ => meets_type_iff rfl rfl rfl rfl rfl rfl)

@[simp] theorem meets_requiredString : Meets heap requiredString = required (OfType "string") :=
  meets_eq_required rfl (fun _ => meets_type_iff rfl rfl rfl rfl rfl rfl)

@[simp] theorem meets_strings
    : Meets heap (array (plain "string")) = optional (ArrayOf heap (OfType "string")) :=
  meets_array rfl (fun _ => meets_type_iff rfl rfl rfl rfl rfl rfl)

/-- A value that is there meets an optional kind if it is of the kind. -/
@[simp] theorem optional_some_iff {kind : Value → Prop}
    : optional kind (some value) ↔ kind value := by
  simp [optional]

/-- The alternatives for passwords. -/
theorem meets_passwordAlternatives_iff
    : (∃ alternative ∈ [plain "string", commandSchema, promptSchema, fileSchema],
        Meets heap alternative (some value))
      ↔ PasswordLike heap value := by
  simp [commandSchema, promptSchema, fileSchema, PasswordLike]

@[simp] theorem meets_passwordSchema : Meets heap passwordSchema = optional (PasswordLike heap) :=
  meets_eq_optional rfl (fun _ => (meets_oneOf_iff rfl rfl).trans meets_passwordAlternatives_iff)

@[simp] theorem meets_requiredPasswordSchema
    : Meets heap requiredPasswordSchema = required (PasswordLike heap) :=
  meets_eq_required rfl (fun _ => (meets_oneOf_iff rfl rfl).trans meets_passwordAlternatives_iff)

/-- With `table` around them, the fields of a credential say what a credential is. -/
theorem meets_credential_iff
    : Meets heap (table credentialFields) (some value) ↔ Credential heap value := by
  simp [credentialFields, Credential]

/-- The table for the SOCKS proxy. -/
theorem meets_socks_iff
    : Meets heap (table socksFields) (some value) ↔ Socks heap value := by
  simp [socksFields, Socks]

/-- The table for TLS. -/
theorem meets_tls_iff
    : Meets heap (table tlsFields) (some value) ↔ Tls heap value := by
  simp [tlsFields, Tls]

/-- The table for the challenge. -/
theorem meets_challenge_iff
    : Meets heap (table challengeFields) (some value) ↔ Challenge heap value := by
  simp [challengeFields, Challenge]

/-- The table for the plugins. -/
theorem meets_plugins_iff
    : Meets heap (table pluginsFields) (some value) ↔ Plugins heap value := by
  simp [pluginsFields, Plugins]

/-- The table for the notifications. -/
theorem meets_notifications_iff
    : Meets heap (table notificationsFields) (some value)
      ↔ HasFields heap [("module", required (OfType "string"))] value := by
  simp [notificationsFields]

/-- The table for the mentions. -/
theorem meets_mention_iff
    : Meets heap (table mentionFields) (some value)
      ↔ HasFields heap [("patterns", optional (ArrayOf heap (OfType "string")))] value := by
  simp [mentionFields]

end Parts

-----------------------------------------------------------------------------------------
-- From the schema to the kinds
-----------------------------------------------------------------------------------------

/-- A field of some kind is a field of the same name and of a kind that is implied. -/
def Implies (field wider : String × (Option Value → Prop)) : Prop :=
  field.1 = wider.1 ∧ ∀ value, field.2 value → wider.2 value

section Implications

variable {heap : Heap} {value : Value} {kind wider : Value → Prop} {name : String}

/-- Fields of some kinds are fields of the kinds that are implied, by induction on the fields. -/
theorem HasFields.imp {fields widerFields : List (String × (Option Value → Prop))}
    (implied : List.Forall₂ Implies fields widerFields) (has : HasFields heap fields value)
    : HasFields heap widerFields value := by
  obtain ⟨entries, areEntries, ofFields⟩ := has
  refine ⟨entries, areEntries, ?_⟩
  clear areEntries
  induction implied with
  | nil => simp
  | cons implies _ ih =>
      obtain ⟨ofFirst, ofRest⟩ := List.forall_mem_cons.mp ofFields
      refine List.forall_mem_cons.mpr ⟨?_, ih ofRest⟩
      rw [← implies.1]
      exact implies.2 _ ofFirst

/-- A field whose kind is what its schema says. -/
theorem implies_of_eq {meets kind : Option Value → Prop} (same : meets = kind)
    : Implies (name, meets) (name, kind) :=
  ⟨rfl, fun _ holds => same ▸ holds⟩

/-- An optional field of a schema. -/
theorem implies_optional {schema : Value}
    (implied : ∀ value, Meets heap schema (some value) → kind value)
    : Implies (name, Meets heap schema) (name, optional kind) := by
  refine ⟨rfl, fun value meets => ?_⟩
  rintro present rfl
  exact implied present meets

/-- A required field of a schema. -/
theorem implies_required {schema flag : Value}
    (isRequired : setting heap schema "required" = .ok (some flag))
    (implied : ∀ value, Meets heap schema (some value) → kind value)
    : Implies (name, Meets heap schema) (name, required kind) := by
  refine ⟨rfl, fun value meets => ?_⟩
  cases value with
  | none => simp [meets_none_iff, isRequired] at meets
  | some present => exact ⟨present, rfl, implied present meets⟩

/-- A table with declared fields in a schema. -/
theorem fields_of_table {fields : List (String × Value)} {widerFields}
    (meets : Meets heap (table (constructor fields)) (some value))
    (implied : List.Forall₂ Implies
      (fields.map (fun (name, schema) => (name, Meets heap schema))) widerFields)
    : HasFields heap widerFields value := by
  rw [meets_table, optional_some_iff] at meets
  exact meets.imp implied

/-- A required table with declared fields in a schema. -/
theorem fields_of_requiredTable {fields : List (String × Value)} {widerFields}
    (meets : Meets heap (requiredTable (constructor fields)) (some value))
    (implied : List.Forall₂ Implies
      (fields.map (fun (name, schema) => (name, Meets heap schema))) widerFields)
    : HasFields heap widerFields value := by
  rw [meets_requiredTable] at meets
  obtain ⟨_, ⟨⟩, has⟩ := meets
  exact has.imp implied

/-- An accepted identity. -/
theorem identity_of_meets (meets : Meets heap (requiredTable identityFields) (some value))
    : Identity heap value :=
  fields_of_requiredTable meets
    (.cons (implies_required rfl fun _ => name_of_meets rfl rfl rfl)
    <| .cons (implies_optional fun _ => name_of_meets rfl rfl rfl)
    <| .cons (implies_optional fun _ => gecos_of_meets rfl rfl rfl)
    <| .nil)

/-- Accepted capabilities are strings. -/
theorem strings_of_meets {pattern : String}
    (meets : Meets heap (array (patternString pattern)) (some value))
    : ArrayOf heap (OfType "string") value := by
  have areElements : setting heap (array (patternString pattern)) "elements"
      = .ok (some (patternString pattern)) := rfl
  rw [meets_elements_iff rfl rfl areElements] at meets
  obtain ⟨entries, areEntries, ofElements⟩ := meets
  exact ⟨entries, areEntries, fun element isIn =>
    ofType_of_meets rfl rfl (ofElements element isIn)⟩

/-- An accepted server. -/
theorem server_of_meets (meets : Meets heap (requiredTable serverFields) (some value))
    : Server heap value :=
  fields_of_requiredTable meets
    (.cons (implies_of_eq (meets_plain _))
    <| .cons (implies_of_eq (meets_plain _))
    <| .cons (implies_of_eq (meets_plain _))
    <| .cons (implies_optional fun _ => strings_of_meets)
    <| .cons (implies_optional fun _ => ofType_of_meets rfl rfl)
    <| .cons (implies_of_eq meets_passwordSchema)
    <| .nil)

/-- An accepted operator. -/
theorem oper_of_meets (meets : Meets heap (table operFields) (some value))
    : Oper heap value :=
  fields_of_table meets
    (.cons (implies_of_eq (meets_plain _))
    <| .cons (implies_required rfl fun _ => name_of_meets rfl rfl rfl)
    <| .cons (implies_of_eq meets_requiredPasswordSchema)
    <| .nil)

/-- Accepted options of SASL: of the credentials they only say that they are an array. -/
theorem sasl_of_meets (meets : Meets heap (table saslFields) (some value))
    : Sasl heap (fun _ => True) value :=
  fields_of_table meets
    (.cons (implies_of_eq meets_strings)
    <| .cons (implies_of_eq
        (meets_array rfl fun _ => iff_of_true (meets_of_untyped rfl rfl) trivial))
    <| .nil)

/-- An accepted configuration has everything but the kind of the credentials. -/
theorem configuration_of_meets (meets : Meets heap configurationSchema (some value))
    : ConfigurationWith heap (fun _ => True) value :=
  fields_of_table meets
    (.cons (implies_required rfl fun _ => identity_of_meets)
    <| .cons (implies_required rfl fun _ => server_of_meets)
    <| .cons (implies_optional fun _ => meets_socks_iff.mp)
    <| .cons (implies_optional fun _ => meets_tls_iff.mp)
    <| .cons (implies_optional fun _ => oper_of_meets)
    <| .cons (implies_optional fun _ => meets_challenge_iff.mp)
    <| .cons (implies_optional fun _ => meets_plugins_iff.mp)
    <| .cons (implies_optional fun _ => meets_notifications_iff.mp)
    <| .cons (implies_optional fun _ => meets_mention_iff.mp)
    <| .cons (implies_optional fun _ => sasl_of_meets)
    <| .nil)

end Implications

end Snowcone.Configuration
