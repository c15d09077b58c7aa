import Snowcone.Configuration.SchemaKinds

/-! What the validation at startup guarantees about a configuration that it accepts. -/

namespace Snowcone.Configuration

open Bytes Lua

/-- The validation at startup accepts a configuration. -/
def accepts (heap : Heap) (depth : Nat) (configuration : Value) : Bool :=
  match check heap depth configurationSchema (some configuration) ⟨[], []⟩ with
  | .ok _ _ => true
  | .error _ _ => false

variable {heap : Heap} {value configuration : Value} {kind : Value → Prop}

/-- An accepted configuration meets the schema. -/
theorem meets_of_accepts {depth : Nat} (accepted : accepts heap depth configuration = true)
    : Meets heap configurationSchema (some configuration) := by
  rw [accepts] at accepted
  cases outcome : check heap depth configurationSchema (some configuration) ⟨[], []⟩ with
  | ok result after => exact meets_of_check outcome
  | error failure after => simp [outcome] at accepted

/-- The last of some fields, on its own. -/
theorem hasFields_append_iff (fields : List (String × (Option Value → Prop))) {name : String}
    {last : Option Value → Prop}
    : HasFields heap (fields ++ [(name, last)]) value
      ↔ HasFields heap fields value ∧ last (fieldOf heap value name) := by
  constructor
  · rintro ⟨entries, areEntries, ofFields⟩
    obtain ⟨ofFields, ofLast⟩ := List.forall_mem_append.mp ofFields
    refine ⟨⟨entries, areEntries, ofFields⟩, ?_⟩
    simpa [fieldOf, areEntries] using ofLast
  · rintro ⟨⟨entries, areEntries, ofFields⟩, ofLast⟩
    refine ⟨entries, areEntries, List.forall_mem_append.mpr ⟨ofFields, ?_⟩⟩
    simpa [fieldOf, areEntries] using ofLast

/-- An array of some kind is an array whose elements are of the kind. -/
theorem optional_arrayOf_iff {value : Option Value}
    : optional (ArrayOf heap kind) value
      ↔ optional (ArrayOf heap (fun _ => True)) value
        ∧ ∀ element ∈ elementsOf heap value, kind element := by
  cases value with
  | none => simp [optional, elementsOf]
  | some array =>
      rw [optional_some_iff, optional_some_iff]
      cases areEntries : entries? heap array with
      | none => simp [ArrayOf, areEntries]
      | some entries => simp [ArrayOf, areEntries, elementsOf]

/-- The options of SASL with credentials of some kind. -/
theorem sasl_iff
    : Sasl heap kind value
      ↔ Sasl heap (fun _ => True) value
        ∧ ∀ element ∈ elementsOf heap (fieldOf heap value "credentials"), kind element := by
  have taken (kind : Value → Prop) : Sasl heap kind value ↔ _ :=
    hasFields_append_iff [("automatic", optional (ArrayOf heap (OfType "string")))]
  rw [taken, taken, optional_arrayOf_iff, and_assoc]

/-- A configuration with credentials of some kind. -/
theorem configurationWith_iff
    : ConfigurationWith heap kind configuration
      ↔ ConfigurationWith heap (fun _ => True) configuration
        ∧ ∀ element ∈ credentials heap configuration, kind element := by
  have taken (kind : Value → Prop) : ConfigurationWith heap kind configuration ↔ _ :=
    hasFields_append_iff [
      ("identity", required (Identity heap)),
      ("server", required (Server heap)),
      ("socks", optional (Socks heap)),
      ("tls", optional (Tls heap)),
      ("oper", optional (Oper heap)),
      ("challenge", optional (Challenge heap)),
      ("plugins", optional (Plugins heap)),
      ("notifications", optional (HasFields heap [("module", required (OfType "string"))])),
      ("mention", optional
        (HasFields heap [("patterns", optional (ArrayOf heap (OfType "string")))]))]
  have ofSasl : optional (Sasl heap kind) (fieldOf heap configuration "sasl")
      ↔ optional (Sasl heap (fun _ => True)) (fieldOf heap configuration "sasl")
        ∧ ∀ element ∈ credentials heap configuration, kind element := by
    rw [credentials]
    cases fieldOf heap configuration "sasl" with
    | none => simp [optional, elementsOf]
    | some sasl => simpa using sasl_iff
  rw [taken, taken, ofSasl, and_assoc]

/-- An accepted configuration is what the client relies on exactly if every element of
`sasl.credentials` meets the schema that it would have with `table` around the fields.
-/
theorem guaranteed_iff_credentials {depth : Nat}
    (accepted : accepts heap depth configuration = true)
    : Guaranteed heap configuration
      ↔ ∀ element ∈ credentials heap configuration,
        Meets heap (table credentialFields) (some element) := by
  rw [Guaranteed, configurationWith_iff]
  simp only [meets_credential_iff]
  exact and_iff_right (configuration_of_meets (meets_of_accepts accepted))

/-- A configuration with a credential whose mechanism is a number. -/
def looseCredentials : Value :=
  constructor [
    ("identity", constructor [("nick", text "snowcone")]),
    ("server", constructor []),
    ("sasl", constructor [
      ("credentials", listConstructor [constructor [("mechanism", .integer 5)]])])]

/-- It is accepted. -/
theorem accepts_looseCredentials : accepts (fun _ => []) 10 looseCredentials = true := by
  decide +kernel

/-- Witness: the configuration with the loose credential. -/
theorem guaranteed_iff_credentials_witness
    : accepts (fun _ => []) 10 looseCredentials = true
      ∧ (Guaranteed (fun _ => []) looseCredentials
        ↔ ∀ element ∈ credentials (fun _ => []) looseCredentials,
          Meets (fun _ => []) (table credentialFields) (some element)) :=
  ⟨accepts_looseCredentials, guaranteed_iff_credentials accepts_looseCredentials⟩

/-- Such a credential is accepted, although a mechanism is to be a string. -/
theorem guaranteed_counterexample
    : ¬ ∀ heap depth configuration, accepts heap depth configuration = true
      → Guaranteed heap configuration := by
  intro guaranteed
  have holds := guaranteed _ _ _ accepts_looseCredentials
  obtain ⟨-, areCredentials⟩ := configurationWith_iff.mp holds
  obtain ⟨entries, ⟨⟩, ofFields⟩ := areCredentials _ (List.mem_cons_self ..)
  obtain ⟨mechanism, ⟨⟩, isString⟩ :=
    ofFields ("mechanism", required (OfType "string")) (by simp)
  revert isString
  unfold OfType
  decide

end Snowcone.Configuration
