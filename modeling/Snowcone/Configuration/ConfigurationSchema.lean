import Snowcone.Configuration.Schema

/-! The schema of the configuration. -/

namespace Snowcone.Configuration

open Bytes Lua

/-- A table constructor with named fields. -/
def constructor (fields : List (String × Value)) : Value :=
  .table (fields.map (fun (name, value) => (key name, value)))

/-- A string literal. -/
def text (literal : String) : Value := .string (lit literal)

/-- `table` -/
def table (fields : Value) : Value := constructor [("type", text "table"), ("fields", fields)]

/-- `required_table` -/
def requiredTable (fields : Value) : Value :=
  constructor [("type", text "table"), ("required", .boolean true), ("fields", fields)]

/-- `array` -/
def array (elements : Value) : Value :=
  constructor [("type", text "table"), ("elements", elements)]

/-- `{type = …}` -/
def plain (type : String) : Value := constructor [("type", text type)]

/-- `{type = 'string', required = true}` -/
def requiredString : Value :=
  constructor [("type", text "string"), ("required", .boolean true)]

/-- `{type = 'string', pattern = …}` -/
def patternString (pattern : String) : Value :=
  constructor [("type", text "string"), ("pattern", text pattern)]

/-- `{type = 'string', pattern = …, required = true}` -/
def requiredPatternString (pattern : String) : Value :=
  constructor [("type", text "string"), ("pattern", text pattern), ("required", .boolean true)]

/-- `command_schema` -/
def commandSchema : Value :=
  table (constructor [
    ("command", requiredString),
    ("arguments", array (plain "string")),
    ("multiline", plain "boolean"),
    ("use_tty", plain "boolean")])

/-- `prompt_schema` -/
def promptSchema : Value := table (constructor [("prompt", requiredString)])

/-- `file_schema` -/
def fileSchema : Value := table (constructor [("file", requiredString)])

/-- A table constructor with the given values at one, two, and so on. -/
def listConstructor (values : List Value) : Value :=
  .table ((values.zipIdx 1).map (fun (value, i) => (.integer i, value)))

/-- The alternatives of the schemas of passwords. -/
def passwordAlternatives : Value :=
  listConstructor [plain "string", commandSchema, promptSchema, fileSchema]

/-- `password_schema`: no password is none. -/
def passwordSchema : Value := constructor [("oneOf", passwordAlternatives)]

/-- `required_password_schema` -/
def requiredPasswordSchema : Value :=
  constructor [("required", .boolean true), ("oneOf", passwordAlternatives)]

/-- The fields of `identity`. -/
def identityFields : Value :=
  constructor [
    ("nick", requiredPatternString "^[^\n\r\x00 ]+$"),
    ("user", patternString "^[^\n\r\x00 ]+$"),
    ("gecos", patternString "^[^\n\r\x00]+$")]

/-- The fields of `server`. -/
def serverFields : Value :=
  constructor [
    ("host", plain "string"),
    ("port", plain "number"),
    ("fingerprint", plain "string"),
    ("capabilities", array (patternString "^[^\n\r\x00 ]+$")),
    ("username", patternString "^[^\n\r\x00:]*$"),
    ("password", passwordSchema)]

/-- The fields of `socks`. -/
def socksFields : Value :=
  constructor [
    ("host", plain "string"),
    ("port", plain "number"),
    ("username", plain "string"),
    ("password", passwordSchema)]

/-- The fields of `tls`. -/
def tlsFields : Value :=
  constructor [
    ("client_cert", passwordSchema),
    ("client_key", passwordSchema),
    ("client_password", passwordSchema),
    ("use_store", plain "boolean"),
    ("verify_host", plain "string"),
    ("sni_host", plain "string")]

/-- The fields of `oper`. -/
def operFields : Value :=
  constructor [
    ("automatic", plain "boolean"),
    ("username", requiredPatternString "^[^\n\r\x00 ]+$"),
    ("password", requiredPasswordSchema)]

/-- The fields of `challenge`. -/
def challengeFields : Value :=
  constructor [
    ("automatic", plain "boolean"),
    ("username", requiredString),
    ("key", requiredPasswordSchema),
    ("password", passwordSchema),
    ("use_store", plain "boolean")]

/-- The fields of `plugins`. -/
def pluginsFields : Value :=
  constructor [
    ("modules", array (plain "string")),
    ("directory", plain "string"),
    ("custom", plain "table")]

/-- The fields of `notifications`. -/
def notificationsFields : Value := constructor [("module", requiredString)]

/-- The fields of `mention`. -/
def mentionFields : Value := constructor [("patterns", array (plain "string"))]

/-- The fields of a credential. -/
def credentialFields : Value :=
  constructor [
    ("name", plain "string"),
    ("mechanism", requiredString),
    ("username", plain "string"),
    ("password", passwordSchema),
    ("key", passwordSchema),
    ("use_store", plain "boolean"),
    ("authzid", plain "string")]

/-- The fields of `sasl`. The elements of the credentials get the fields themselves for their
schema, without `table` around them.
-/
def saslFields : Value :=
  constructor [
    ("automatic", array (plain "string")),
    ("credentials", array credentialFields)]

/-- `configuration_schema` -/
def configurationSchema : Value :=
  table (constructor [
    ("identity", requiredTable identityFields),
    ("server", requiredTable serverFields),
    ("socks", table socksFields),
    ("tls", table tlsFields),
    ("oper", table operFields),
    ("challenge", table challengeFields),
    ("plugins", table pluginsFields),
    ("notifications", table notificationsFields),
    ("mention", table mentionFields),
    ("sasl", table saslFields)])

end Snowcone.Configuration
