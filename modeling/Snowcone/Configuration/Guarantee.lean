import Snowcone.Foundations.LuaValue

/-! Kinds of values, and what the client relies on about its configuration. -/

namespace Snowcone.Configuration

open Bytes Lua

/-- A value that need not be there. -/
def optional (kind : Value → Prop) (value : Option Value) : Prop :=
  ∀ present, value = some present → kind present

/-- A value that has to be there. -/
def required (kind : Value → Prop) (value : Option Value) : Prop :=
  ∃ present, value = some present ∧ kind present

/-- A value of a type. -/
def OfType (type : String) (value : Value) : Prop := typeName (some value) = lit type

/-- A string that has none of some characters. -/
def TextWithout (forbidden : String) (value : Value) : Prop :=
  ∃ text, value = .string text ∧ ∀ c ∈ text, c ∉ lit forbidden

section Kinds

variable (heap : Heap)

/-- A table whose elements are of a kind. -/
def ArrayOf (kind : Value → Prop) (value : Value) : Prop :=
  ∃ entries, entries? heap value = some entries ∧ ∀ element ∈ sequence entries, kind element

/-- A table with fields of some kinds. -/
def HasFields (fields : List (String × (Option Value → Prop))) (value : Value) : Prop :=
  ∃ entries, entries? heap value = some entries
    ∧ ∀ field ∈ fields, field.2 (Lua.get entries (key field.1))

/-- A password: a string, or a table for a command, a prompt or a file. -/
def PasswordLike (value : Value) : Prop :=
  OfType "string" value
  ∨ HasFields heap [
      ("command", required (OfType "string")),
      ("arguments", optional (ArrayOf heap (OfType "string"))),
      ("multiline", optional (OfType "boolean")),
      ("use_tty", optional (OfType "boolean"))] value
  ∨ HasFields heap [("prompt", required (OfType "string"))] value
  ∨ HasFields heap [("file", required (OfType "string"))] value

/-- Who to be on the network. -/
def Identity : Value → Prop :=
  HasFields heap [
    ("nick", required (TextWithout " \r\n\x00")),
    ("user", optional (TextWithout " \r\n\x00")),
    ("gecos", optional (TextWithout "\r\n\x00"))]

/-- The server to connect to. -/
def Server : Value → Prop :=
  HasFields heap [
    ("host", optional (OfType "string")),
    ("port", optional (OfType "number")),
    ("fingerprint", optional (OfType "string")),
    ("capabilities", optional (ArrayOf heap (OfType "string"))),
    ("username", optional (OfType "string")),
    ("password", optional (PasswordLike heap))]

/-- The proxy. -/
def Socks : Value → Prop :=
  HasFields heap [
    ("host", optional (OfType "string")),
    ("port", optional (OfType "number")),
    ("username", optional (OfType "string")),
    ("password", optional (PasswordLike heap))]

/-- The options of TLS. -/
def Tls : Value → Prop :=
  HasFields heap [
    ("client_cert", optional (PasswordLike heap)),
    ("client_key", optional (PasswordLike heap)),
    ("client_password", optional (PasswordLike heap)),
    ("use_store", optional (OfType "boolean")),
    ("verify_host", optional (OfType "string")),
    ("sni_host", optional (OfType "string"))]

/-- The credentials of an operator. -/
def Oper : Value → Prop :=
  HasFields heap [
    ("automatic", optional (OfType "boolean")),
    ("username", required (TextWithout " \r\n\x00")),
    ("password", required (PasswordLike heap))]

/-- The key of an operator. -/
def Challenge : Value → Prop :=
  HasFields heap [
    ("automatic", optional (OfType "boolean")),
    ("username", required (OfType "string")),
    ("key", required (PasswordLike heap)),
    ("password", optional (PasswordLike heap)),
    ("use_store", optional (OfType "boolean"))]

/-- The plugins. -/
def Plugins : Value → Prop :=
  HasFields heap [
    ("modules", optional (ArrayOf heap (OfType "string"))),
    ("directory", optional (OfType "string")),
    ("custom", optional (OfType "table"))]

/-- A credential for SASL. -/
def Credential : Value → Prop :=
  HasFields heap [
    ("name", optional (OfType "string")),
    ("mechanism", required (OfType "string")),
    ("username", optional (OfType "string")),
    ("password", optional (PasswordLike heap)),
    ("key", optional (PasswordLike heap)),
    ("use_store", optional (OfType "boolean")),
    ("authzid", optional (OfType "string"))]

/-- The options of SASL, with credentials of some kind. -/
def Sasl (credential : Value → Prop) : Value → Prop :=
  HasFields heap [
    ("automatic", optional (ArrayOf heap (OfType "string"))),
    ("credentials", optional (ArrayOf heap credential))]

/-- A configuration with credentials of some kind. -/
def ConfigurationWith (credential : Value → Prop) : Value → Prop :=
  HasFields heap [
    ("identity", required (Identity heap)),
    ("server", required (Server heap)),
    ("socks", optional (Socks heap)),
    ("tls", optional (Tls heap)),
    ("oper", optional (Oper heap)),
    ("challenge", optional (Challenge heap)),
    ("plugins", optional (Plugins heap)),
    ("notifications", optional (HasFields heap [("module", required (OfType "string"))])),
    ("mention", optional
      (HasFields heap [("patterns", optional (ArrayOf heap (OfType "string")))])),
    ("sasl", optional (Sasl heap credential))]

/-- What the registration and SASL rely on: every declared field that is there is of its kind,
at every level.
-/
def Guaranteed : Value → Prop := ConfigurationWith heap (Credential heap)

/-- The field of a value that is a table. -/
def fieldOf (value : Value) (name : String) : Option Value :=
  (entries? heap value).bind (fun entries => Lua.get entries (key name))

/-- The elements of an array, where there is one. -/
def elementsOf (value : Option Value) : List Value :=
  (value.bind (entries? heap)).elim [] sequence

/-- The elements of `sasl.credentials`. -/
def credentials (configuration : Value) : List Value :=
  elementsOf heap ((fieldOf heap configuration "sasl").bind (fieldOf heap · "credentials"))

end Kinds

end Snowcone.Configuration
