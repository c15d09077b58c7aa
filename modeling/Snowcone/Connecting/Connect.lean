import Snowcone.Tasks.Passwords

/-! The connect task: it resolves the passwords and keys of the configuration, which may
suspend it, and starts a connection.
-/

namespace Snowcone.Connecting

open Bytes Coroutine Tasks

/-- A Lua number; a float is given by the integer it is equal to, where there is one. -/
inductive LuaNumber where
  | integer (n : Int)
  | float (whole : Option Int)

/-- The integer that `luaL_checkinteger` makes of a number. -/
def LuaNumber.toInteger : LuaNumber → Option Int
  | .integer n => some n
  | .float whole => whole

/-- The table `configuration.tls`, as the schema admits it. -/
structure TlsSettings where
  clientCert : PasswordEntry
  clientKey : PasswordEntry
  clientPassword : PasswordEntry
  useStore : Bool
  verifyHost : Option Bytes
  sniHost : Option Bytes

/-- The table `configuration.socks`. -/
structure SocksSettings where
  host : Option Bytes
  port : Option LuaNumber
  username : Option Bytes
  password : PasswordEntry

/-- The table `configuration.server`. -/
structure ServerSettings where
  host : Option Bytes
  port : Option LuaNumber
  fingerprint : Option Bytes

/-- What connecting uses of a configuration that the schema accepts. -/
structure Configuration where
  server : ServerSettings
  socks : Option SocksSettings
  tls : Option TlsSettings

/-- The arguments of `snowcone.connect`, for some certificates and keys. -/
structure Arguments (X509 PKey : Type) where
  tls : Bool
  host : Bytes
  port : LuaNumber
  clientCert : Option X509
  clientKey : Option PKey
  verify : Option Bytes
  sni : Option Bytes
  socksHost : Option Bytes
  socksPort : Option LuaNumber
  socksUser : Option Bytes
  socksPass : LuaValue

/-- What a connection is started with. Without a user and a password there are no
credentials for the proxy.
-/
structure Settings (X509 PKey : Type) where
  tls : Bool
  host : Bytes
  port : Int
  clientCert : Option X509
  clientKey : Option PKey
  verify : Bytes
  sni : Bytes
  socksHost : Bytes
  socksPort : Int
  socksAuth : Option (Bytes × Bytes)

/-- The text of an error in an argument. -/
def badArgument (position : Nat) (problem : String) : Bytes :=
  lit ("bad argument #" ++ toString position ++ " to 'connect' (" ++ problem ++ ")")

/-- `luaL_checkinteger`. -/
def checkInteger (position : Nat) (n : LuaNumber) : Except Bytes Int :=
  match n.toInteger with
  | some n => .ok n
  | none => .error (badArgument position "number has no integer representation")

/-- `luaL_argcheck`. -/
def argCheck (condition : Prop) [Decidable condition] (position : Nat) (problem : String)
    : Except Bytes Unit :=
  if condition then .ok () else .error (badArgument position problem)

/-- The part of `l_start_irc` that may raise an error, and the settings. Its texts become C strings,
which end at the first NUL.
-/
def startIrc {X509 PKey : Type} (arguments : Arguments X509 PKey)
    : Except Bytes (Settings X509 PKey) := do
  let port ← checkInteger 3 arguments.port
  let socksPort ← arguments.socksPort.elim (.ok 0) (checkInteger 9)
  let host := before 0 arguments.host
  let socksUser := before 0 (arguments.socksUser.getD [])
  let socksPass := before 0 (arguments.socksPass.text.getD [])
  argCheck (1 ≤ port ∧ port ≤ 0xffff) 3 "port out of range"
  argCheck (0 ≤ socksPort ∧ socksPort ≤ 0xffff) 9 "port out of range"
  pure {
    tls := arguments.tls
    host
    port
    clientCert := arguments.clientCert
    clientKey := arguments.clientKey
    verify := (arguments.verify.map (before 0)).getD host
    sni := (arguments.sni.map (before 0)).getD host
    socksHost := before 0 (arguments.socksHost.getD [])
    socksPort
    socksAuth := if socksUser ≠ [] ∨ socksPass ≠ [] then some (socksUser, socksPass) else none
  }

/-- The world outside as one attempt finds it. Files are read one after another, and each
read may find something else.
-/
structure Host (X509 PKey : Type) where
  readFile : Nat → Bytes → Except Bytes Bytes
  readX509 : LuaValue → Except Bytes X509
  pkeyFromStore : LuaValue → LuaValue → Except Bytes PKey
  readPem : LuaValue → LuaValue → Except Bytes PKey

/-- How the body of the connect task returns: `failure` was called, or a connection was
started.
-/
inductive Attempt (X509 PKey : Type) where
  | failed (report : Bytes)
  | started (settings : Settings X509 PKey)

/-- Parse a value that may be absent. -/
def parsePresent {Parsed : Type} (parse : LuaValue → Except Bytes Parsed)
    : LuaValue → Except Bytes (Option Parsed)
  | .nil => .ok none
  | value => (parse value).map some

/-- The port without one in the configuration. -/
def defaultPort (useTls : Bool) : LuaNumber := .integer (if useTls then 6697 else 6667)

/-- The body of the connect task, for a configuration with a server host. -/
def connectTask {X509 PKey : Type} (host : Host X509 PKey) (configuration : Configuration)
    (serverHost : Bytes)
    : Script (Attempt X509 PKey) := do
  let tls := configuration.tls
  let socks := configuration.socks
  let resolve (position : Nat) (entry : Option PasswordEntry) :=
    (resolvePassword (host.readFile position) (entry.getD .absent)).pcall
  match ← resolve 0 (tls.map (·.clientPassword)) with
  | .error message =>
      return .failed (lit "TLS client key password program error: " ++ message)
  | .ok tlsClientPassword =>
  match ← resolve 1 (socks.map (·.password)) with
  | .error message => return .failed (lit "SOCKS5 password program error: " ++ message)
  | .ok socksPassword =>
  match ← resolve 2 (tls.map (·.clientCert)) with
  | .error message => return .failed (lit "TLS client cert error: " ++ message)
  | .ok certText =>
  match ← resolve 3 (tls.map (·.clientKey)) with
  | .error message => return .failed (lit "TLS client key error: " ++ message)
  | .ok keyText =>
  let keyText := if keyText = .nil then certText else keyText
  match parsePresent host.readX509 certText with
  | .error message => return .failed (lit "Parse client cert failed: " ++ message)
  | .ok tlsClientCert =>
  let useStore := tls.any (·.useStore)
  match parsePresent
      (if useStore then (host.pkeyFromStore · tlsClientPassword)
        else (host.readPem · tlsClientPassword))
      keyText with
  | .error message =>
      return .failed
        (lit (if useStore then "Client key from store failed: " else "Parse client key failed: ")
          ++ message)
  | .ok tlsClientKey =>
  let arguments := {
    tls := tls.isSome
    host := serverHost
    port := configuration.server.port.getD (defaultPort tls.isSome)
    clientCert := tlsClientCert
    clientKey := tlsClientKey
    verify := tls.bind (·.verifyHost)
    sni := tls.bind (·.sniHost)
    socksHost := socks.bind (·.host)
    socksPort := socks.bind (·.port)
    socksUser := socks.bind (·.username)
    socksPass := socksPassword
  }
  -- not a protected call: an error here ends the task
  match startIrc arguments with
  | .error message => .raises message
  | .ok settings => return .started settings

end Snowcone.Connecting
