import Snowcone.Base64.Codec
import Snowcone.Foundations.Coroutine
import Snowcone.Foundations.LuaPattern

/-! The SCRAM mechanism, as a coroutine that yields the client's messages and is resumed
with the server's.
-/

namespace Snowcone.Sasl

open Bytes Base64 Coroutine LuaPattern

/-- The digests that SCRAM is used with. -/
inductive DigestName where
  | sha1
  | sha256
  | sha512
  deriving DecidableEq

/-- A digest object. `hmac` takes the data and the key, and `pbkdf2` the password, the salt,
the number of iterations and the length of the output.
-/
structure Digest where
  digest : Bytes → Bytes
  hmac : Bytes → Bytes → Bytes
  pbkdf2 : Bytes → Bytes → Nat → Nat → Bytes
  size : Nat

/-- `MIN_NONCE_LEN`. -/
def minNonceLen : Nat := 8

/-- `PBKDF2_ITERATION_MAX`. -/
def DigestName.iterationMax : DigestName → Nat
  | .sha1 => 2 * 1300000
  | .sha256 => 2 * 600000
  | .sha512 => 2 * 210000

/-- `PBKDF2_ITERATION_MIN`. -/
def DigestName.iterationMin : DigestName → Nat
  | .sha1 => 4096
  | .sha256 => 4096
  | .sha512 => 10000

/-- `myopenssl.xor`: a short string is padded with zeros. -/
def xor : Bytes → Bytes → Bytes
  | a :: as, b :: bs => (a ^^^ b) :: xor as bs
  | [], bs => bs
  | as, [] => as

/-- `scram_encode_username`. -/
def scramEncodeUsername (name : Bytes) : Bytes :=
  name.flatMap (fun c =>
    if c = chr ',' then [chr '=', chr '2', chr 'C']
    else if c = chr '=' then [chr '=', chr '3', chr 'D']
    else [c])

/-- The class `[!-+--~]`: printable characters but the comma. -/
def isNonceChar (c : Byte) : Bool := 0x21 ≤ c && c ≤ 0x2b || 0x2d ≤ c && c ≤ 0x7e

/-- The class `%d`. -/
def isDigit (c : Byte) : Bool := 0x30 ≤ c && c ≤ 0x39

/-- The class `[%w+/]`. -/
def isBase64Char (c : Byte) : Bool :=
  isDigit c || 0x41 ≤ c && c ≤ 0x5a || 0x61 ≤ c && c ≤ 0x7a || c == chr '+' || c == chr '/'

/-- The items `([%w+/]*=?=?)`. -/
def base64Items : List (Item Byte) :=
  [
    .openCapture,
    .single isBase64Char .many,
    .single (· == chr '=') .optional,
    .single (· == chr '=') .optional,
    .closeCapture
  ]

/-- The pattern `^r=([!-+--~]*),s=([%w+/]*=?=?),i=(%d+)$`. -/
def serverFirstPattern : List (Item Byte) :=
  literal (lit "r=")
    ++ ([.openCapture, .single isNonceChar .many, .closeCapture]
      ++ (literal (lit ",s=")
        ++ (base64Items
          ++ (literal (lit ",i=")
            ++ [.openCapture, .single isDigit .plus, .closeCapture, .endOfSubject]))))

/-- The pattern `^v=([%w+/]*=?=?)$`. -/
def serverFinalPattern : List (Item Byte) :=
  literal (lit "v=") ++ (base64Items ++ [.endOfSubject])

/-- `math.tointeger` of a string of digits: Lua's integers end at 2^63. -/
def tointeger (digits : Bytes) : Option Nat :=
  let n := digits.foldl (fun n c => 10 * n + (c.toNat - 0x30)) 0
  if n < 0x8000000000000000 then some n else none

/-- The body of a mechanism: it yields messages, is resumed with payloads, and may return a
last message.
-/
abbrev Mechanism := Body Bytes Bytes String (Option Bytes)

/-- What the client uses of a server-first message. -/
structure ServerFirst where
  nonce : Bytes
  salt : Bytes
  iterations : Nat
  deriving DecidableEq

/-- Read and check a server-first message. -/
def readServerFirst (name : DigestName) (clientNonce serverFirst : Bytes)
    : Except String ServerFirst :=
  match stringMatch serverFirstPattern serverFirst with
  | some [serverNonce, salt64, digits] =>
      match fromBase64 salt64 with
      | none => .error "bad salt encoding"
      | some salt =>
          if ¬ clientNonce <+: serverNonce then
            .error "server nonce does not match client nonce"
          else if serverNonce.length < clientNonce.length + minNonceLen then
            .error "server nonce too short"
          else
            match tointeger digits with
            | none => .error "server pbkdf2 iteration count invalid"
            | some iterations =>
                if iterations < name.iterationMin then
                  .error "server pbdkf2 iteration count too low"
                else if name.iterationMax < iterations then
                  .error "server pbdkf2 iteration count too high"
                else .ok { nonce := serverNonce, salt, iterations }
  | _ => .error "bad server initial"

/-- Read and check a server-final message. -/
def readServerFinal (serverSignature serverFinal : Bytes) : Except String Unit :=
  match stringMatch serverFinalPattern serverFinal with
  | some [sig64] =>
      match fromBase64 sig64 with
      | none => .error "bad server final signature base64"
      | some sig => if serverSignature = sig then .ok () else .error "bad server final signature"
  | _ => .error "bad server final"

/-- The names and the password as they are prepared, and the client's nonce. -/
structure Credentials where
  authzid : Option Bytes
  authcid : Bytes
  password : Bytes
  nonce : Bytes

/-- The start of the client's first message. -/
def Credentials.gs2Header (credentials : Credentials) : Bytes :=
  match credentials.authzid with
  | some authzid => lit "n,a=" ++ scramEncodeUsername authzid ++ lit ","
  | none => lit "n,,"

/-- The rest of the client's first message. -/
def Credentials.clientFirstBare (credentials : Credentials) : Bytes :=
  lit "n=" ++ scramEncodeUsername credentials.authcid ++ lit ",r=" ++ credentials.nonce

/-- The client's first message. -/
def Credentials.clientFirst (credentials : Credentials) : Bytes :=
  credentials.gs2Header ++ credentials.clientFirstBare

/-- The client's last message without the proof. -/
def Credentials.clientFinalWithoutProof (credentials : Credentials) (serverNonce : Bytes)
    : Bytes :=
  lit "c=" ++ toBase64 credentials.gs2Header ++ lit ",r=" ++ serverNonce

/-- What both sides sign. -/
def Credentials.authMessage (credentials : Credentials) (serverFirst serverNonce : Bytes)
    : Bytes :=
  credentials.clientFirstBare ++ lit "," ++ serverFirst ++ lit ","
    ++ credentials.clientFinalWithoutProof serverNonce

/-- The password under the salt, as often as the server asks. -/
def Digest.saltedPassword (digest : Digest) (password : Bytes) (first : ServerFirst) : Bytes :=
  digest.pbkdf2 password first.salt first.iterations digest.size

/-- The client's proof of the password. -/
def Digest.clientProof (digest : Digest) (credentials : Credentials) (serverFirst : Bytes)
    (first : ServerFirst)
    : Bytes :=
  let clientKey := digest.hmac (lit "Client Key") (digest.saltedPassword credentials.password first)
  let storedKey := digest.digest clientKey
  let clientSignature := digest.hmac (credentials.authMessage serverFirst first.nonce) storedKey
  xor clientKey clientSignature

/-- The server's proof of the password. -/
def Digest.serverSignature (digest : Digest) (credentials : Credentials) (serverFirst : Bytes)
    (first : ServerFirst)
    : Bytes :=
  let serverKey := digest.hmac (lit "Server Key") (digest.saltedPassword credentials.password first)
  digest.hmac (credentials.authMessage serverFirst first.nonce) serverKey

/-- The client's last message. -/
def Digest.clientFinal (digest : Digest) (credentials : Credentials) (serverFirst : Bytes)
    (first : ServerFirst)
    : Bytes :=
  credentials.clientFinalWithoutProof first.nonce ++ lit ",p="
    ++ toBase64 (digest.clientProof credentials serverFirst first)

/-- The body of the coroutine; an error message of the server ends it without a result. -/
def scramBody (digest : Digest) (name : DigestName) (credentials : Credentials) : Mechanism := do
  let serverFirst ← .yield credentials.clientFirst
  if lit "e=" <+: serverFirst then return none
  match readServerFirst name credentials.nonce serverFirst with
  | .error message => .raises message
  | .ok first =>
      let serverFinal ← .yield (digest.clientFinal credentials serverFirst first)
      if lit "e=" <+: serverFinal then return none
      match readServerFinal (digest.serverSignature credentials serverFirst first) serverFinal with
      | .error message => .raises message
      | .ok () => return some []

/-- The mechanism; `stringprep` prepares the names and the password, and `rand` is what
`myopenssl.rand` gives. The first payload is not looked at.
-/
def scram (digest : Digest) (name : DigestName) (stringprep : Bytes → Except String Bytes)
    (rand : Bytes) (authzid : Option Bytes) (authcid password : Bytes) (nonce : Option Bytes)
    : Except String (State Bytes Bytes String (Option Bytes)) := do
  let authcid ← stringprep authcid
  let authzid ← authzid.mapM stringprep
  let password ← stringprep password
  let credentials := { authzid, authcid, password, nonce := nonce.getD (toBase64 rand) }
  pure (.suspended (fun _ => scramBody digest name credentials))

end Snowcone.Sasl
