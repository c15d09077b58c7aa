import Snowcone.Sasl.Scram

/-! An honest SCRAM server, as RFC 5802 describes it: it reads the client's messages
attribute by attribute and stores keys in place of the password.
-/

namespace Snowcone.Sasl

open Bytes Base64

/-- What a server stores for a user. -/
structure Account where
  salt : Bytes
  iterations : Nat
  storedKey : Bytes
  serverKey : Bytes

/-- The account for a password. -/
def Account.create (digest : Digest) (password salt : Bytes) (iterations : Nat) : Account :=
  let saltedPassword := digest.pbkdf2 password salt iterations digest.size
  {
    salt
    iterations
    storedKey := digest.digest (digest.hmac (lit "Client Key") saltedPassword)
    serverKey := digest.hmac (lit "Server Key") saltedPassword
  }

/-- Read a name: a comma and an equals sign are escaped, and appear in no other way. -/
def decodeName : Bytes → Option Bytes
  | [] => some []
  | c :: rest =>
      if c = chr '=' then
        match rest with
        | a :: b :: rest =>
            if a = chr '2' ∧ b = chr 'C' then (decodeName rest).map (chr ',' :: ·)
            else if a = chr '3' ∧ b = chr 'D' then (decodeName rest).map (chr '=' :: ·)
            else none
        | _ => none
      else if c = chr ',' then none
      else (decodeName rest).map (c :: ·)

/-- The value of an attribute with the given letter. -/
def valueOf (letter : Char) : Bytes → Option Bytes
  | a :: b :: value => if a = chr letter ∧ b = chr '=' then some value else none
  | _ => none

/-- A message up to its first comma, and what follows the comma. -/
def splitAttribute (message : Bytes) : Bytes × Bytes :=
  (before (chr ',') message, (onwards (chr ',') message).tail)

/-- Read the optional authorization identity of a client's first message. -/
def readAuthzid (name : Bytes) : Option (Option Bytes) :=
  if name = [] then some none else ((valueOf 'a' name).bind decodeName).map some

/-- What a server learns from a client's first message. -/
structure Session where
  gs2Header : Bytes
  authzid : Option Bytes
  username : Bytes
  clientNonce : Bytes
  clientFirstBare : Bytes

/-- Read a client's first message, from a client that does not support channel binding. -/
def readClientFirst (message : Bytes) : Option Session := do
  let (flag, rest) := splitAttribute message
  let (name, bare) := splitAttribute rest
  let (user, nonce) := splitAttribute bare
  guard (flag = lit "n")
  let authzid ← readAuthzid name
  let username ← (valueOf 'n' user).bind decodeName
  let clientNonce ← valueOf 'r' nonce
  guard (chr ',' ∉ clientNonce)
  pure {
    gs2Header := flag ++ lit "," ++ name ++ lit ","
    authzid
    username
    clientNonce
    clientFirstBare := bare
  }

/-- A number in decimal. -/
def decimal (n : Nat) : Bytes := (Nat.toDigits 10 n).map chr

/-- The server's first message; the server adds a suffix to the client's nonce. -/
def Account.serverFirst (account : Account) (session : Session) (suffix : Bytes) : Bytes :=
  lit "r=" ++ ((session.clientNonce ++ suffix)
    ++ (lit ",s=" ++ (toBase64 account.salt ++ (lit ",i=" ++ decimal account.iterations))))

/-- Check a client's last message: the channel binding, the nonce, and the proof, which has
to reveal the key that the stored key is the digest of. The answer is the server's last
message.
-/
def Account.answer (account : Account) (digest : Digest) (session : Session)
    (suffix message : Bytes)
    : Option Bytes := do
  let (channel, rest) := splitAttribute message
  let (nonce, last) := splitAttribute rest
  let binding ← (valueOf 'c' channel).bind fromBase64
  guard (binding = session.gs2Header)
  guard (valueOf 'r' nonce = some (session.clientNonce ++ suffix))
  let proof ← (valueOf 'p' last).bind fromBase64
  let authMessage := session.clientFirstBare ++ lit "," ++ account.serverFirst session suffix
    ++ lit "," ++ (channel ++ lit "," ++ nonce)
  let clientSignature := digest.hmac authMessage account.storedKey
  let clientKey := List.zipWith (· ^^^ ·) proof clientSignature
  guard (digest.digest clientKey = account.storedKey)
  pure (lit "v=" ++ toBase64 (digest.hmac authMessage account.serverKey))

end Snowcone.Sasl
