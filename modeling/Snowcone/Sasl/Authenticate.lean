import Snowcone.Base64.Codec
import Snowcone.Sending.Send

/-! SASL payloads as `AUTHENTICATE` parameters: they are encoded, cut into chunks of 400
bytes and put together again by the other side.
-/

namespace Snowcone.Sasl

open Bytes Base64 Sending

/-- The arguments of the `AUTHENTICATE` messages for a raw payload: one for each chunk of
400 bytes, and a plus sign when no chunk is shorter.
-/
def sendAuthenticate {Num : Type} (body : Bytes) (secret : Bool) : List (Argument Num) :=
  let body := toBase64 body
  let n := body.length
  let chunks := (List.range ((n + 399) / 400)).map (fun k =>
    Argument.table (.string ((body.drop (400 * k)).take 400)) secret)
  if n % 400 = 0 then chunks ++ [.plain (.string (lit "+"))] else chunks

/-- One `AUTHENTICATE` parameter from the server: the chunks that are kept, and the payload
if this chunk ends it. A chunk that is not there or not base64 raises an error.
-/
def receive (chunks : List Bytes) (chunk : Option Bytes)
    : Option (List Bytes × Option Bytes) := do
  let chunk ← chunk
  let chunks ←
    if chunk = lit "+" then some chunks
    else (fromBase64 chunk).map (fun bytes => chunks ++ [bytes])
  if chunk.length < 400 then pure ([], some chunks.flatten)
  else pure (chunks, none)

/-- The payloads in a sequence of parameters, and the chunks that are left over. -/
def receiveAll (chunks : List Bytes) : List Bytes → Option (List Bytes × List Bytes)
  | [] => some ([], chunks)
  | chunk :: more => do
      let (chunks, payload) ← receive chunks (some chunk)
      let (payloads, left) ← receiveAll chunks more
      pure (payload.toList ++ payloads, left)

end Snowcone.Sasl
