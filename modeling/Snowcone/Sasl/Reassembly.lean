import Snowcone.Base64.RoundTrip
import Snowcone.Sasl.Authenticate

/-! Reassembling the chunks of SASL payloads gives the payloads.
Every chunk but the last encodes 300 bytes, which are whole groups; the last is told by its
length.
-/

namespace Snowcone.Sasl

open Bytes Base64 Sending

/-- The parameters that carry a payload. -/
def paramsOf {Num : Type} (numeral : Num → Bytes) (body : Bytes) (secret : Bool)
    : List Bytes :=
  (sendAuthenticate body secret).map (Argument.part numeral)

/-- The chunks of an encoded payload. -/
def chunksOf (body : Bytes) : List Bytes :=
  (List.range ((body.length + 399) / 400)).map (fun k => (body.drop (400 * k)).take 400)

/-- The first chunk and those of the rest. -/
theorem chunksOf_of_ne_nil {body : Bytes} (nonempty : body ≠ [])
    : chunksOf body = body.take 400 :: chunksOf (body.drop 400) := by
  have positive := List.length_pos_iff.mpr nonempty
  have count : (body.length + 399) / 400 = ((body.drop 400).length + 399) / 400 + 1 := by
    rw [List.length_drop]
    omega
  simp only [chunksOf, count, List.range_succ_eq_map, List.map_cons, List.map_map,
    Nat.mul_zero, List.drop_zero, List.cons.injEq, true_and]
  refine List.map_congr_left fun k _ => ?_
  simp only [Function.comp_apply, List.drop_drop]
  congr 2
  omega

variable {Num : Type} (numeral : Num → Bytes) (secret : Bool)

/-- The parameters are the chunks, and a plus sign when no chunk is shorter. -/
theorem paramsOf_eq (body : Bytes)
    : paramsOf numeral body secret
      = if encodedSize body.length % 400 = 0 then chunksOf (encode body) ++ [lit "+"]
        else chunksOf (encode body) := by
  rw [← encode_length, paramsOf, sendAuthenticate]
  by_cases full : (encode body).length % 400 = 0
  · have same : (toBase64 body).length % 400 = 0 := full
    rw [if_pos full, if_pos same, List.map_append, List.map_map]
    rfl
  · have same : ¬ (toBase64 body).length % 400 = 0 := full
    rw [if_neg full, if_neg same, List.map_map]
    rfl

/-- The empty payload is a plus sign. -/
theorem paramsOf_nil : paramsOf numeral [] secret = [lit "+"] := by
  rw [paramsOf_eq]
  rfl

/-- A payload that does not fill a chunk is one parameter. -/
theorem paramsOf_short {body : Bytes} (nonempty : body ≠ []) (short : body.length < 298)
    : paramsOf numeral body secret = [encode body] := by
  have positive := List.length_pos_iff.mpr nonempty
  have size := encode_length body
  rw [encodedSize] at size
  have chunked : encode body ≠ [] := List.length_pos_iff.mp (by omega)
  rw [paramsOf_eq, if_neg (by rw [encodedSize]; omega), chunksOf_of_ne_nil chunked,
    List.take_of_length_le (by omega), List.drop_eq_nil_of_le (by omega)]
  rfl

/-- A payload that fills a chunk is the chunk for 300 bytes and the parameters of the rest. -/
theorem paramsOf_long {body : Bytes} (long : 298 ≤ body.length)
    : paramsOf numeral body secret
      = encode (body.take 300) :: paramsOf numeral (body.drop 300) secret := by
  have whole : encode body = encode (body.take 300) ++ encode (body.drop 300) := by
    by_cases full : 300 ≤ body.length
    · conv => lhs; rw [← List.take_append_drop 300 body]
      exact encode_append 100 _ _ (by rw [List.length_take]; omega)
    · rw [List.take_of_length_le (by omega), List.drop_eq_nil_of_le (by omega)]
      exact (List.append_nil _).symm
  have size : (encode (body.take 300)).length = 400 := by
    rw [encode_length, List.length_take, encodedSize]
    omega
  have chunked : encode body ≠ [] := by
    rw [whole]
    intro nothing
    have lengths := congrArg List.length nothing
    rw [List.length_append, size] at lengths
    simp at lengths
  have first : (encode body).take 400 = encode (body.take 300) := by
    rw [whole, List.take_left' size]
  have others : (encode body).drop 400 = encode (body.drop 300) := by
    rw [whole, List.drop_left' size]
  have ends : encodedSize body.length % 400 = 0
      ↔ encodedSize (body.drop 300).length % 400 = 0 := by
    simp only [encodedSize, List.length_drop]
    omega
  rw [paramsOf_eq, paramsOf_eq, chunksOf_of_ne_nil chunked, first, others]
  simp only [ends]
  split <;> rfl

/-- Every parameter fits into a message and is not empty, by induction on the chunks. -/
theorem paramsOf_sizes (body : Bytes)
    : ∀ param ∈ paramsOf numeral body secret, param ≠ [] ∧ param.length ≤ 400 := by
  induction size : body.length using Nat.strong_induction_on generalizing body with
  | _ size ih =>
      by_cases long : 298 ≤ body.length
      · rw [paramsOf_long numeral secret long]
        intro param member
        rcases List.mem_cons.mp member with rfl | later
        · have filled : (encode (body.take 300)).length = 400 := by
            rw [encode_length, List.length_take, encodedSize]
            omega
          exact ⟨List.length_pos_iff.mp (by omega), by omega⟩
        · exact ih (body.drop 300).length (by rw [List.length_drop]; omega) _ rfl param later
      · by_cases empty : body = []
        · subst empty
          rw [paramsOf_nil]
          intro param member
          obtain rfl := List.mem_singleton.mp member
          decide
        · rw [paramsOf_short numeral secret empty (by omega)]
          intro param member
          obtain rfl := List.mem_singleton.mp member
          have positive := List.length_pos_iff.mpr empty
          rw [← List.length_pos_iff, encode_length, encodedSize]
          omega

/-- An encoded chunk is received as what it encodes. -/
theorem receive_encode (chunks : List Bytes) {part : Bytes} (nonempty : part ≠ [])
    : receive chunks (some (encode part))
      = some (if (encode part).length < 400 then ([], some (chunks ++ [part]).flatten)
        else (chunks ++ [part], none)) := by
  have positive := List.length_pos_iff.mpr nonempty
  have size := encode_length part
  rw [encodedSize] at size
  have different : encode part ≠ lit "+" := by
    intro same
    rw [same] at size
    change 1 = _ at size
    omega
  have decoded : fromBase64 (encode part) = some part := fromBase64_toBase64 part
  simp only [receive, Option.bind_eq_bind, Option.bind_some, different, if_false, decoded,
    Option.map_some]
  split <;> rfl

/-- A payload is received behind what was kept before it, by induction on its chunks. -/
theorem receiveAll_params (body : Bytes) (chunks more : List Bytes)
    : receiveAll chunks (paramsOf numeral body secret ++ more)
      = (receiveAll [] more).map (fun result =>
          ((chunks.flatten ++ body) :: result.1, result.2)) := by
  induction size : body.length using Nat.strong_induction_on generalizing body chunks with
  | _ size ih =>
      by_cases long : 298 ≤ body.length
      · have filled : ¬ (encode (body.take 300)).length < 400 := by
          rw [encode_length, List.length_take, encodedSize]
          omega
        have part : body.take 300 ≠ [] := by
          rw [← List.length_pos_iff, List.length_take]
          omega
        have later := ih (body.drop 300).length (by rw [List.length_drop]; omega) _
          (chunks ++ [body.take 300]) rfl
        rw [paramsOf_long numeral secret long, List.cons_append, receiveAll,
          receive_encode chunks part, if_neg filled]
        simp only [Option.bind_eq_bind, Option.bind_some, later, List.flatten_append,
          List.flatten_singleton, List.append_assoc, List.take_append_drop]
        cases receiveAll [] more <;> rfl
      · by_cases empty : body = []
        · subst empty
          rw [paramsOf_nil, List.singleton_append, receiveAll, List.append_nil]
          have ends : receive chunks (some (lit "+")) = some ([], some chunks.flatten) := rfl
          simp only [ends, Option.bind_eq_bind, Option.bind_some]
          cases receiveAll [] more <;> rfl
        · have short : (encode body).length < 400 := by
            rw [encode_length, encodedSize]
            omega
          rw [paramsOf_short numeral secret empty (by omega), List.singleton_append,
            receiveAll, receive_encode chunks empty, if_pos short]
          simp only [Option.bind_eq_bind, Option.bind_some, List.flatten_append,
            List.flatten_singleton]
          cases receiveAll [] more <;> rfl

/-- However many payloads are sent one after the other, the receiver gets exactly these
payloads and keeps no chunk; and every parameter is non-empty and fits into a message.
-/
theorem authenticate_round_trip (payloads : List (Bytes × Bool))
    : receiveAll [] (payloads.flatMap (fun sent => paramsOf numeral sent.1 sent.2))
        = some (payloads.map Prod.fst, [])
      ∧ ∀ param ∈ payloads.flatMap (fun sent => paramsOf numeral sent.1 sent.2),
          param ≠ [] ∧ param.length ≤ 400 := by
  constructor
  · induction payloads with
    | nil => rfl
    | cons sent payloads ih =>
        rw [List.flatMap_cons, receiveAll_params, ih]
        rfl
  · intro param member
    obtain ⟨sent, _, carried⟩ := List.mem_flatMap.mp member
    exact paramsOf_sizes numeral sent.2 sent.1 param carried

end Snowcone.Sasl
