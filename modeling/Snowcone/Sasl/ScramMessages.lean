import Snowcone.Sasl.Scram

/-! The messages of the SCRAM mechanism: what its patterns match, and what it does with a
server's message.
-/

namespace Snowcone.Sasl

open Bytes Base64 Coroutine LuaPattern

/-- Characters of the base64 alphabet, and at most two equals signs behind them. -/
inductive Base64Text : Bytes → Prop
  | intro {letters padding : Bytes} (allLetters : ∀ c ∈ letters, isBase64Char c = true)
    (allPadding : ∀ c ∈ padding, c = chr '=') (short : padding.length ≤ 2)
    : Base64Text (letters ++ padding)

/-- The items for a base64 text, behind captures that are finished. -/
theorem fits_base64Items_iff {items : List (Item Byte)} {subject : Bytes}
    {captures : List (Capture Byte)} {result : List Bytes}
    (finished : ∀ capture ∈ captures, capture.finished = true)
    : Fits (base64Items ++ items) subject captures result
      ↔ ∃ text rest, subject = text ++ rest ∧ Base64Text text
        ∧ Fits items rest (captures ++ [{ text, finished := true }]) result := by
  have unfold_items : base64Items ++ items =
      .openCapture :: .single isBase64Char .many :: .single (· == chr '=') .optional
        :: .single (· == chr '=') .optional :: .closeCapture :: items :=
    rfl
  simp only [unfold_items, fits_openCapture_iff, fits_single_iff, fits_closeCapture_iff,
    extend_open finished, finishLast_open, List.nil_append, Repeat.Allows, beq_iff_eq, true_and]
  constructor
  · rintro ⟨letters, _, rfl, allLetters, first, _, rfl, isFirst, oneFirst, second, rest, rfl,
      isSecond, oneSecond, fits⟩
    refine ⟨letters ++ (first ++ second), rest, by simp, .intro allLetters ?_ ?_, ?_⟩
    · intro c isIn
      exact (List.mem_append.mp isIn).elim (isFirst c) (isSecond c)
    · rw [List.length_append]
      omega
    · simpa using fits
  · rintro ⟨_, rest, rfl, @⟨letters, padding, allLetters, allPadding, short⟩, fits⟩
    refine ⟨letters, padding ++ rest, by simp, allLetters, padding.take 1,
      padding.drop 1 ++ rest, ?_, fun c isIn => allPadding c (List.mem_of_mem_take isIn), ?_,
      padding.drop 1, rest, rfl, fun c isIn => allPadding c (List.mem_of_mem_drop isIn), ?_, ?_⟩
    · rw [← List.append_assoc, List.take_append_drop]
    · rw [List.length_take]
      omega
    · rw [List.length_drop]
      omega
    · rwa [List.append_assoc, List.take_append_drop]

/-- The parts of a server-first message. -/
structure ServerFirstParts (subject nonce salt64 digits : Bytes) : Prop where
  whole : subject = lit "r=" ++ (nonce ++ (lit ",s=" ++ (salt64 ++ (lit ",i=" ++ digits))))
  nonceChars : ∀ c ∈ nonce, isNonceChar c = true
  saltText : Base64Text salt64
  someDigits : 1 ≤ digits.length
  allDigits : ∀ c ∈ digits, isDigit c = true

/-- Nothing is captured at the start. -/
theorem finished_nil : ∀ capture ∈ ([] : List (Capture Byte)), capture.finished = true := by
  simp

/-- The pattern of a server-first message. -/
theorem fits_serverFirst_iff {subject : Bytes} {result : List Bytes}
    : Fits serverFirstPattern subject [] result
      ↔ ∃ nonce salt64 digits, ServerFirstParts subject nonce salt64 digits
        ∧ result = [nonce, salt64, digits] := by
  have one (nonce : Bytes) : ∀ capture ∈ [({ text := nonce, finished := true } : Capture Byte)],
      capture.finished = true := by
    simp
  have two (nonce salt64 : Bytes)
      : ∀ capture ∈ [({ text := nonce, finished := true } : Capture Byte),
        { text := salt64, finished := true }], capture.finished = true := by
    simp
  simp only [serverFirstPattern, fits_literal_iff, extend_finished finished_nil,
    extend_finished (one _), extend_finished (two _ _), List.cons_append, List.nil_append,
    fits_capture_iff finished_nil, fits_base64Items_iff (one _), fits_capture_iff (two _ _),
    fits_endOfSubject_iff, fits_nil_iff, Repeat.Allows, true_and, List.map_cons, List.map_nil]
  constructor
  · rintro ⟨_, rfl, nonce, _, rfl, nonceChars, _, rfl, salt64, _, rfl, saltText, _, rfl, digits, _,
      rfl, allDigits, someDigits, rfl, rfl⟩
    exact ⟨nonce, salt64, digits, ⟨by simp, nonceChars, saltText, someDigits, allDigits⟩, rfl⟩
  · rintro ⟨nonce, salt64, digits, ⟨rfl, nonceChars, saltText, someDigits, allDigits⟩, rfl⟩
    exact ⟨_, rfl, nonce, _, rfl, nonceChars, _, rfl, salt64, _, rfl, saltText, _, rfl, digits, [],
      by simp, allDigits, someDigits, rfl, rfl⟩

/-- The pattern of a server-final message. -/
theorem fits_serverFinal_iff {subject : Bytes} {result : List Bytes}
    : Fits serverFinalPattern subject [] result
      ↔ ∃ sig64, subject = lit "v=" ++ sig64 ∧ Base64Text sig64 ∧ result = [sig64] := by
  simp only [serverFinalPattern, fits_literal_iff, extend_finished finished_nil,
    fits_base64Items_iff finished_nil, fits_endOfSubject_iff, fits_nil_iff]
  constructor
  · rintro ⟨_, rfl, sig64, _, rfl, isText, rfl, rfl⟩
    exact ⟨sig64, by simp, isText, rfl⟩
  · rintro ⟨sig64, rfl, isText, rfl⟩
    exact ⟨sig64, rfl, sig64, [], by simp, isText, rfl, rfl⟩

-----------------------------------------------------------------------------------------
-- What is found
-----------------------------------------------------------------------------------------

/-- A base64 text has no comma. -/
theorem Base64Text.no_comma {text : Bytes} (isText : Base64Text text) : chr ',' ∉ text := by
  obtain @⟨letters, padding, allLetters, allPadding, -⟩ := isText
  intro isIn
  rcases List.mem_append.mp isIn with isLetter | isPadding
  · exact absurd (allLetters _ isLetter) (by decide)
  · exact absurd (allPadding _ isPadding) (by decide)

/-- A nonce has no comma. -/
theorem nonce_no_comma {nonce : Bytes} (nonceChars : ∀ c ∈ nonce, isNonceChar c = true)
    : chr ',' ∉ nonce :=
  fun isIn => absurd (nonceChars _ isIn) (by decide)

/-- What stands before the first comma is determined, and so is the rest. -/
theorem split_comma {first first' rest rest' : Bytes} (absent : chr ',' ∉ first)
    (absent' : chr ',' ∉ first')
    (same : first ++ chr ',' :: rest = first' ++ chr ',' :: rest')
    : first = first' ∧ rest = rest' := by
  have sameFirst := congrArg (before (chr ',')) same
  rw [before_append_cons absent, before_append_cons absent'] at sameFirst
  refine ⟨sameFirst, ?_⟩
  rw [sameFirst] at same
  exact List.tail_eq_of_cons_eq (List.append_cancel_left same)

/-- A server-first message has only one set of parts. -/
theorem ServerFirstParts.unique {subject nonce nonce' salt64 salt64' digits digits' : Bytes}
    (parts : ServerFirstParts subject nonce salt64 digits)
    (parts' : ServerFirstParts subject nonce' salt64' digits')
    : nonce = nonce' ∧ salt64 = salt64' ∧ digits = digits' := by
  have same := List.append_cancel_left (parts.whole.symm.trans parts'.whole)
  obtain ⟨sameNonce, saltOn⟩ := split_comma (nonce_no_comma parts.nonceChars)
    (nonce_no_comma parts'.nonceChars) same
  have saltOn : lit "s=" ++ (salt64 ++ (lit ",i=" ++ digits))
      = lit "s=" ++ (salt64' ++ (lit ",i=" ++ digits')) :=
    saltOn
  obtain ⟨sameSalt, digitsOn⟩ := split_comma parts.saltText.no_comma parts'.saltText.no_comma
    (List.append_cancel_left saltOn)
  have digitsOn : lit "i=" ++ digits = lit "i=" ++ digits' := digitsOn
  exact ⟨sameNonce, sameSalt, List.append_cancel_left digitsOn⟩

/-- The pattern finds the parts of a server-first message. -/
theorem ServerFirstParts.found {subject nonce salt64 digits : Bytes}
    (parts : ServerFirstParts subject nonce salt64 digits)
    : stringMatch serverFirstPattern subject = some [nonce, salt64, digits] := by
  refine stringMatch_eq_some (fits_serverFirst_iff.mpr ⟨_, _, _, parts, rfl⟩) ?_
  intro other fits
  obtain ⟨nonce', salt64', digits', parts', rfl⟩ := fits_serverFirst_iff.mp fits
  obtain ⟨rfl, rfl, rfl⟩ := parts.unique parts'
  rfl

/-- The pattern finds the text of a server-final message. -/
theorem serverFinal_found {sig64 : Bytes} (isText : Base64Text sig64)
    : stringMatch serverFinalPattern (lit "v=" ++ sig64) = some [sig64] := by
  refine stringMatch_eq_some (fits_serverFinal_iff.mpr ⟨_, rfl, isText, rfl⟩) ?_
  intro other fits
  obtain ⟨sig64', same, -, rfl⟩ := fits_serverFinal_iff.mp fits
  rw [List.append_cancel_left same]

/-- An accepted server-final message carries the server's signature. -/
theorem readServerFinal_ok {serverSignature serverFinal : Bytes}
    (accepted : readServerFinal serverSignature serverFinal = .ok ())
    : ∃ sig64, serverFinal = lit "v=" ++ sig64 ∧ fromBase64 sig64 = some serverSignature := by
  unfold readServerFinal at accepted
  split at accepted
  case h_2 => cases accepted
  case h_1 sig64 found =>
    obtain ⟨other, whole, -, same⟩ := fits_serverFinal_iff.mp (fits_of_matchHere found)
    obtain rfl := List.head_eq_of_cons_eq same
    refine ⟨sig64, whole, ?_⟩
    split at accepted
    case h_1 => cases accepted
    case h_2 sig decoded =>
      split at accepted
      case isFalse => cases accepted
      case isTrue isSame => rw [decoded, isSame]

/-- What the client checks of a server-first message. -/
structure Accepted (name : DigestName) (clientNonce serverFirst : Bytes) (first : ServerFirst)
    : Prop where
  begins : lit "r=" <+: serverFirst
  extendsNonce : clientNonce <+: first.nonce
  longEnough : clientNonce.length + minNonceLen ≤ first.nonce.length
  enough : name.iterationMin ≤ first.iterations
  notTooMany : first.iterations ≤ name.iterationMax

/-- An accepted server-first message has passed every check, by cases on the checks. -/
theorem readServerFirst_ok {name : DigestName} {clientNonce serverFirst : Bytes}
    {first : ServerFirst} (accepted : readServerFirst name clientNonce serverFirst = .ok first)
    : Accepted name clientNonce serverFirst first := by
  unfold readServerFirst at accepted
  split at accepted
  case h_2 => cases accepted
  case h_1 serverNonce salt64 digits found =>
    obtain ⟨_, _, _, parts, -⟩ := fits_serverFirst_iff.mp (fits_of_matchHere found)
    split at accepted
    case h_1 => cases accepted
    case h_2 salt _ =>
      split_ifs at accepted with other short
      split at accepted
      case h_1 => cases accepted
      case h_2 iterations _ =>
        split_ifs at accepted with few many
        obtain rfl := Except.ok.inj accepted
        exact ⟨⟨_, parts.whole.symm⟩, other, Nat.le_of_not_lt short,
          Nat.le_of_not_lt few, Nat.le_of_not_lt many⟩

-----------------------------------------------------------------------------------------
-- The mechanism's steps
-----------------------------------------------------------------------------------------

section Steps

variable {digest : Digest} {name : DigestName} {credentials : Credentials}
  {serverFirst serverFinal : Bytes} {first : ServerFirst} {message : String}

/-- The mechanism when it waits for the server-final message. -/
def awaitServerFinal (digest : Digest) (credentials : Credentials) (serverFirst : Bytes)
    (first : ServerFirst) (serverFinal : Bytes)
    : Mechanism :=
  if lit "e=" <+: serverFinal then .returns none
  else
    match readServerFinal (digest.serverSignature credentials serverFirst first) serverFinal with
    | .error message => .raises message
    | .ok () => .returns (some [])

/-- The mechanism when it waits for the server-first message. -/
def awaitServerFirst (digest : Digest) (name : DigestName) (credentials : Credentials)
    (serverFirst : Bytes)
    : Mechanism :=
  if lit "e=" <+: serverFirst then .returns none
  else
    match readServerFirst name credentials.nonce serverFirst with
    | .error message => .raises message
    | .ok first =>
        .yields (digest.clientFinal credentials serverFirst first)
          (awaitServerFinal digest credentials serverFirst first)

/-- The mechanism starts with the client's first message. -/
theorem scramBody_eq
    : scramBody digest name credentials
      = .yields credentials.clientFirst (awaitServerFirst digest name credentials) := by
  unfold scramBody
  rfl

/-- Text that begins in one way does not begin in another. -/
theorem not_error {begins : Bytes} {c : Byte} (whole : [c, chr '='] <+: begins)
    (other : c ≠ chr 'e')
    : ¬ lit "e=" <+: begins := by
  obtain ⟨rest, rfl⟩ := whole
  intro error
  obtain ⟨rest', same⟩ := error
  exact other (List.head_eq_of_cons_eq same).symm

/-- An accepted server-first message is answered with the client's last message. -/
theorem awaitServerFirst_accepted
    (negotiated : readServerFirst name credentials.nonce serverFirst = .ok first)
    : awaitServerFirst digest name credentials serverFirst
      = .yields (digest.clientFinal credentials serverFirst first)
        (awaitServerFinal digest credentials serverFirst first) := by
  have noError := not_error (readServerFirst_ok negotiated).begins (by decide)
  simp only [awaitServerFirst, if_neg noError, negotiated]

/-- A server-final message with the server's signature ends the mechanism. -/
theorem awaitServerFinal_accepted {sig64 : Bytes} (isText : Base64Text sig64)
    (signed : fromBase64 sig64 = some (digest.serverSignature credentials serverFirst first))
    : awaitServerFinal digest credentials serverFirst first (lit "v=" ++ sig64)
      = .returns (some []) := by
  have noError : ¬ lit "e=" <+: lit "v=" ++ sig64 :=
    not_error (List.prefix_append (lit "v=") sig64) (by decide)
  have accepted : readServerFinal (digest.serverSignature credentials serverFirst first)
      (lit "v=" ++ sig64) = .ok () := by
    simp only [readServerFinal, serverFinal_found isText, signed, if_true]
  simp only [awaitServerFinal, if_neg noError, accepted]

end Steps

end Snowcone.Sasl
