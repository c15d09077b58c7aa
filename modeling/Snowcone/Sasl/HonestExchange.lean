import Mathlib.Data.List.Basic
import Snowcone.Base64.RoundTrip
import Snowcone.Sasl.ScramMessages
import Snowcone.Sasl.Server

/-! The SCRAM mechanism against an honest server: both sides end up with the same names and
accept each other's proof.
-/

namespace Snowcone.Sasl

open Bytes Base64 Coroutine LuaPattern

/-- A mechanism that yields a message and then waits. -/
def speaks : Except Refusal Mechanism → Option (Bytes × State Bytes Bytes String (Option Bytes))
  | .ok (.yields message next) => some (message, .suspended next)
  | _ => none

/-- A mechanism that returns. -/
def finishes : Except Refusal Mechanism → Option (Option Bytes)
  | .ok (.returns result) => some result
  | _ => none

/-- The mechanism and the server answer each other; the result are the server's session and
what the mechanism returns, if neither of them gives up.
-/
def converse (digest : Digest) (account : Account) (suffix : Bytes)
    (co : State Bytes Bytes String (Option Bytes))
    : Option (Session × Option Bytes) := do
  let (clientFirst, co) ← speaks (co.resume [])
  let session ← readClientFirst clientFirst
  let (clientFinal, co) ← speaks (co.resume (account.serverFirst session suffix))
  let serverFinal ← account.answer digest session suffix clientFinal
  let result ← finishes (co.resume serverFinal)
  pure (session, result)

-----------------------------------------------------------------------------------------
-- Names and attributes
-----------------------------------------------------------------------------------------

/-- A comma in a name is escaped, by induction on the name. -/
theorem encode_no_comma (name : Bytes) : chr ',' ∉ scramEncodeUsername name := by
  intro isIn
  obtain ⟨c, -, escaped⟩ := List.mem_flatMap.mp isIn
  split at escaped
  · exact absurd escaped (by decide)
  · split at escaped
    · exact absurd escaped (by decide)
    · next notComma _ => exact notComma (List.mem_singleton.mp escaped).symm

/-- An escaped name is read as it was, by induction on the name. -/
theorem decodeName_encode (name : Bytes) : decodeName (scramEncodeUsername name) = some name := by
  induction name with
  | nil => rfl
  | cons c name ih =>
      have whole : scramEncodeUsername (c :: name)
          = (if c = chr ',' then [chr '=', chr '2', chr 'C']
            else if c = chr '=' then [chr '=', chr '3', chr 'D']
            else [c]) ++ scramEncodeUsername name :=
        rfl
      rw [whole]
      split
      case isTrue isComma =>
        subst isComma
        simp [decodeName, ih]
      case isFalse notComma =>
        split
        case isTrue isEquals =>
          subst isEquals
          have other : ¬ (chr '3' = chr '2' ∧ chr 'D' = chr 'C') := by decide
          simp [decodeName, ih, other]
        case isFalse notEquals =>
          rw [List.singleton_append, decodeName.eq_def]
          simp [ih, notComma, notEquals]

/-- An attribute with more behind it. -/
theorem splitAttribute_append {first : Bytes} (rest : Bytes) (absent : chr ',' ∉ first)
    : splitAttribute (first ++ (lit "," ++ rest)) = (first, rest) := by
  have whole : first ++ (lit "," ++ rest) = first ++ chr ',' :: rest := rfl
  rw [whole, splitAttribute, before_append_cons absent, onwards_append_cons absent, List.tail_cons]

/-- The value of an attribute. -/
theorem valueOf_append (letter : Char) (value : Bytes)
    : valueOf letter ([chr letter, chr '='] ++ value) = some value := by
  simp [valueOf]

/-- A nonce of printable characters other than the comma. -/
def NonceText (nonce : Bytes) : Prop := ∀ c ∈ nonce, isNonceChar c = true

/-- What the server reads in a message with the right parts. -/
theorem readClientFirst_parts {name bare user nonce username clientNonce : Bytes}
    {authzid : Option Bytes} (nameWhole : chr ',' ∉ name)
    (bareSplit : splitAttribute bare = (user, nonce))
    (authzidRead : readAuthzid name = some authzid)
    (usernameRead : (valueOf 'n' user).bind decodeName = some username)
    (nonceRead : valueOf 'r' nonce = some clientNonce) (nonceWhole : chr ',' ∉ clientNonce)
    : readClientFirst (lit "n" ++ (lit "," ++ (name ++ (lit "," ++ bare))))
      = some {
        gs2Header := lit "n" ++ lit "," ++ name ++ lit ","
        authzid
        username
        clientNonce
        clientFirstBare := bare
      } := by
  have flagWhole : chr ',' ∉ lit "n" := by decide
  simp only [readClientFirst, splitAttribute_append _ flagWhole,
    splitAttribute_append _ nameWhole, bareSplit, authzidRead, usernameRead, nonceRead, guard,
    if_true, nonceWhole, not_false_eq_true, Option.bind_eq_bind, Option.bind_some, Option.pure_def]

/-- The session that the client's credentials lead to. -/
def Credentials.session (credentials : Credentials) : Session :=
  {
    gs2Header := credentials.gs2Header
    authzid := credentials.authzid
    username := credentials.authcid
    clientNonce := credentials.nonce
    clientFirstBare := credentials.clientFirstBare
  }

/-- The server reads the client's first message as it was meant, by cases on whether there
is an authorization identity.
-/
theorem readClientFirst_clientFirst {credentials : Credentials}
    (nonceText : NonceText credentials.nonce)
    : readClientFirst credentials.clientFirst = some credentials.session := by
  have escaped (letter : Char) (name : Bytes) (isLetter : chr letter ≠ chr ',')
      : chr ',' ∉ [chr letter, chr '='] ++ scramEncodeUsername name := by
    intro isIn
    rcases List.mem_append.mp isIn with isStart | isName
    · have equalsIsNot : chr ',' ≠ chr '=' := by decide
      simp [equalsIsNot, isLetter.symm] at isStart
    · exact encode_no_comma _ isName
  have read (letter : Char) (name : Bytes)
      : (valueOf letter ([chr letter, chr '='] ++ scramEncodeUsername name)).bind decodeName
        = some name := by
    rw [valueOf_append, Option.bind_some, decodeName_encode]
  have bareSplit : splitAttribute credentials.clientFirstBare
      = (lit "n=" ++ scramEncodeUsername credentials.authcid, lit "r=" ++ credentials.nonce) := by
    have whole : credentials.clientFirstBare
        = (lit "n=" ++ scramEncodeUsername credentials.authcid)
          ++ (lit "," ++ (lit "r=" ++ credentials.nonce)) := by
      simp [Credentials.clientFirstBare, lit]
    rw [whole]
    exact splitAttribute_append _ (escaped 'n' _ (by decide))
  have reads {name : Bytes} (nameWhole : chr ',' ∉ name)
      (authzidRead : readAuthzid name = some credentials.authzid) :=
    readClientFirst_parts nameWhole bareSplit authzidRead (read 'n' _)
      (valueOf_append 'r' credentials.nonce) (nonce_no_comma nonceText)
  cases authzid : credentials.authzid with
  | none =>
      have whole : credentials.clientFirst
          = lit "n" ++ (lit "," ++ ([] ++ (lit "," ++ credentials.clientFirstBare))) := by
        simp [Credentials.clientFirst, Credentials.gs2Header, authzid, lit]
      rw [whole, reads (by simp) (by rw [authzid]; rfl), Credentials.session,
        Credentials.gs2Header, authzid]
      rfl
  | some name =>
      have whole : credentials.clientFirst
          = lit "n" ++ (lit "," ++ ((lit "a=" ++ scramEncodeUsername name)
            ++ (lit "," ++ credentials.clientFirstBare))) := by
        simp [Credentials.clientFirst, Credentials.gs2Header, authzid, lit]
      have authzidRead : readAuthzid (lit "a=" ++ scramEncodeUsername name)
          = some credentials.authzid := by
        have present : lit "a=" ++ scramEncodeUsername name ≠ [] := by simp [lit]
        rw [readAuthzid, if_neg present, authzid]
        exact congrArg (Option.map some) (read 'a' name)
      refine (congrArg readClientFirst whole).trans
        ((reads (escaped 'a' name (by decide)) authzidRead).trans ?_)
      simp [Credentials.session, Credentials.gs2Header, authzid, lit]

-----------------------------------------------------------------------------------------
-- Values
-----------------------------------------------------------------------------------------

/-- The base64 alphabet is the class of the patterns. -/
theorem isBase64Char_of_mem {c : Byte} (isIn : c ∈ alphabet) : isBase64Char c = true :=
  List.all_eq_true.mp (by decide +kernel : alphabet.all isBase64Char = true) c isIn

/-- What is encoded has the form that the patterns ask for, by induction on its groups. -/
theorem base64Text_encode (input : Bytes) : Base64Text (encode input) := by
  have extracted (buffer i : UInt32) : isBase64Char (extract buffer i) = true :=
    isBase64Char_of_mem (extract_mem buffer i)
  fun_induction encode input with
  | case1 a b c rest buffer ih =>
      generalize encode rest = text at ih
      obtain @⟨letters, padding, allLetters, allPadding, short⟩ := ih
      rw [← List.append_assoc]
      refine .intro ?_ allPadding short
      simpa [extracted] using allLetters
  | case2 a b buffer =>
      exact @Base64Text.intro [extract buffer 2, extract buffer 1, extract buffer 0] [chr '=']
        (by simp [extracted]) (by simp) (by simp)
  | case3 a buffer =>
      exact @Base64Text.intro [extract buffer 2, extract buffer 1] [chr '=', chr '=']
        (by simp [extracted]) (by simp) (by simp)
  | case4 => exact @Base64Text.intro [] [] (by simp) (by simp) (by simp)

/-- A digit in a decimal number is a digit of the patterns, with its value. -/
theorem chr_digit {c : Char} (isDigitChar : c.isDigit = true)
    : isDigit (chr c) = true ∧ (chr c).toNat - 0x30 = c.toNat - '0'.toNat := by
  have range : 48 ≤ c.toNat ∧ c.toNat ≤ 57 := by
    simpa [Char.isDigit, UInt32.le_iff_toNat_le] using isDigitChar
  have value : (chr c).toNat = c.toNat := by
    rw [chr, Nat.toUInt8, UInt8.toNat_ofNat']
    omega
  refine ⟨?_, by rw [value]; rfl⟩
  rw [isDigit, Bool.and_eq_true, decide_eq_true_eq, decide_eq_true_eq, UInt8.le_iff_toNat_le,
    UInt8.le_iff_toNat_le, value]
  exact range

/-- A number is read back from its decimal digits. -/
theorem tointeger_decimal {n : Nat} (small : n < 0x8000000000000000)
    : tointeger (decimal n) = some n ∧ 1 ≤ (decimal n).length
      ∧ ∀ c ∈ decimal n, isDigit c = true := by
  have digits : ∀ c ∈ Nat.toDigits 10 n, c.isDigit = true :=
    fun c isIn => Nat.isDigit_of_mem_toDigits (by decide) (by decide) isIn
  refine ⟨?_, ?_, ?_⟩
  · have value : (decimal n).foldl (fun n c => 10 * n + (c.toNat - 0x30)) 0 = n := by
      rw [decimal, List.foldl_map]
      refine Eq.trans ?_ (Nat.ofDigitChars_ten_toDigits (n := n))
      rw [Nat.ofDigitChars_eq_foldl]
      exact List.foldl_ext _ _ 0 (fun total c isIn => by rw [(chr_digit (digits c isIn)).2])
    simp only [tointeger, value, small, if_true]
  · rw [decimal, List.length_map]
    exact List.length_pos_iff.mpr Nat.toDigits_ne_nil
  · intro c isIn
    obtain ⟨digit, isDigitIn, rfl⟩ := List.mem_map.mp isIn
    exact (chr_digit (digits digit isDigitIn)).1

/-- Adding the same string twice changes nothing, by induction on the strings. -/
theorem zipWith_xor {left right : Bytes} (same : left.length = right.length)
    : List.zipWith (· ^^^ ·) (xor left right) right = left := by
  induction left generalizing right with
  | nil =>
      cases right with
      | nil => rfl
      | cons b right => cases same
  | cons a left ih =>
      cases right with
      | nil => cases same
      | cons b right =>
          rw [xor, List.zipWith_cons_cons, ih (Nat.succ.inj same), UInt8.xor_assoc,
            UInt8.xor_self, UInt8.xor_zero]

/-- What the client reads in the server's first message. -/
theorem readServerFirst_honest {name : DigestName} {account : Account} {session : Session}
    {suffix : Bytes} (nonceText : NonceText session.clientNonce) (suffixText : NonceText suffix)
    (long : minNonceLen ≤ suffix.length) (enough : name.iterationMin ≤ account.iterations)
    (notTooMany : account.iterations ≤ name.iterationMax)
    : readServerFirst name session.clientNonce (account.serverFirst session suffix)
      = .ok {
        nonce := session.clientNonce ++ suffix
        salt := account.salt
        iterations := account.iterations
      } := by
  have small : account.iterations < 0x8000000000000000 := by
    refine Nat.lt_of_le_of_lt notTooMany ?_
    cases name <;> decide
  obtain ⟨isNumber, someDigits, allDigits⟩ := tointeger_decimal small
  have found : stringMatch serverFirstPattern (account.serverFirst session suffix)
      = some [session.clientNonce ++ suffix, toBase64 account.salt, decimal account.iterations] :=
    ServerFirstParts.found {
      whole := rfl
      nonceChars := fun c isIn => (List.mem_append.mp isIn).elim (nonceText c) (suffixText c)
      saltText := base64Text_encode account.salt
      someDigits
      allDigits
    }
  have extendsNonce : session.clientNonce <+: session.clientNonce ++ suffix :=
    List.prefix_append _ _
  have longEnough : ¬ (session.clientNonce ++ suffix).length
      < session.clientNonce.length + minNonceLen := by
    rw [List.length_append]
    omega
  simp only [readServerFirst, found, fromBase64_toBase64, extendsNonce, not_true_eq_false, if_false,
    longEnough, isNumber, Nat.not_lt.mpr enough, Nat.not_lt.mpr notTooMany]

-----------------------------------------------------------------------------------------
-- The exchange succeeds
-----------------------------------------------------------------------------------------

/-- The parts of the client's last message, and what both sides sign. -/
theorem clientFinal_parts (digest : Digest) (credentials : Credentials) (serverFirst : Bytes)
    (first : ServerFirst)
    : digest.clientFinal credentials serverFirst first
        = (lit "c=" ++ toBase64 credentials.gs2Header)
          ++ (lit "," ++ ((lit "r=" ++ first.nonce)
            ++ (lit "," ++ (lit "p="
              ++ toBase64 (digest.clientProof credentials serverFirst first)))))
      ∧ credentials.clientFirstBare ++ lit "," ++ serverFirst ++ lit ","
          ++ ((lit "c=" ++ toBase64 credentials.gs2Header) ++ lit "," ++ (lit "r=" ++ first.nonce))
        = credentials.authMessage serverFirst first.nonce := by
  constructor
  · simp [Digest.clientFinal, Credentials.clientFinalWithoutProof, lit]
  · simp [Credentials.authMessage, Credentials.clientFinalWithoutProof, lit]

/-- The server accepts the client's last message, and its answer carries its signature. -/
theorem answer_clientFinal {digest : Digest} {credentials : Credentials} {account : Account}
    {suffix serverFirst : Bytes} {first : ServerFirst}
    (fixed : ∀ data key, (digest.hmac data key).length = digest.size)
    (sent : account.serverFirst credentials.session suffix = serverFirst)
    (sameNonce : first.nonce = credentials.session.clientNonce ++ suffix)
    (nonceText : NonceText first.nonce)
    (created : account = Account.create digest credentials.password first.salt first.iterations)
    : account.answer digest credentials.session suffix
        (digest.clientFinal credentials serverFirst first)
      = some (lit "v=" ++ toBase64 (digest.serverSignature credentials serverFirst first)) := by
  obtain ⟨whole, signed⟩ := clientFinal_parts digest credentials serverFirst first
  have channelWhole : chr ',' ∉ lit "c=" ++ toBase64 credentials.gs2Header := by
    intro isIn
    rcases List.mem_append.mp isIn with isLetter | isText
    · exact absurd isLetter (by decide)
    · exact (base64Text_encode _).no_comma isText
  have nonceWhole : chr ',' ∉ lit "r=" ++ first.nonce := by
    intro isIn
    rcases List.mem_append.mp isIn with isLetter | isNonce
    · exact absurd isLetter (by decide)
    · exact nonce_no_comma nonceText isNonce
  have channel : valueOf 'c' (lit "c=" ++ toBase64 credentials.gs2Header)
      = some (toBase64 credentials.gs2Header) :=
    valueOf_append 'c' _
  have nonce : valueOf 'r' (lit "r=" ++ first.nonce) = some first.nonce := valueOf_append 'r' _
  have proof : valueOf 'p' (lit "p=" ++ toBase64 (digest.clientProof credentials serverFirst first))
      = some (toBase64 (digest.clientProof credentials serverFirst first)) :=
    valueOf_append 'p' _
  have storedKey : account.storedKey = digest.digest
      (digest.hmac (lit "Client Key") (digest.saltedPassword credentials.password first)) := by
    rw [created]
    rfl
  have serverKey : account.serverKey
      = digest.hmac (lit "Server Key") (digest.saltedPassword credentials.password first) := by
    rw [created]
    rfl
  -- the proof reveals the client key, because the signature is as long as the key
  have revealed : List.zipWith (· ^^^ ·) (digest.clientProof credentials serverFirst first)
        (digest.hmac (credentials.authMessage serverFirst first.nonce) account.storedKey)
      = digest.hmac (lit "Client Key") (digest.saltedPassword credentials.password first) := by
    rw [storedKey]
    exact zipWith_xor (by rw [fixed, fixed])
  have isHeader : (guard (credentials.gs2Header = credentials.session.gs2Header) : Option Unit)
      = some () :=
    if_pos rfl
  have isNonce : (guard (some first.nonce = some (credentials.session.clientNonce ++ suffix))
      : Option Unit) = some () :=
    if_pos (congrArg some sameNonce)
  have isKey : (guard (digest.digest (digest.hmac (lit "Client Key")
      (digest.saltedPassword credentials.password first)) = account.storedKey) : Option Unit)
      = some () :=
    if_pos storedKey.symm
  have bare : credentials.session.clientFirstBare = credentials.clientFirstBare := rfl
  rw [whole]
  simp only [Account.answer, splitAttribute_append _ channelWhole,
    splitAttribute_append _ nonceWhole, channel, nonce, proof, fromBase64_toBase64,
    Option.bind_eq_bind, Option.bind_some, isHeader, isNonce, bare, sent, signed, revealed, isKey,
    Option.pure_def, serverKey, Digest.serverSignature]

/-- An exchange whose messages follow each other. -/
theorem converse_messages {digest : Digest} {account : Account}
    {suffix clientFirst clientFinal serverFinal : Bytes} {session : Session}
    {result : Option Bytes} {start next last : Bytes → Mechanism}
    (starts : speaks (.ok (start [])) = some (clientFirst, .suspended next))
    (reads : readClientFirst clientFirst = some session)
    (replies : speaks (.ok (next (account.serverFirst session suffix)))
      = some (clientFinal, .suspended last))
    (answers : account.answer digest session suffix clientFinal = some serverFinal)
    (ends : finishes (.ok (last serverFinal)) = some result)
    : converse digest account suffix (.suspended start) = some (session, result) := by
  simp only [converse, State.resume, starts, reads, replies, answers, ends, Option.bind_eq_bind,
    Option.bind_some, Option.pure_def]

/-- Every run against an honest server that stores the keys of the same password: the
server learns exactly the names that the client was given, it accepts the channel binding,
the nonce and the proof, and the client accepts the server and finishes. Witness: one lemma
for each message, along the exchange.
-/
theorem scram_honest_exchange {digest : Digest} {name : DigestName} {prep : Bytes → Bytes}
    {rand authcid password nonce suffix salt : Bytes} {authzid : Option Bytes} {iterations : Nat}
    (fixed : ∀ data key, (digest.hmac data key).length = digest.size)
    (nonceText : NonceText nonce) (suffixText : NonceText suffix)
    (long : minNonceLen ≤ suffix.length) (enough : name.iterationMin ≤ iterations)
    (notTooMany : iterations ≤ name.iterationMax)
    : ∃ co session,
      scram digest name (fun text => .ok (prep text)) rand authzid authcid password (some nonce)
        = .ok co
      ∧ converse digest (Account.create digest (prep password) salt iterations) suffix co
        = some (session, some [])
      ∧ session.username = prep authcid
      ∧ session.authzid = authzid.map prep := by
  let credentials : Credentials :=
    { authzid := authzid.map prep, authcid := prep authcid, password := prep password, nonce }
  refine ⟨.suspended (fun _ => scramBody digest name credentials), credentials.session, ?_, ?_, rfl,
    rfl⟩
  · cases authzid <;> rfl
  · let account := Account.create digest (prep password) salt iterations
    let first : ServerFirst := { nonce := nonce ++ suffix, salt, iterations }
    let serverFirst := account.serverFirst credentials.session suffix
    let signature := digest.serverSignature credentials serverFirst first
    have starts : speaks (.ok (scramBody digest name credentials))
        = some (credentials.clientFirst,
          .suspended (awaitServerFirst digest name credentials)) := by
      rw [scramBody_eq]
      rfl
    have reads : readClientFirst credentials.clientFirst = some credentials.session :=
      readClientFirst_clientFirst nonceText
    have replies : speaks (.ok (awaitServerFirst digest name credentials serverFirst))
        = some (digest.clientFinal credentials serverFirst first,
          .suspended (awaitServerFinal digest credentials serverFirst first)) := by
      rw [awaitServerFirst_accepted
        (readServerFirst_honest nonceText suffixText long enough notTooMany)]
      rfl
    have answers : account.answer digest credentials.session suffix
        (digest.clientFinal credentials serverFirst first)
        = some (lit "v=" ++ toBase64 signature) :=
      answer_clientFinal fixed rfl rfl
        (fun c isIn => (List.mem_append.mp isIn).elim (nonceText c) (suffixText c)) rfl
    have accepted : awaitServerFinal digest credentials serverFirst first
        (lit "v=" ++ toBase64 signature) = .returns (some []) :=
      awaitServerFinal_accepted (base64Text_encode signature) (fromBase64_toBase64 signature)
    exact converse_messages starts reads replies answers (congrArg _ (congrArg _ accepted))

/-- `scram_honest_exchange` for a name with a comma and an equals sign. -/
theorem scram_honest_exchange_witness
    : ∃ co session,
      scram { digest := id, hmac := fun _ _ => [7], pbkdf2 := fun _ salt _ _ => salt, size := 1 }
          .sha256 (fun text => .ok (id text)) [] (some (lit "a,b")) (lit "c=d") (lit "pw")
          (some (lit "nonce"))
        = .ok co
      ∧ converse
          { digest := id, hmac := fun _ _ => [7], pbkdf2 := fun _ salt _ _ => salt, size := 1 }
          (Account.create
            { digest := id, hmac := fun _ _ => [7], pbkdf2 := fun _ salt _ _ => salt, size := 1 }
            (id (lit "pw")) [1, 2, 3] 4096)
          (lit "12345678") co
        = some (session, some [])
      ∧ session.username = id (lit "c=d")
      ∧ session.authzid = (some (lit "a,b")).map id :=
  scram_honest_exchange (fun _ _ => rfl)
    (List.all_eq_true.mp (by decide +kernel : (lit "nonce").all isNonceChar = true))
    (List.all_eq_true.mp (by decide +kernel : (lit "12345678").all isNonceChar = true))
    (by decide) (by decide) (by decide)

end Snowcone.Sasl
