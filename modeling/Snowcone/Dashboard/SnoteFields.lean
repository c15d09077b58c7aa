import Snowcone.Dashboard.ParseSnote

/-! Which notices about clients are taken apart as the server put them together: the address of
a client that connects is matched as long as possible, so its gecos can feign another one.
-/

namespace Snowcone.Dashboard

open Bytes LuaPattern

section Patterns

variable {items : List (Item Byte)} {taken : List (Capture Byte)} {result : List Bytes}

/-- The captures behind the start of a pattern. -/
def NoticedClient.captures (client : NoticedClient) : List (Capture Byte) :=
  [{ text := client.nick, finished := true }, { text := client.user, finished := true },
    { text := client.host, finished := true }]

/-- They are finished. -/
theorem NoticedClient.captures_finished (client : NoticedClient)
    : ∀ capture ∈ client.captures, capture.finished = true := by
  simp [NoticedClient.captures]

/-- A character that is not in a set of two. -/
theorem noneOf_pair {set : String} {a b c : Byte} (isSet : lit set = [a, b])
    (notEscape : a ≠ chr '%')
    : noneOf set c = true ↔ c ≠ a ∧ c ≠ b := by
  rw [noneOf, isSet]
  simp [setNames, notEscape]

/-- The client at the start of a notice is taken apart in one way only. -/
theorem matchHere_client {client : NoticedClient} (wellFormed : client.WellFormed)
    {rest : Bytes} (found : matchHere items rest client.captures = some result)
    : matchHere (clientItems items) (client.text rest) [] = some result := by
  have finished := client.captures_finished
  obtain ⟨nickIsSome, nick⟩ := wellFormed.nick
  obtain ⟨userIsSome, user⟩ := wellFormed.user
  obtain ⟨hostIsSome, host⟩ := wellFormed.host
  have noCaptures : ∀ capture ∈ ([] : List (Capture Byte)), capture.finished = true :=
    List.forall_mem_nil _
  have oneCapture : ∀ capture ∈ client.captures.take 1, capture.finished = true :=
    fun capture isIn => finished capture (List.mem_of_mem_take isIn)
  have twoCaptures : ∀ capture ∈ client.captures.take 2, capture.finished = true :=
    fun capture isIn => finished capture (List.mem_of_mem_take isIn)
  refine matchHere_capture_longest noCaptures nick nickIsSome (by rintro c ⟨⟩; rfl) ?_
  rw [matchHere_literal]
  refine (congrArg _ (extend_finished oneCapture _)).trans ?_
  refine matchHere_capture_longest oneCapture ?_ userIsSome (by rintro c ⟨⟩; rfl) ?_
  · intro c isIn
    exact (noneOf_pair rfl (by decide)).mpr (user c isIn)
  rw [matchHere_literal]
  refine (congrArg _ (extend_finished twoCaptures _)).trans ?_
  refine matchHere_capture_longest twoCaptures ?_ hostIsSome (by rintro c ⟨⟩; rfl) ?_
  · intro c isIn
    exact (noneOf_pair rfl (by decide)).mpr (host c isIn)
  rw [matchHere_literal]
  exact (congrArg _ (extend_finished finished _)).trans found

/-- One more capture that is finished. -/
theorem finished_append (finished : ∀ capture ∈ taken, capture.finished = true) (text : Bytes)
    : ∀ capture ∈ taken ++ [{ text, finished := true }], capture.finished = true :=
  List.forall_mem_append.mpr ⟨finished, List.forall_mem_singleton.mpr rfl⟩

/-- What the pattern for clients that connect matches behind the address. -/
theorem fits_behind_ip_iff (finished : ∀ capture ∈ taken, capture.finished = true)
    {subject : Bytes}
    : Fits (literal (lit "] \x7b") ++ .openCapture :: .single notSpace .many :: .closeCapture
        :: (literal (lit "\x7d <") ++ .openCapture :: .single notSpace .many :: .closeCapture
          :: (literal (lit "> [") ++ .openCapture :: .single (fun _ => true) .many
            :: .closeCapture :: (literal (lit "]") ++ [.endOfSubject])))) subject taken result
      ↔ ∃ class_ account gecos, subject = connectText [] class_ account gecos
        ∧ (∀ c ∈ class_, notSpace c = true) ∧ (∀ c ∈ account, notSpace c = true)
        ∧ result = taken.map (·.text) ++ [class_, account, gecos] := by
  have one := finished_append finished
  have two (class_ : Bytes) := finished_append (one class_)
  have three (class_ account : Bytes) := finished_append (two class_ account)
  simp only [fits_literal_iff, extend_finished finished, fits_capture_iff finished,
    extend_finished (one _), fits_capture_iff (one _), extend_finished (two _ _),
    fits_capture_iff (two _ _), extend_finished (three _ _ _), fits_endOfSubject_iff,
    fits_nil_iff, Repeat.Allows, true_and, implies_true, List.map_append, List.map_cons,
    List.map_nil]
  constructor
  · rintro ⟨_, rfl, class_, _, rfl, isClass, _, rfl, account, _, rfl, isAccount, _, rfl, gecos, _,
      rfl, _, rfl, rfl, rfl⟩
    exact ⟨class_, account, gecos, by simp [connectText], isClass, isAccount, by simp⟩
  · rintro ⟨class_, account, gecos, rfl, isClass, isAccount, rfl⟩
    exact ⟨_, rfl, class_, _, rfl, isClass, _, rfl, account, _, rfl, isAccount, _, rfl, gecos, _,
      rfl, _, rfl, rfl, by simp⟩

/-- The address is the longest text behind which the pattern for clients that connect matches.
-/
theorem connect_greedy (finished : ∀ capture ∈ taken, capture.finished = true) {subject : Bytes}
    (found : matchHere connectItems subject taken = some result)
    : ∃ ip class_ account gecos, subject = connectText ip class_ account gecos
        ∧ (∀ c ∈ class_, notSpace c = true) ∧ (∀ c ∈ account, notSpace c = true)
        ∧ result = taken.map (·.text) ++ [ip, class_, account, gecos]
        ∧ ∀ ip' class' account' gecos', subject = connectText ip' class' account' gecos' →
          (∀ c ∈ class', notSpace c = true) → (∀ c ∈ account', notSpace c = true) →
          ip'.length ≤ ip.length := by
  obtain ⟨ip, rest, rfl, fits, longest⟩ := matchHere_capture_greedy finished found
  have more := finished_append finished
  obtain ⟨class_, account, gecos, rfl, isClass, isAccount, rfl⟩ :=
    (fits_behind_ip_iff (more ip)).mp fits
  refine ⟨ip, class_, account, gecos, rfl, isClass, isAccount, by simp, ?_⟩
  intro ip' class' account' gecos' same isClass' isAccount'
  exact longest ip' (connectText [] class' account' gecos') _ same (fun _ _ => rfl)
    ((fits_behind_ip_iff (more ip')).mpr ⟨class', account', gecos', rfl, isClass', isAccount', rfl⟩)

/-- The pattern for clients that connect matches what a server formats so. -/
theorem connect_found (finished : ∀ capture ∈ taken, capture.finished = true)
    (ip : Bytes) {class_ account : Bytes} (isClass : ∀ c ∈ class_, notSpace c = true)
    (isAccount : ∀ c ∈ account, notSpace c = true) (gecos : Bytes)
    : ∃ result, matchHere connectItems (connectText ip class_ account gecos) taken
        = some result := by
  have behind := (fits_behind_ip_iff (finished_append finished ip)).mpr
    ⟨class_, account, gecos, rfl, isClass, isAccount, rfl⟩
  exact matchHere_of_fits ((fits_capture_iff finished).mpr
    ⟨ip, connectText [] class_ account gecos, rfl, fun _ _ => rfl, trivial, behind⟩)

/-- What the pattern for clients that exit matches behind the reason. -/
theorem fits_behind_reason_iff (finished : ∀ capture ∈ taken, capture.finished = true)
    {subject : Bytes}
    : Fits (literal (lit "] [") ++ .openCapture :: .single (fun _ => true) .many :: .closeCapture
        :: (literal (lit "]") ++ [.endOfSubject])) subject taken result
      ↔ ∃ ip, subject = disconnectText [] ip ∧ result = taken.map (·.text) ++ [ip] := by
  have one := finished_append finished
  simp only [fits_literal_iff, extend_finished finished, fits_capture_iff finished,
    extend_finished (one _), fits_endOfSubject_iff, fits_nil_iff, Repeat.Allows, true_and,
    implies_true, List.map_append, List.map_cons, List.map_nil]
  constructor
  · rintro ⟨_, rfl, ip, _, rfl, _, rfl, rfl, rfl⟩
    exact ⟨ip, by simp [disconnectText], rfl⟩
  · rintro ⟨ip, rfl, rfl⟩
    exact ⟨_, rfl, ip, _, rfl, _, rfl, rfl, rfl⟩

/-- The pattern for clients that exit matches what a server formats so; the reason is the
longest text behind which it does.
-/
theorem disconnect_greedy (finished : ∀ capture ∈ taken, capture.finished = true)
    (reason ip : Bytes)
    : ∃ reason' ip', disconnectText reason ip = disconnectText reason' ip'
        ∧ matchHere disconnectItems (disconnectText reason ip) taken
          = some (taken.map (·.text) ++ [reason', ip'])
        ∧ reason.length ≤ reason'.length := by
  have more := finished_append finished
  have behind := (fits_behind_reason_iff (more reason)).mpr ⟨ip, rfl, rfl⟩
  have fits : Fits disconnectItems (disconnectText reason ip) taken _ :=
    (fits_capture_iff finished).mpr
      ⟨reason, disconnectText [] ip, rfl, fun _ _ => rfl, trivial, behind⟩
  obtain ⟨result, found⟩ := matchHere_of_fits fits
  obtain ⟨reason', rest, same, others, longest⟩ := matchHere_capture_greedy finished found
  obtain ⟨ip', rfl, rfl⟩ := (fits_behind_reason_iff (more reason')).mp others
  refine ⟨reason', ip', same, found.trans (by simp), ?_⟩
  exact longest reason (disconnectText [] ip) _ rfl (fun _ _ => rfl) behind

end Patterns

-----------------------------------------------------------------------------------------
-- Brackets in front of spaces
-----------------------------------------------------------------------------------------

section Brackets

variable {rest before after : Bytes}

/-- A text does not go on with a space. -/
def NotSpaced (rest : Bytes) : Prop := ∀ c ∈ rest.head?, c ≠ chr ' '

/-- The first bracket in front of a space is not at a word that no space follows, by induction
on the word.
-/
theorem bracket_behind_word {word : Bytes} (noSpace : ∀ c ∈ word, c ≠ chr ' ')
    (next : NotSpaced rest) (same : word ++ rest = before ++ chr ']' :: chr ' ' :: after)
    : ∃ before', before = word ++ before' ∧ rest = before' ++ chr ']' :: chr ' ' :: after := by
  induction word generalizing before with
  | nil => exact ⟨before, rfl, same⟩
  | cons c word ih =>
      obtain ⟨_, later⟩ := List.forall_mem_cons.mp noSpace
      cases before with
      | nil =>
          have spaced : word ++ rest = chr ' ' :: after := (List.cons.inj same).2
          cases word with
          | nil =>
              obtain rfl : rest = chr ' ' :: after := spaced
              exact absurd rfl (next (chr ' ') rfl)
          | cons d word =>
              exact absurd (List.cons.inj spaced).1 (later d List.mem_cons_self)
      | cons d before =>
          obtain ⟨rfl, others⟩ := List.cons.inj same
          obtain ⟨before', rfl, isRest⟩ := ih later others
          exact ⟨before', rfl, isRest⟩

/-- The first bracket in front of a space is not at another character. -/
theorem bracket_behind_char {c : Byte} (notBracket : c ≠ chr ']')
    (same : c :: rest = before ++ chr ']' :: chr ' ' :: after)
    : ∃ before', before = c :: before' ∧ rest = before' ++ chr ']' :: chr ' ' :: after := by
  cases before with
  | nil => exact absurd (List.cons.inj same).1 notBracket
  | cons d before =>
      obtain ⟨rfl, others⟩ := List.cons.inj same
      exact ⟨before, rfl, others⟩

/-- No space in a class or an account. -/
theorem ne_space {c : Byte} (isPlain : notSpace c = true) : c ≠ chr ' ' := by
  rintro rfl
  exact absurd isPlain (by decide)

/-- Where the address could be longer, the gecos feigns what is behind an address. -/
theorem feigns_of_longer {more class_ account gecos class' account' gecos' : Bytes}
    (isLonger : more ≠ []) (isClass : ∀ c ∈ class_, notSpace c = true)
    (isAccount : ∀ c ∈ account, notSpace c = true) (isClass' : ∀ c ∈ class', notSpace c = true)
    (isAccount' : ∀ c ∈ account', notSpace c = true)
    (same : connectText [] class_ account gecos = more ++ connectText [] class' account' gecos')
    : Feigns gecos := by
  cases more with
  | nil => exact absurd rfl isLonger
  | cons c more =>
      have behindBracket := (List.cons.inj same).2
      obtain ⟨_, rfl, behindSpace⟩ := bracket_behind_char (by decide) behindBracket
      obtain ⟨_, rfl, behindBrace⟩ := bracket_behind_char (by decide) behindSpace
      obtain ⟨_, rfl, behindClass⟩ := bracket_behind_word
        (fun c isIn => ne_space (isClass c isIn)) (by rintro c ⟨⟩; decide) behindBrace
      obtain ⟨_, rfl, afterClass⟩ := bracket_behind_char (by decide) behindClass
      obtain ⟨_, rfl, space⟩ := bracket_behind_char (by decide) afterClass
      obtain ⟨_, rfl, angle⟩ := bracket_behind_char (by decide) space
      obtain ⟨_, rfl, behindAccount⟩ := bracket_behind_word
        (fun c isIn => ne_space (isAccount c isIn)) (by rintro c ⟨⟩; decide) angle
      obtain ⟨_, rfl, afterAccount⟩ := bracket_behind_char (by decide) behindAccount
      obtain ⟨_, rfl, lastSpace⟩ := bracket_behind_char (by decide) afterAccount
      obtain ⟨feigned, rfl, inGecos⟩ := bracket_behind_char (by decide) lastSpace
      refine ⟨feigned, class', account', gecos', ?_, isClass', isAccount'⟩
      refine List.append_cancel_right (inGecos.trans ?_)
      simp only [List.append_assoc]
      rfl

/-- A gecos that feigns what is behind an address makes a longer one possible. -/
theorem longer_of_feigns {gecos : Bytes} (feigns : Feigns gecos) (ip class_ account : Bytes)
    : ∃ ip' class' account' gecos',
      connectText ip class_ account gecos = connectText ip' class' account' gecos'
        ∧ (∀ c ∈ class', notSpace c = true) ∧ (∀ c ∈ account', notSpace c = true)
        ∧ ip.length < ip'.length := by
  obtain ⟨before, class', account', after, rfl, isClass', isAccount'⟩ := feigns
  refine ⟨ip ++ (lit "] \x7b" ++ (class_ ++ (lit "\x7d <" ++ (account ++ (lit "> [" ++ before))))),
    class', account', after, by simp [connectText], isClass', isAccount', ?_⟩
  rw [List.length_append]
  exact Nat.lt_add_of_pos_right (Nat.zero_lt_succ _)

/-- A word ends where the first space follows. -/
theorem word_inj {word word' rest rest' : Bytes} {c : Byte} (isPlain : notSpace c = true)
    (noSpace : ∀ c ∈ word, notSpace c = true) (noSpace' : ∀ c ∈ word', notSpace c = true)
    (same : word ++ c :: chr ' ' :: rest = word' ++ c :: chr ' ' :: rest')
    : word = word' ∧ rest = rest' := by
  have upToSpace (text more : Bytes) (plain : ∀ c ∈ text, notSpace c = true)
      : (text ++ c :: chr ' ' :: more).takeWhile notSpace = text ++ [c] := by
    rw [List.append_cons]
    refine takeWhile_run ?_ (by rintro d ⟨⟩; rfl)
    exact List.forall_mem_append.mpr ⟨plain, List.forall_mem_singleton.mpr isPlain⟩
  have words := congrArg (List.takeWhile notSpace) same
  rw [upToSpace word rest noSpace, upToSpace word' rest' noSpace'] at words
  obtain rfl := List.append_cancel_right words
  exact ⟨rfl, (List.cons.inj (List.cons.inj (List.append_cancel_left same)).2).2⟩

/-- Behind the same address everything else is the same. -/
theorem connectText_inj {class_ account gecos class' account' gecos' : Bytes}
    (isClass : ∀ c ∈ class_, notSpace c = true) (isAccount : ∀ c ∈ account, notSpace c = true)
    (isClass' : ∀ c ∈ class', notSpace c = true)
    (isAccount' : ∀ c ∈ account', notSpace c = true)
    (same : connectText [] class_ account gecos = connectText [] class' account' gecos')
    : class_ = class' ∧ account = account' ∧ gecos = gecos' := by
  have behindBrace : class_ ++ (lit "\x7d <" ++ (account ++ (lit "> [" ++ (gecos ++ lit "]"))))
      = class' ++ (lit "\x7d <" ++ (account' ++ (lit "> [" ++ (gecos' ++ lit "]")))) :=
    @List.append_cancel_left _ (lit "] \x7b") _ _ same
  obtain ⟨isSame, behindClass⟩ := word_inj (by decide) isClass isClass' behindBrace
  obtain ⟨isSame', behindAccount⟩ := word_inj (by decide) isAccount isAccount'
    (List.cons.inj behindClass).2
  exact ⟨isSame, isSame', List.append_cancel_right (List.cons.inj behindAccount).2⟩

/-- An address holds no space. -/
theorem IsAddress.ne_space {ip : Bytes} (isAddress : IsAddress ip)
    : ∀ c ∈ ip, c ≠ chr ' ' := by
  rintro c isIn rfl
  rcases isAddress.plain _ isIn with isDigit | isDot | isColon
  · exact absurd isDigit (by decide)
  · exact absurd isDot (by decide)
  · exact absurd isColon (by decide)

/-- An address is shown. -/
theorem IsAddress.shown {ip : Bytes} (isAddress : IsAddress ip) : shownIp ip = some ip := by
  rw [shownIp, if_neg]
  rintro rfl
  exact absurd isAddress.separated (by decide)

/-- The reason cannot be longer than it is. -/
theorem disconnectText_inj {reason ip reason' ip' : Bytes} (isAddress : IsAddress ip)
    (same : disconnectText reason ip = disconnectText reason' ip')
    (longer : reason.length ≤ reason'.length)
    : reason' = reason ∧ ip' = ip := by
  obtain ⟨more, rfl⟩ : reason <+: reason' :=
    List.prefix_of_prefix_length_le ⟨_, rfl⟩ ⟨_, same.symm⟩ longer
  have behind : disconnectText [] ip = more ++ disconnectText [] ip' := by
    refine List.append_cancel_left (same.trans ?_)
    rw [disconnectText, List.append_assoc]
    rfl
  cases more with
  | nil =>
      refine ⟨List.append_nil reason, ?_⟩
      have ips := @List.append_cancel_left _ (lit "] [") _ _ behind
      exact (List.append_cancel_right ips).symm
  | cons c more =>
      have behindBracket := (List.cons.inj behind).2
      obtain ⟨_, rfl, behindSpace⟩ := bracket_behind_char (by decide) behindBracket
      obtain ⟨_, rfl, behindOpening⟩ := bracket_behind_char (by decide) behindSpace
      obtain ⟨_, rfl, behindIp⟩ := bracket_behind_word isAddress.ne_space
        (by rintro c ⟨⟩; decide) behindOpening
      have lengths : 1 = _ := congrArg List.length behindIp
      rw [List.length_append, List.length_cons, List.length_cons] at lengths
      omega

end Brackets

-----------------------------------------------------------------------------------------
-- The notices
-----------------------------------------------------------------------------------------

section Notices

variable {Other : Type} {client : NoticedClient}

/-- A pattern for clients finds what its rest finds behind the client. -/
theorem stringMatch_client (wellFormed : client.WellFormed) (words : Bytes)
    {items : List (Item Byte)} {rest : Bytes} {values : List Bytes}
    (found : matchHere items rest client.captures
      = some (client.captures.map (·.text) ++ values))
    : stringMatch (literal words ++ clientItems items) (words ++ client.text rest)
      = some ([client.nick, client.user, client.host] ++ values) := by
  rw [stringMatch, matchHere_literal]
  exact matchHere_client wellFormed found

/-- The address that is found in the notice of a client that connects: with it the rest of the
notice reads as a server formats it, and it is the longest such.
-/
theorem connectPattern_finds (wellFormed : client.WellFormed) (ip : Bytes)
    {class_ account : Bytes} (isClass : ∀ c ∈ class_, notSpace c = true)
    (isAccount : ∀ c ∈ account, notSpace c = true) (gecos : Bytes)
    : ∃ ip' class' account' gecos',
      connectText ip class_ account gecos = connectText ip' class' account' gecos'
        ∧ (∀ c ∈ class', notSpace c = true) ∧ (∀ c ∈ account', notSpace c = true)
        ∧ stringMatch connectPattern (ClientNotice.connecting client ip class_ account gecos).text
          = some [client.nick, client.user, client.host, ip', class', account', gecos']
        ∧ ∀ ip₂ class₂ account₂ gecos₂,
          connectText ip class_ account gecos = connectText ip₂ class₂ account₂ gecos₂ →
          (∀ c ∈ class₂, notSpace c = true) → (∀ c ∈ account₂, notSpace c = true) →
          ip₂.length ≤ ip'.length := by
  obtain ⟨result, found⟩ :=
    connect_found client.captures_finished ip isClass isAccount gecos
  obtain ⟨ip', class', account', gecos', same, isClass', isAccount', rfl, longest⟩ :=
    connect_greedy client.captures_finished found
  exact ⟨ip', class', account', gecos', same, isClass', isAccount',
    stringMatch_client wellFormed _ found, longest⟩

/-- The notice of a client that connects gives its event exactly if the gecos feigns nothing.
-/
theorem connecting_parsed_iff (others : Bytes → Option Other) (time server : Bytes)
    {ip class_ account gecos : Bytes}
    (wellFormed : (ClientNotice.connecting client ip class_ account gecos).WellFormed)
    : parseSnote others time server (ClientNotice.connecting client ip class_ account gecos).text
        = some ((ClientNotice.connecting client ip class_ account gecos).event time server)
      ↔ ¬ Feigns gecos := by
  obtain ⟨isClient, isAddress, isClass, isAccount⟩ := wellFormed
  obtain ⟨ip', class', account', gecos', same, isClass', isAccount', found, longest⟩ :=
    connectPattern_finds isClient ip isClass isAccount gecos
  rw [parseSnote, found]
  obtain ⟨more, rfl⟩ : ip <+: ip' :=
    List.prefix_of_prefix_length_le ⟨_, rfl⟩ ⟨_, same.symm⟩
      (longest ip class_ account gecos rfl isClass isAccount)
  have behind : connectText [] class_ account gecos
      = more ++ connectText [] class' account' gecos' := by
    refine List.append_cancel_left (same.trans ?_)
    rw [connectText, List.append_assoc]
    rfl
  cases more with
  | nil =>
      obtain ⟨rfl, rfl, rfl⟩ := connectText_inj isClass isAccount isClass' isAccount' behind
      refine iff_of_true ?_ (fun feigns => ?_)
      · rw [List.append_nil]
        simp [ClientNotice.event, isAddress.shown]
      · obtain ⟨ip₂, class₂, account₂, gecos₂, same₂, isClass₂, isAccount₂, longer⟩ :=
          longer_of_feigns feigns ip class_ account
        have within := longest ip₂ class₂ account₂ gecos₂ same₂ isClass₂ isAccount₂
        rw [List.append_nil] at within
        exact absurd longer (Nat.not_lt_of_le within)
  | cons c more =>
      have isLonger : c :: more ≠ [] := List.cons_ne_nil c more
      have feigns := feigns_of_longer isLonger isClass isAccount isClass' isAccount' behind
      refine iff_of_false (fun right => ?_) (not_not_intro feigns)
      have ips : shownIp (ip ++ c :: more) = some ip := by
        have events := Option.some.inj right
        simp only [ClientNotice.event, Snote.connect.injEq, Connect.mk.injEq] at events
        exact events.2.2.2.2.2.1
      rw [shownIp] at ips
      split at ips
      · cases ips
      · exact isLonger (List.append_right_eq_self.mp (Option.some.inj ips))

/-- The pattern for clients that connect does not match the notice of one that exits. -/
theorem connectPattern_of_exiting (reason ip : Bytes)
    : stringMatch connectPattern (ClientNotice.exiting client reason ip).text = none := by
  cases found : stringMatch connectPattern (ClientNotice.exiting client reason ip).text with
  | none => rfl
  | some result =>
      obtain ⟨rest, same, _⟩ := fits_literal_iff.mp (fits_of_matchHere found)
      have eighth : some (chr 'e') = some (chr 'c') := congrArg (·[7]?) same
      exact absurd eighth (by decide)

/-- The notice of a client that exits always gives its event. -/
theorem exiting_parsed (others : Bytes → Option Other) (time server : Bytes) {reason ip : Bytes}
    (wellFormed : (ClientNotice.exiting client reason ip).WellFormed)
    : parseSnote others time server (ClientNotice.exiting client reason ip).text
      = some ((ClientNotice.exiting client reason ip).event time server) := by
  obtain ⟨isClient, isAddress⟩ := wellFormed
  obtain ⟨reason', ip', same, found, longer⟩ :=
    disconnect_greedy client.captures_finished reason ip
  obtain ⟨rfl, rfl⟩ := disconnectText_inj isAddress same longer
  have matched : stringMatch disconnectPattern (ClientNotice.exiting client reason' ip').text
      = some [client.nick, client.user, client.host, reason', ip'] :=
    stringMatch_client isClient _ found
  rw [parseSnote, connectPattern_of_exiting, matched]
  simp [ClientNotice.event, isAddress.shown]

/-- Every notice about a client gives the event with exactly its fields, unless it is about a
client that connects with a gecos that feigns what is behind an address.
-/
theorem notice_parsed_iff (others : Bytes → Option Other) (time server : Bytes)
    {notice : ClientNotice} (wellFormed : notice.WellFormed)
    : parseSnote others time server notice.text = some (notice.event time server)
      ↔ ¬ notice.HasFeignedGecos := by
  cases notice with
  | connecting client ip class_ account gecos =>
      exact connecting_parsed_iff others time server wellFormed
  | exiting client reason ip =>
      exact iff_of_true (exiting_parsed others time server wellFormed) not_false

end Notices

/-- A client that uses the delimiters of a notice in its own words. -/
def delimiterClient : NoticedClient :=
  { nick := lit "al", user := lit "~al", host := lit "host.example" }

/-- Its addresses are read back whatever its reason is. -/
theorem notice_parsed_iff_witness
    : parseSnote (fun _ => (none : Option Empty)) (lit "12:00:00") (lit "irc.example")
        (ClientNotice.exiting delimiterClient (lit "] [10.0.0.1") (lit "192.0.2.7")).text
      = some (.disconnect {
          server := lit "irc.example"
          time := lit "12:00:00"
          nick := lit "al"
          user := lit "~al"
          host := lit "host.example"
          reason := lit "] [10.0.0.1"
          ip := some (lit "192.0.2.7") }) := by
  have isClient : delimiterClient.WellFormed :=
    ⟨⟨by decide, by decide +kernel⟩, ⟨by decide, by decide +kernel⟩,
      ⟨by decide, by decide +kernel⟩⟩
  have wellFormed : (ClientNotice.exiting delimiterClient (lit "] [10.0.0.1")
      (lit "192.0.2.7")).WellFormed :=
    ⟨isClient, by decide +kernel, by decide⟩
  exact (notice_parsed_iff (fun _ => (none : Option Empty)) (lit "12:00:00") (lit "irc.example")
    wellFormed).mpr not_false

/-- A gecos with which the client gets another address, class and account. -/
def feignedNotice : ClientNotice :=
  .connecting delimiterClient (lit "192.0.2.7") (lit "users") (lit "*")
    (lit "] \x7bopers\x7d <admin> [Al")

/-- The notice of the client is not taken apart as the server put it together. -/
theorem feignedNotice_not_parsed
    : feignedNotice.WellFormed
      ∧ parseSnote (fun _ => (none : Option Empty)) (lit "12:00:00") (lit "irc.example")
          feignedNotice.text
        = some (.connect {
            server := lit "irc.example"
            time := lit "12:00:00"
            nick := lit "al"
            user := lit "~al"
            host := lit "host.example"
            ip := some (lit "192.0.2.7] \x7busers\x7d <*> [")
            gecos := lit "Al"
            class_ := lit "opers"
            account := lit "admin" })
      ∧ parseSnote (fun _ => (none : Option Empty)) (lit "12:00:00") (lit "irc.example")
          feignedNotice.text
        ≠ some (feignedNotice.event (lit "12:00:00") (lit "irc.example")) := by
  refine ⟨⟨⟨⟨?_, ?_⟩, ⟨?_, ?_⟩, ⟨?_, ?_⟩⟩, ⟨?_, ?_⟩, ?_, ?_⟩, ?_, ?_⟩
  all_goals decide +kernel

end Snowcone.Dashboard
