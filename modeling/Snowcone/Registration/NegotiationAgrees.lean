import Snowcone.Registration.CapNegotiation

/-! However a server lists capabilities and answers requests for them, client and server agree on
what is enabled.
-/

namespace Snowcone.Registration

open Bytes LuaPattern
open Chat (Client Environment Entry send_of_other plainEnvironment welcomedClient)
open Components (OrderedMap)
open Sending (TokenValue Refused lineOf BadTexts Breaks)
open Snowcone.Membership (Spaced)

-----------------------------------------------------------------------------------------
-- Listing
-----------------------------------------------------------------------------------------

section Listing

variable {Num : Type} {env : Environment Num} {split : Bytes → List Bytes} {wanted : Bytes → Bool}
  {order : (Bytes → Option TokenValue) → List Bytes} {task : Negotiation Num}

/-- The client that the last message leaves. -/
def lastClient (client : Client Num) : List (Message × Client Num) → Client Num
  | [] => client
  | (_, next) :: events => lastClient next events

/-- Handlers leave capabilities alone unless a message adds or deletes some. -/
theorem handle_eq {caps : Capabilities} {irc : Message}
    (changes : ∀ subcommand ∈ irc.arg 2, subcommand ≠ lit "DEL" ∧ subcommand ≠ lit "NEW")
    : Negotiation.handle split caps irc = caps := by
  unfold Negotiation.handle
  cases isSubcommand : irc.arg 2 with
  | none => cases irc.command <;> rfl
  | some subcommand =>
      obtain ⟨notDel, notNew⟩ := changes subcommand isSubcommand
      cases irc.command <;> cases irc.arg 3 <;> simp only [if_neg notDel, if_neg notNew]

/-- While answers are waited for, other messages of the same command are passed over. -/
theorem receiveAck_other {outstanding : List Bytes} {irc : Message}
    (notAck : irc.arg 2 ≠ some (lit "ACK")) (notNak : irc.arg 2 ≠ some (lit "NAK"))
    : task.receiveAck env outstanding irc = task := by
  unfold Negotiation.receiveAck
  rw [if_neg notAck, if_neg notNak]

/-- A message in between leaves the task where it is. -/
theorem step_idle {irc : Message} (idle : Idle irc) (client : Client Num)
    : task.step env split wanted order (irc, client) = { task with client } := by
  have sameCaps : Negotiation.handle split task.caps irc = task.caps := by
    rcases idle with other | ⟨-, calm⟩
    · rw [Negotiation.handle, other]
    · exact handle_eq fun subcommand isIn =>
        ⟨(calm subcommand isIn).2.2.2.1, (calm subcommand isIn).2.2.2.2⟩
  rw [Negotiation.step, sameCaps, Negotiation.receive]
  rcases idle with other | ⟨isCap, calm⟩
  · rw [other]
    cases task.phase <;> rfl
  · have isNot {text : Bytes} (differs : ∀ subcommand ∈ irc.arg 2, subcommand ≠ text)
        : irc.arg 2 ≠ some text := fun same => differs text same rfl
    have notLs := isNot fun subcommand isIn => (calm subcommand isIn).1
    have notAck := isNot fun subcommand isIn => (calm subcommand isIn).2.1
    have notNak := isNot fun subcommand isIn => (calm subcommand isIn).2.2.1
    rw [isCap]
    cases task.phase with
    | listing => exact if_neg notLs
    | acking outstanding => exact receiveAck_other notAck notNak
    | _ => rfl

/-- The capabilities that are there behind some texts. -/
def addTexts (split : Bytes → List Bytes) (texts : List Bytes) (caps : Capabilities)
    : Capabilities :=
  texts.foldl (fun caps text => (addCaps split text caps).1) caps

/-- One text is added before the others. -/
theorem addTexts_cons (split : Bytes → List Bytes) (text : Bytes) (texts : List Bytes)
    (caps : Capabilities)
    : addTexts split (text :: texts) caps = addTexts split texts (addCaps split text caps).1 :=
  rfl

/-- While the server lists, capabilities are added; behind the last text the task goes on. By
induction on how the server lists.
-/
theorem lists_run {texts : List Bytes} {events : List (Message × Client Num)}
    (lists : Lists texts events) (isListing : task.phase = .listing)
    : events.foldl (Negotiation.step env split wanted order) task
      = Negotiation.listed env wanted order
        { task with
          client := lastClient task.client events, caps := addTexts split texts task.caps } := by
  induction lists generalizing task with
  | @idle texts irc client events idle later ih =>
      rw [List.foldl_cons, step_idle idle]
      exact @ih { task with client } isListing
  | @more who text texts client events later ih =>
      have same := @handle_eq split task.caps ⟨.cap, [who, lit "LS", lit "*", text]⟩
        (by rintro _ ⟨⟩; decide)
      have runs := @ih { task with client, caps := (addCaps split text task.caps).1 } isListing
      rw [List.foldl_cons, Negotiation.step, same, Negotiation.receive]
      rw [isListing] at runs ⊢
      exact runs
  | @last who text client notMore =>
      have same := @handle_eq split task.caps ⟨.cap, [who, lit "LS", text]⟩
        (by rintro _ ⟨⟩; decide)
      have isText : ¬ some text = some (lit "*") := fun same => notMore (Option.some.inj same)
      rw [List.foldl_cons, List.foldl_nil, Negotiation.step, same, Negotiation.receive, isListing]
      simp only [Negotiation.receiveLs, Message.arg, List.getElem?_cons_succ,
        List.getElem?_cons_zero, isText, if_true, if_false]
      rfl

/-- A capability is there if it was there before or is added. -/
theorem addCap_available {acc : Capabilities × (Bytes → Option TokenValue)}
    (cap : Bytes × Option Bytes) (name : Bytes)
    : ((addCap split acc (captures cap)).1.capsAvailable name).isSome = true
      ↔ (acc.1.capsAvailable name).isSome = true ∨ cap.1 = name := by
  obtain ⟨irc, caps⟩ := acc
  have available : (addCap split (irc, caps) (captures cap)).1.capsAvailable
      = Function.update irc.capsAvailable cap.1
        (some (if (if cap.2.isSome then lit "=" else []) = lit "=" then .text (cap.2.getD [])
          else .flag)) := by
    rw [captures, addCap]
    dsimp only
    split <;> rfl
  rw [available]
  by_cases same : name = cap.1
  · simp [same]
  · simp [Function.update_of_ne same, Ne.symm same]

/-- The capabilities of some words are there then, by induction on the words. -/
theorem foldl_addCap_available {words : List Bytes}
    {acc : Capabilities × (Bytes → Option TokenValue)} (name : Bytes)
    : ((((words.filterMap capOf).map captures).foldl (addCap split) acc).1.capsAvailable
          name).isSome = true
      ↔ (acc.1.capsAvailable name).isSome = true
        ∨ ∃ word ∈ words, (capOf word).map Prod.fst = some name := by
  induction words generalizing acc with
  | nil => simp
  | cons word words ih =>
      rw [List.exists_mem_cons_iff]
      cases isCap : capOf word with
      | none =>
          rw [List.filterMap_cons_none isCap, ih]
          simp
      | some cap =>
          rw [List.filterMap_cons_some isCap, List.map_cons, List.foldl_cons, ih,
            addCap_available, or_assoc, Option.map_some, Option.some_inj]

/-- What is there behind some texts is what was there before and what they offer, by induction on
the texts.
-/
theorem addTexts_available (split : Bytes → List Bytes) (texts : List Bytes) (caps : Capabilities)
    (name : Bytes)
    : ((addTexts split texts caps).capsAvailable name).isSome = true
      ↔ (caps.capsAvailable name).isSome = true ∨ Offered texts name := by
  induction texts generalizing caps with
  | nil => simp [addTexts, Offered]
  | cons text texts ih =>
      rw [addTexts_cons, ih, addCaps, gmatch, gmatch_caps (spaced_wordsOf text)
        (fun word isIn => (isWord_of_mem isIn).noSpace), foldl_addCap_available, or_assoc, Offered,
        Offered, List.exists_mem_cons_iff]

end Listing

-----------------------------------------------------------------------------------------
-- Answers
-----------------------------------------------------------------------------------------

section Answering

variable {Num : Type} {env : Environment Num} {split : Bytes → List Bytes} {wanted : Bytes → Bool}
  {order : (Bytes → Option TokenValue) → List Bytes} {task : Negotiation Num}

/-- What is found in an acknowledgement are its words, if none starts with a minus. By induction on
the words.
-/
theorem gmatch_acks {text : Bytes} {words : List Bytes} (listed : Spaced text words)
    (areWords : ∀ word ∈ words, IsWord word)
    (noMinus : ∀ word ∈ words, word.head? ≠ some (chr '-')) (fresh : Bool)
    : gmatchFrom ackPattern text fresh = words.map ([[], ·]) := by
  have starts {text : Bytes} (spaced : ∀ c ∈ text.head?, c = chr ' ')
      : matchWhole ackPattern text = none := by
    have nothing : stringMatch (.openCapture :: ackPattern ++ [.closeCapture]) text = none := by
      cases text with
      | nil => rfl
      | cons c text =>
          obtain rfl := spaced c rfl
          rfl
    rw [matchWhole, nothing]
  induction listed generalizing fresh with
  | nil => exact gmatchFrom_nil (starts (by simp))
  | space _ ih => rw [gmatchFrom_skip (starts (by simp)), ih areWords noMinus]
  | @word word rest _ ends _ ih =>
      obtain ⟨here, later⟩ := List.forall_mem_cons.mp areWords
      obtain ⟨plain, plainLater⟩ := List.forall_mem_cons.mp noMinus
      have accepted : ∀ c ∈ word, (c != chr ' ') = true := by
        intro c isIn
        simpa using fun same : c = chr ' ' => here.noSpace (same ▸ isIn)
      have found : stringMatch (.openCapture :: ackPattern ++ [.closeCapture]) (word ++ rest)
          = some [word, [], word] := by
        have notMinus : ∀ c ∈ (word ++ rest).head?, (c == chr '-') = false := by
          cases word with
          | nil => exact absurd rfl here.notEmpty
          | cons c word =>
              rintro _ ⟨⟩
              exact beq_eq_false_iff_ne.mpr fun same => plain (congrArg some same)
        refine (matchHere_capture_skipped notMinus).trans ?_
        refine matchHere_plus_longest accepted here.notEmpty (fun c isHead => ?_) rfl
        simpa using ends c isHead
      have whole : matchWhole ackPattern (word ++ rest) = some (word, [[], word]) := by
        rw [matchWhole, found]
        rfl
      rw [gmatchFrom_take here.notEmpty whole, ih later plainLater]
      rfl

/-- Words that are acknowledged are no longer outstanding, and are enabled. By induction on them. -/
theorem foldl_ackRound (words : List Bytes) (outstanding : List Bytes) (enabled : Bytes → Bool)
    : (words.map ([[], ·])).foldl ackRound (outstanding, enabled)
      = (outstanding.filter (· ∉ words), fun cap => enabled cap || decide (cap ∈ words)) := by
  induction words generalizing outstanding enabled with
  | nil => simp
  | cons word words ih =>
      rw [List.map_cons, List.foldl_cons, ackRound, ih]
      refine Prod.ext ?_ (funext fun cap => ?_)
      · rw [List.filter_filter]
        refine List.filter_congr fun name _ => ?_
        simp [Bool.and_comm]
      · by_cases same : cap = word <;> simp [same]

/-- Words that are refused are no longer outstanding, by induction on them. -/
theorem foldl_refused (words : List Bytes) (outstanding : List Bytes)
    : words.foldl (fun outstanding cap => outstanding.filter (· ≠ cap)) outstanding
      = outstanding.filter (· ∉ words) := by
  induction words generalizing outstanding with
  | nil => simp
  | cons word words ih =>
      rw [List.foldl_cons, ih, List.filter_filter]
      refine List.filter_congr fun name _ => ?_
      simp [Bool.and_comm]

/-- What is enabled behind some answers. -/
def enabledBy (answers : List (List Bytes × Bool)) (enabled : Bytes → Bool) (cap : Bytes) : Bool :=
  enabled cap || answers.any (fun answer => answer.2 && decide (cap ∈ answer.1))

/-- An answer takes its words from what is outstanding, and enables them if it acknowledges them.
-/
theorem receiveAck_answer {outstanding : List Bytes} (who text : Bytes) (acknowledged : Bool)
    (noMinus : ∀ word ∈ wordsOf text, word.head? ≠ some (chr '-'))
    : task.receiveAck env outstanding ⟨.cap, [who, verdict acknowledged, text]⟩
      = Negotiation.await env
        { task with
          caps := { task.caps with
            capsEnabled := enabledBy [(wordsOf text, acknowledged)] task.caps.capsEnabled } }
        (outstanding.filter (· ∉ wordsOf text)) := by
  have areWords : ∀ word ∈ wordsOf text, IsWord word := fun word isIn => isWord_of_mem isIn
  cases acknowledged with
  | true =>
      have found : gmatch ackPattern text = (wordsOf text).map ([[], ·]) :=
        gmatch_acks (spaced_wordsOf text) areWords noMinus true
      have enabled : enabledBy [(wordsOf text, true)] task.caps.capsEnabled
          = fun cap => task.caps.capsEnabled cap || decide (cap ∈ wordsOf text) := by
        funext cap
        simp [enabledBy]
      simp only [Negotiation.receiveAck, Message.arg, List.getElem?_cons_succ,
        List.getElem?_cons_zero, verdict, if_true, found, foldl_ackRound, enabled]
  | false =>
      have found : (gmatch wordPattern text).flatten = wordsOf text := by
        have words : gmatch wordPattern text = (wordsOf text).map ([·]) :=
          gmatch_words (spaced_wordsOf text) areWords true
        rw [words, ← List.flatMap_def, List.flatMap_singleton']
      have enabled : enabledBy [(wordsOf text, false)] task.caps.capsEnabled
          = task.caps.capsEnabled := by
        funext cap
        simp [enabledBy]
      have notAck : ¬ some (lit "NAK") = some (lit "ACK") := by decide
      simp only [Negotiation.receiveAck, Message.arg, List.getElem?_cons_succ,
        List.getElem?_cons_zero, verdict, if_true, if_false, Bool.false_eq_true, notAck, found,
        foldl_refused, enabled]

/-- What is outstanding, and the answers that are still to come. -/
structure Outstanding (outstanding : List Bytes) (answers : List (List Bytes × Bool)) : Prop where
  names : ∀ name, name ∈ outstanding ↔ ∃ answer ∈ answers, name ∈ answer.1
  nonempty : ∀ answer ∈ answers, answer.1 ≠ []
  apart : (answers.map Prod.fst).flatten.Nodup
  noMinus : ∀ answer ∈ answers, ∀ word ∈ answer.1, word.head? ≠ some (chr '-')

/-- One answer less is to come. -/
theorem Outstanding.answer {outstanding : List Bytes} {first : List Bytes × Bool}
    {answers : List (List Bytes × Bool)} (open_ : Outstanding outstanding (first :: answers))
    : Outstanding (outstanding.filter (· ∉ first.1)) answers where
  names name := by
    have apart := open_.apart
    rw [List.map_cons, List.flatten_cons] at apart
    rw [List.mem_filter, open_.names, List.exists_mem_cons_iff, decide_eq_true_iff]
    constructor
    · rintro ⟨here | later, notHere⟩
      · exact absurd here notHere
      · exact later
    · rintro ⟨answer, isIn, isName⟩
      refine ⟨.inr ⟨answer, isIn, isName⟩, fun here => ?_⟩
      exact (List.nodup_append.mp apart).2.2 name here name
        (List.mem_flatten_of_mem (List.mem_map_of_mem isIn) isName) rfl
  nonempty answer isIn := open_.nonempty answer (List.mem_cons_of_mem _ isIn)
  apart := by
    have apart := open_.apart
    rw [List.map_cons, List.flatten_cons] at apart
    exact (List.nodup_append.mp apart).2.1
  noMinus answer isIn := open_.noMinus answer (List.mem_cons_of_mem _ isIn)

/-- Nothing is outstanding if and only if no answer is to come. -/
theorem Outstanding.eq_nil_iff {outstanding : List Bytes} {answers : List (List Bytes × Bool)}
    (open_ : Outstanding outstanding answers)
    : outstanding = [] ↔ answers = [] := by
  constructor
  · rintro rfl
    cases answers with
    | nil => rfl
    | cons answer answers =>
        obtain ⟨name, isName⟩ := List.exists_mem_of_ne_nil _
          (open_.nonempty answer List.mem_cons_self)
        exact absurd ((open_.names name).mpr ⟨answer, List.mem_cons_self, isName⟩)
          List.not_mem_nil
  · rintro rfl
    refine List.eq_nil_iff_forall_not_mem.mpr fun name isIn => ?_
    obtain ⟨_, isNone, _⟩ := (open_.names name).mp isIn
    exact absurd isNone List.not_mem_nil

/-- The task waits until the last answer has come, and goes on with it. By induction on how the
server answers.
-/
theorem answers_run {answers : List (List Bytes × Bool)} {events : List (Message × Client Num)}
    (replies : Answers answers events) {outstanding : List Bytes}
    (isAcking : task.phase = .acking outstanding) (some_ : answers ≠ [])
    (open_ : Outstanding outstanding answers)
    : ∃ phase, events.foldl (Negotiation.step env split wanted order) task
      = Negotiation.answered env
        { client := lastClient task.client events, phase
          caps := { task.caps with capsEnabled := enabledBy answers task.caps.capsEnabled } } := by
  induction replies generalizing task outstanding with
  | @idle answers irc client events idle _ later ih =>
      rw [List.foldl_cons, step_idle idle]
      exact @ih { task with client } _ isAcking some_ open_
  | @answer who text acknowledged answers client events later ih =>
      have same := @handle_eq split task.caps ⟨.cap, [who, verdict acknowledged, text]⟩ (by
        rintro _ ⟨⟩
        cases acknowledged <;> decide)
      have received := @receiveAck_answer _ env
        { task with client } outstanding who text acknowledged
        (open_.noMinus _ List.mem_cons_self)
      have steps : task.step env split wanted order
            (⟨.cap, [who, verdict acknowledged, text]⟩, client)
          = Negotiation.receiveAck env { task with client } outstanding
            ⟨.cap, [who, verdict acknowledged, text]⟩ := by
        rw [Negotiation.step, same, Negotiation.receive, isAcking]
      rw [List.foldl_cons, steps, received, Negotiation.await]
      have rest := open_.answer
      by_cases isLast : answers = []
      · subst isLast
        cases later with
        | idle _ open_ _ => exact absurd rfl open_
        | done => exact ⟨_, by rw [if_pos (rest.eq_nil_iff.mpr rfl)]; rfl⟩
      · rw [if_neg (fun none_ => isLast (rest.eq_nil_iff.mp none_))]
        obtain ⟨phase, runs⟩ := @ih
          { client, phase := .acking (outstanding.filter (· ∉ wordsOf text))
            caps := { task.caps with
              capsEnabled := enabledBy [(wordsOf text, acknowledged)] task.caps.capsEnabled } }
          _ rfl isLast rest
        refine ⟨phase, runs.trans ?_⟩
        have enabled : enabledBy answers
              (enabledBy [(wordsOf text, acknowledged)] task.caps.capsEnabled)
            = enabledBy ((wordsOf text, acknowledged) :: answers) task.caps.capsEnabled := by
          funext cap
          simp [enabledBy, Bool.or_assoc]
        simp only [enabled]
        rfl
  | done => exact absurd rfl some_

end Answering

-----------------------------------------------------------------------------------------
-- The whole negotiation
-----------------------------------------------------------------------------------------

section Negotiating

variable {Num : Type} {env : Environment Num} {split : Bytes → List Bytes} {wanted : Bytes → Bool}
  {order : (Bytes → Option TokenValue) → List Bytes}

/-- A text of plain characters can be sent behind `CAP`. -/
theorem accepted_cap {texts : List Bytes} (plain : ¬ BadTexts texts)
    (short : (lineOf (lit "CAP") texts).length ≤ 512)
    : ¬ Refused (lit "CAP") texts := by
  rintro (bad | long)
  · exact plain bad
  · exact absurd short (Nat.not_le.mpr long)

/-- `CAP LS 302` goes out. -/
theorem start_eq (env : Environment Num) (client : Client Num) (caps : Capabilities)
    : ∃ messages, Negotiation.start env client caps
      = {
        client := { client with
          sent := client.sent ++ [lineOf (lit "CAP") [lit "LS", lit "302"]], messages }
        caps, phase := .listing } := by
  have accepted : ¬ Refused (lit "CAP") [lit "LS", lit "302"] := by
    refine accepted_cap ?_ (by decide +kernel)
    rw [Sending.badTexts_cons, Sending.badTexts_singleton]
    unfold Breaks Sending.Trailing
    decide
  have sent := @send_of_other _ env client (lit "CAP")
    [.plain (.string (lit "LS")), .plain (.string (lit "302"))] (by decide) accepted
  exact ⟨_, by rw [Negotiation.start, sent]; rfl⟩

/-- The line that ends a negotiation. -/
def endLine : Bytes := lineOf (lit "CAP") [lit "END"]

/-- `CAP END` goes out. -/
theorem finish_eq (task : Negotiation Num)
    : ∃ messages, task.finish env
      = { task with
        client := { task.client with sent := task.client.sent ++ [endLine], messages }
        phase := .ended } := by
  have accepted : ¬ Refused (lit "CAP") [lit "END"] := by
    refine accepted_cap ?_ (by decide +kernel)
    rw [Sending.badTexts_singleton]
    unfold Breaks
    decide
  have sent := @send_of_other _ env task.client (lit "CAP") [.plain (.string (lit "END"))]
    (by decide) accepted
  exact ⟨_, by rw [Negotiation.finish, sent]; rfl⟩

/-- The lines of a request, group by group. -/
theorem sendReqs_groups (env : Environment Num) (client : Client Num) {names : List Bytes}
    (areNames : ∀ name ∈ names, CapName name)
    : ∃ (groups : List (List Bytes)) (messages : OrderedMap Bool Entry),
        sendReqs env names client
          = .ok () { client with sent := client.sent ++ groups.map reqLine, messages }
        ∧ groups.flatten = names
        ∧ ∀ group ∈ groups, group ≠ [] ∧ size group ≤ 502 := by
  obtain ⟨groups, last, messages, ends, whole, areGroups, lastFits⟩ :=
    @reqRounds_ends _ env names [] [] names rfl areNames (Nat.zero_le _) client
  obtain rfl : names = groups.flatten ++ last := whole
  have reads : sendReqs env (groups.flatten ++ last) client = _ := Action.bind_of_ok ends
  by_cases isEmpty : last = []
  · subst isEmpty
    refine ⟨groups, messages, ?_, (List.append_nil _).symm, areGroups⟩
    rw [reads, List.append_nil, List.nil_append, if_neg (Nat.not_succ_le_self _)]
    rfl
  · have inLast : ∀ name ∈ last, CapName name := fun name isIn =>
      areNames name (List.mem_append_right _ isIn)
    obtain ⟨messages', sent⟩ := sendReq_ends env
      { client with sent := client.sent ++ groups.map reqLine, messages } inLast isEmpty lastFits
    have more : groups.flatten.length + 1 ≤ (groups.flatten ++ last).length := by
      have positive := List.length_pos_iff.mpr isEmpty
      rw [List.length_append]
      omega
    have rest : concatRange (groups.flatten ++ last) (groups.flatten.length + 1)
        (groups.flatten ++ last).length = Sending.concat last := by
      rw [concatRange, List.take_length, Nat.add_sub_cancel, List.drop_left]
    refine ⟨groups ++ [last], messages', ?_, by simp, ?_⟩
    · rw [reads, List.nil_append, if_pos more, rest, sent, List.append_assoc, List.map_append]
      rfl
    · exact List.forall_mem_append.mpr
        ⟨areGroups, List.forall_mem_singleton.mpr ⟨isEmpty, lastFits⟩⟩

/-- `pairs` visits every capability that is there, once. -/
structure Visits (caps : Bytes → Option TokenValue) (order : List Bytes) : Prop where
  once : order.Nodup
  all : ∀ name, name ∈ order ↔ (caps name).isSome = true

/-- A name that can be requested and acknowledged. -/
structure WantedName (name : Bytes) : Prop extends CapName name where
  noMinus : name.head? ≠ some (chr '-')

/-- All that is supported can be wanted. -/
theorem wantedName_capsSupported {name : Bytes} (isIn : name ∈ capsSupported)
    : WantedName name := by
  have all : ∀ name ∈ capsSupported, name ≠ [] ∧ chr ' ' ∉ name
      ∧ name.head? ≠ some (chr ':') ∧ name.head? ≠ some (chr '-') ∧ name.length ≤ 501
      ∧ 0 ∉ name ∧ chr '\r' ∉ name ∧ chr '\n' ∉ name := by
    decide +kernel
  obtain ⟨nonempty, unspaced, uncoloned, noMinus, short, noNul, noCr, noLf⟩ := all name isIn
  refine { nonempty, unspaced, uncoloned, short, noMinus, unbroken := ?_ }
  rintro ⟨byte, isByte, isNul | isCr | isLf⟩
  · exact noNul (isNul ▸ isByte)
  · exact noCr (isCr ▸ isByte)
  · exact noLf (isLf ▸ isByte)

/-- What the answers to a request lead to: exactly what is acknowledged is enabled, and with the
last answer the negotiation ends, or an authentication begins.
-/
structure Settles (task after : Negotiation Num) (last : Client Num)
    (answers : List (List Bytes × Bool))
    : Prop where
  enabled : ∀ name, after.caps.capsEnabled name = true
    ↔ task.caps.capsEnabled name = true
      ∨ ∃ answer ∈ answers, answer.2 = true ∧ name ∈ answer.1
  ends : task.caps.saslCredentials = none ∨ after.caps.capsEnabled (lit "sasl") = false
    → after.phase = .ended ∧ after.client.sent = last.sent ++ [endLine]
  authenticates : ∀ credentials, task.caps.saslCredentials = some credentials
    → after.caps.capsEnabled (lit "sasl") = true
    → after.phase = .authenticating credentials ∧ after.client = last

/-- A request whose names are answered is settled. -/
theorem answers_settle {task : Negotiation Num} {answers : List (List Bytes × Bool)}
    {events : List (Message × Client Num)} (replies : Answers answers events)
    {request : List Bytes} (isAcking : task.phase = .acking request) (some_ : request ≠ [])
    (areNames : ∀ name ∈ request, WantedName name) (once : request.Nodup)
    (answered : (answers.map Prod.fst).flatten.Perm request)
    (nonempty : ∀ answer ∈ answers, answer.1 ≠ [])
    : Settles task (events.foldl (Negotiation.step env split wanted order) task)
        (lastClient task.client events) answers := by
  have names (name : Bytes) : name ∈ request ↔ ∃ answer ∈ answers, name ∈ answer.1 := by
    rw [← answered.mem_iff]
    simp
  have open_ : Outstanding request answers := {
    names, nonempty
    apart := answered.nodup_iff.mpr once
    noMinus := fun answer isIn word isWord =>
      (areNames word ((names word).mpr ⟨answer, isIn, isWord⟩)).noMinus }
  obtain ⟨phase, runs⟩ := @answers_run _ env split wanted order task answers events replies request
    isAcking (fun isNone => some_ (open_.eq_nil_iff.mpr isNone)) open_
  rw [runs]
  have enabled (name : Bytes) : enabledBy answers task.caps.capsEnabled name = true
      ↔ task.caps.capsEnabled name = true
        ∨ ∃ answer ∈ answers, answer.2 = true ∧ name ∈ answer.1 := by
    simp [enabledBy]
  obtain ⟨messages, isFinished⟩ := @finish_eq _ env
    { client := lastClient task.client events, phase
      caps := { task.caps with capsEnabled := enabledBy answers task.caps.capsEnabled } }
  cases areCredentials : task.caps.saslCredentials with
  | none =>
      rw [Negotiation.answered]
      simp only [areCredentials]
      rw [← areCredentials, isFinished]
      exact ⟨enabled, fun _ => ⟨rfl, rfl⟩, by rw [areCredentials]; nofun⟩
  | some credentials =>
      rw [Negotiation.answered]
      simp only [areCredentials]
      cases isSasl : enabledBy answers task.caps.capsEnabled (lit "sasl") with
      | true =>
          simp only [if_true]
          refine ⟨enabled, ?_, ?_⟩
          · rintro (isNone | isOff)
            · rw [areCredentials] at isNone
              cases isNone
            · exact absurd (isSasl.symm.trans isOff) (by decide)
          · intro others areOthers _
            obtain rfl := Option.some.inj (areCredentials.symm.trans areOthers)
            exact ⟨rfl, rfl⟩
      | false =>
          simp only [Bool.false_eq_true, if_false]
          rw [← areCredentials, isFinished]
          exact ⟨enabled, fun _ => ⟨rfl, rfl⟩, fun _ _ isOn => absurd (isSasl.symm.trans isOn)
            (by decide)⟩

/-- A server that offers two of the capabilities that are supported, in two texts. -/
def offeredTexts : List Bytes := [lit "batch vendor/unknown", lit "sasl=PLAIN"]

/-- The capabilities of that server in some order. -/
def offeredOrder (caps : Bytes → Option TokenValue) : List Bytes :=
  [lit "sasl", lit "vendor/unknown", lit "batch"].filter fun name => (caps name).isSome

/-- What that server offers by name. -/
theorem offered_offeredTexts (name : Bytes)
    : Offered offeredTexts name ↔ name ∈ [lit "sasl", lit "vendor/unknown", lit "batch"] := by
  have first : wordsOf (lit "batch vendor/unknown") = [lit "batch", lit "vendor/unknown"] := by
    decide +kernel
  have second : wordsOf (lit "sasl=PLAIN") = [lit "sasl=PLAIN"] := by decide +kernel
  have caps : capOf (lit "batch") = some (lit "batch", none)
      ∧ capOf (lit "vendor/unknown") = some (lit "vendor/unknown", none)
      ∧ capOf (lit "sasl=PLAIN") = some (lit "sasl", some (lit "PLAIN")) := by
    decide +kernel
  obtain ⟨batch, unknown, sasl⟩ := caps
  rw [Offered, offeredTexts]
  simp only [List.exists_mem_cons_iff, first, second, batch, unknown, sasl, Option.map_some,
    Option.some_inj, List.not_mem_nil, false_and, exists_false, or_false]
  simp only [List.mem_cons, List.not_mem_nil, or_false, @eq_comm _ name]
  tauto

end Negotiating

end Snowcone.Registration
