import Snowcone.Chat.Messages

/-! `send_reqs`: a request for many capabilities is cut into lines that fit. -/

namespace Snowcone.Registration

open Bytes
open Chat (Act Client Environment Entry send sentMsg send_of_other plainEnvironment welcomedClient)
open Components (OrderedMap)
open Sending (Breaks Trailing BadTexts Refused CommandWord Decodes wireParts concat lineOf textsOf
  isPlain_iff badTexts_cons badTexts_singleton lineOf_decodes concat_cons)

variable {Num : Type}

/-- `table.concat(request, ' ', first, last)`. -/
def concatRange (request : List Bytes) (first last : Nat) : Bytes :=
  concat ((request.take last).drop (first - 1))

/-- `send('CAP', 'REQ', text)`. -/
def sendReq (env : Environment Num) (text : Bytes) : Act Num Unit :=
  send env (lit "CAP") [.plain (.string (lit "REQ")), .plain (.string text)]

/-- The loop of `send_reqs`, from the `i`-th name on; it ends with the cursor. -/
def reqRounds (env : Environment Num) (request : List Bytes)
    : List Bytes → Nat → Nat → Nat → Act Num Nat
  | [], _, cursor, _ => pure cursor
  | x :: rest, i, cursor, size =>
      let n := 1 + x.length
      let size := size + n
      if size > 502 then
        if cursor < i then do
          sendReq env (concatRange request cursor (i - 1))
          reqRounds env request rest (i + 1) i n
        else throw (.raises "cap name too large")
      else reqRounds env request rest (i + 1) cursor size

/-- `send_reqs(request)`. -/
def sendReqs (env : Environment Num) (request : List Bytes) : Act Num Unit := do
  let cursor ← reqRounds env request request 1 1 0
  if cursor ≤ request.length then sendReq env (concatRange request cursor request.length)

/-- What the names of a request have to be like. -/
structure CapName (name : Bytes) : Prop where
  nonempty : name ≠ []
  unspaced : chr ' ' ∉ name
  uncoloned : name.head? ≠ some (chr ':')
  short : name.length ≤ 501
  unbroken : ¬ ∃ byte ∈ name, Breaks byte

/-- A name is no trailing argument. -/
theorem CapName.not_trailing {name : Bytes} (isName : CapName name) : ¬ Trailing name := by
  rintro (empty | space | colon)
  · exact isName.nonempty empty
  · exact isName.unspaced space
  · exact isName.uncoloned colon

/-- The room that names take in a line, each with a separator in front of it. -/
def size : List Bytes → Nat
  | [] => 0
  | name :: names => 1 + name.length + size names

/-- One more name takes its own room, by induction on the others. -/
theorem size_append (names : List Bytes) (name : Bytes)
    : size (names ++ [name]) = size names + (1 + name.length) := by
  induction names with
  | nil => simp [size]
  | cons first names ih =>
      rw [List.cons_append, size, size, ih]
      omega

/-- The line that asks for some capabilities. -/
def reqLine (names : List Bytes) : Bytes := lineOf (lit "CAP") [lit "REQ", concat names]

/-- The words of a text are as long as their room, but for the first separator. -/
theorem length_concat (name : Bytes) (names : List Bytes)
    : (concat (name :: names)).length + 1 = size (name :: names) := by
  rw [concat_cons, List.length_append]
  induction names generalizing name with
  | nil => simp [size, Nat.add_comm]
  | cons next names ih =>
      have later := ih next
      rw [size] at later ⊢
      simp only [List.flatMap_cons, List.length_append, List.length_cons, size] at later ⊢
      omega

/-- A break in a text is one in a word, since the separators are none. -/
theorem unbroken_concat {names : List Bytes} (areNames : ∀ name ∈ names, CapName name)
    : ¬ ∃ byte ∈ concat names, Breaks byte := by
  cases names with
  | nil => rintro ⟨_, ⟨⟩, _⟩
  | cons name names =>
      rw [concat_cons]
      rintro ⟨byte, isIn, breaks⟩
      rcases List.mem_append.mp isIn with inFirst | inRest
      · exact (areNames name List.mem_cons_self).unbroken ⟨byte, inFirst, breaks⟩
      · obtain ⟨next, among, isIn⟩ := List.mem_flatMap.mp inRest
        rcases List.mem_cons.mp isIn with rfl | inNext
        · exact absurd breaks (by unfold Breaks; decide)
        · exact (areNames next (List.mem_cons_of_mem name among)).unbroken ⟨byte, inNext, breaks⟩

/-- The arguments of the line for names are well formed. -/
theorem not_badTexts_req {names : List Bytes} (areNames : ∀ name ∈ names, CapName name)
    : ¬ BadTexts [lit "REQ", concat names] := by
  rw [badTexts_cons, badTexts_singleton]
  rintro (breaks | trailing | breaks)
  · revert breaks
    unfold Breaks
    decide
  · revert trailing
    unfold Trailing
    decide
  · exact unbroken_concat areNames breaks

/-- Names with enough room make a line that can be sent: one name needs no colon, and more
than one leave the room of the first separator to it.
-/
theorem length_reqLine {names : List Bytes} (areNames : ∀ name ∈ names, CapName name)
    (nonempty : names ≠ []) (fits : size names ≤ 502)
    : (reqLine names).length ≤ 512 := by
  have lengths : ∀ last : Bytes,
      (concat (lit "CAP" :: [lit "REQ", last]) ++ [chr '\r', chr '\n']).length
        = last.length + 10 := by
    intro last
    rw [concat_cons]
    simp [lit]
  cases names with
  | nil => exact absurd rfl nonempty
  | cons name names =>
      have measured := length_concat name names
      rw [reqLine, lineOf, Sending.bodyOf]
      cases names with
      | nil =>
          have isPlain := (isPlain_iff name).mpr (areNames name List.mem_cons_self).not_trailing
          have same : concat [name] = name := by simp [concat]
          rw [same, wireParts, wireParts, if_pos isPlain, lengths]
          simp only [size] at fits
          omega
      | cons next names =>
          rw [wireParts, wireParts]
          split
          · rw [lengths]
            omega
          · rw [lengths, List.length_cons]
            omega

/-- A request for some of the names is sent: its line is handed over and recorded. -/
theorem sendReq_ends (env : Environment Num) (client : Client Num) {names : List Bytes}
    (areNames : ∀ name ∈ names, CapName name) (nonempty : names ≠ []) (fits : size names ≤ 502)
    : ∃ messages, sendReq env (concat names) client
        = .ok () { client with sent := client.sent ++ [reqLine names], messages } := by
  have short := length_reqLine areNames nonempty fits
  have accepted : ¬ Refused (lit "CAP") [lit "REQ", concat names] := by
    rintro (bad | long)
    · exact not_badTexts_req areNames bad
    · exact absurd short (Nat.not_le.mpr long)
  exact ⟨_, send_of_other (by decide) accepted⟩

/-- The names of a range are those in the middle. -/
theorem concatRange_middle (front pending rest : List Bytes)
    : concatRange (front ++ pending ++ rest) (front.length + 1) (front.length + pending.length)
      = concat pending := by
  rw [concatRange, Nat.add_sub_cancel, ← List.length_append, List.take_left, List.drop_left]

/-- What the loop has done by its end: the names that were pending or still to come have gone out
in groups that fit, up to some that still fit themselves. By induction on the names to come.
-/
theorem reqRounds_ends (env : Environment Num) {request front pending rest : List Bytes}
    (split : request = front ++ pending ++ rest) (areNames : ∀ name ∈ request, CapName name)
    (fits : size pending ≤ 502) (client : Client Num)
    : ∃ (groups : List (List Bytes)) (last : List Bytes) (messages : OrderedMap Bool Entry),
        reqRounds env request rest (front.length + pending.length + 1) (front.length + 1)
            (size pending) client
          = .ok ((front ++ groups.flatten).length + 1)
            { client with sent := client.sent ++ groups.map reqLine, messages }
        ∧ pending ++ rest = groups.flatten ++ last
        ∧ (∀ group ∈ groups, group ≠ [] ∧ size group ≤ 502)
        ∧ size last ≤ 502 := by
  induction rest generalizing front pending client with
  | nil =>
      refine ⟨[], pending, client.messages, ?_, by simp, by simp, fits⟩
      simp only [List.map_nil, List.flatten_nil, List.append_nil]
      rfl
  | cons x rest ih =>
      have short : x.length ≤ 501 := (areNames x (by simp [split])).short
      rw [reqRounds]
      by_cases full : size pending + (1 + x.length) > 502
      · have some_pending : pending ≠ [] := by
          rintro rfl
          simp only [size] at full
          omega
        have behind : front.length + 1 < front.length + pending.length + 1 := by
          have := List.length_pos_iff.mpr some_pending
          omega
        obtain ⟨_, sent⟩ := sendReq_ends env client
          (fun name isIn => areNames name (by simp [split, isIn])) some_pending fits
        obtain ⟨groups, last, messages, ends, whole, areGroups, lastFits⟩ :=
          @ih (front ++ pending) [x] (by simp [split])
            (by simp only [size]; omega)
            { client with sent := client.sent ++ [reqLine pending], messages := _ }
        refine ⟨pending :: groups, last, messages, ?_, ?_, ?_, lastFits⟩
        · rw [if_pos full, if_pos behind, Nat.add_sub_cancel, split, concatRange_middle, ← split,
            Action.bind_of_ok sent]
          simpa [size, Nat.add_comm, Nat.add_left_comm] using ends
        · rw [List.flatten_cons, List.append_assoc, ← whole, List.singleton_append]
        · exact List.forall_mem_cons.mpr ⟨⟨some_pending, fits⟩, areGroups⟩
      · obtain ⟨groups, last, messages, ends, whole, areGroups, lastFits⟩ :=
          @ih front (pending ++ [x]) (by simp [split])
            (by rw [size_append]; omega) client
        refine ⟨groups, last, messages, ?_, ?_, areGroups, lastFits⟩
        · rw [if_neg full, ← size_append]
          simpa [Nat.add_assoc] using ends
        · rw [← whole, List.append_assoc, List.singleton_append]

/-- A line asks for some capabilities: it fits, and it is read back as `CAP REQ` with a text whose
words they are.
-/
structure AsksFor (line : Bytes) (names : List Bytes) : Prop where
  fits : line.length ≤ 512
  decodes : ∃ text,
    Decodes line { tags := [], source := [], command := lit "CAP", args := [lit "REQ", text] }
    ∧ text.splitOn (chr ' ') = names

/-- The line for some names asks for them. -/
theorem reqLine_asksFor {names : List Bytes} (areNames : ∀ name ∈ names, CapName name)
    (nonempty : names ≠ []) (fits : size names ≤ 502)
    : AsksFor (reqLine names) names := by
  have isWord : CommandWord (lit "CAP") := {
    nonempty := by decide
    plain := by decide
    unbroken := by unfold Breaks; decide
    unsourced := by decide
    untagged := by decide
  }
  exact {
    fits := length_reqLine areNames nonempty fits
    decodes := ⟨concat names, lineOf_decodes isWord (not_badTexts_req areNames),
      List.splitOn_intercalate _ (fun name isIn => (areNames name isIn).unspaced) nonempty⟩
  }

/-- Names without NUL, CR and LF are requested, whatever the client is: the lines that go out fit
and together ask for exactly these names in their order.
-/
theorem sendReqs_asksFor (env : Environment Num) (client : Client Num) {names : List Bytes}
    (areNames : ∀ name ∈ names, CapName name)
    : ∃ (groups : List (List Bytes)) (lines : List Bytes) (messages : OrderedMap Bool Entry),
        sendReqs env names client
          = .ok () { client with sent := client.sent ++ lines, messages }
        ∧ groups.flatten = names
        ∧ List.Forall₂ AsksFor lines groups := by
  obtain ⟨groups, last, messages, ends, whole, areGroups, lastFits⟩ :=
    @reqRounds_ends _ env names [] [] names rfl areNames (Nat.zero_le _) client
  obtain rfl : names = groups.flatten ++ last := whole
  have inLast : ∀ name ∈ last, CapName name := fun name isIn =>
    areNames name (List.mem_append_right _ isIn)
  have asks : List.Forall₂ AsksFor (groups.map reqLine) groups := by
    refine List.forall₂_map_left_iff.mpr (List.forall₂_same.mpr fun group isGroup => ?_)
    obtain ⟨nonempty, fits⟩ := areGroups group isGroup
    refine reqLine_asksFor (fun name isIn => areNames name ?_) nonempty fits
    exact List.mem_append_left _ (List.mem_flatten_of_mem isGroup isIn)
  have reads : sendReqs env (groups.flatten ++ last) client = _ := Action.bind_of_ok ends
  by_cases done : last = []
  · subst done
    refine ⟨groups, groups.map reqLine, messages, ?_, (List.append_nil _).symm, asks⟩
    rw [reads, if_neg]
    · rfl
    · rw [List.append_nil, List.nil_append]
      exact Nat.not_succ_le_self _
  · obtain ⟨messages', sent⟩ := sendReq_ends env
      { client with sent := client.sent ++ groups.map reqLine, messages } inLast done lastFits
    have more : groups.flatten.length + 1 ≤ (groups.flatten ++ last).length := by
      have := List.length_pos_iff.mpr done
      rw [List.length_append]
      omega
    have rest : concatRange (groups.flatten ++ last) (groups.flatten.length + 1)
        (groups.flatten ++ last).length = concat last := by
      rw [concatRange, List.take_length, Nat.add_sub_cancel, List.drop_left]
    refine ⟨groups ++ [last], groups.map reqLine ++ [reqLine last], messages', ?_, ?_, ?_⟩
    · rw [reads, List.nil_append, if_pos more, rest, sent, List.append_assoc]
    · rw [List.flatten_append, List.flatten_singleton]
    · exact List.rel_append asks (.cons (reqLine_asksFor inLast done lastFits) .nil)

/-- A long name. -/
def longName (c : Char) : Bytes := List.replicate 250 (chr c)

/-- Long names are names if their character can be part of one. -/
theorem longName_capName {c : Char} (unspaced : chr c ≠ chr ' ') (uncoloned : chr c ≠ chr ':')
    (unbroken : ¬ Breaks (chr c))
    : CapName (longName c) := {
  nonempty := List.cons_ne_nil _ _
  unspaced := fun isIn => unspaced (List.eq_of_mem_replicate isIn).symm
  uncoloned := fun isFirst => uncoloned (Option.some.inj isFirst)
  short := by
    rw [longName, List.length_replicate]
    decide
  unbroken := by
    rintro ⟨byte, isIn, breaks⟩
    exact unbroken (List.eq_of_mem_replicate isIn ▸ breaks)
}

/-- Two of three long names just fit into a line, and the third has one of its own. -/
theorem sendReqs_asksFor_witness
    : ∃ (groups : List (List Bytes)) (lines : List Bytes) (messages : OrderedMap Bool Entry),
        sendReqs plainEnvironment [longName 'a', longName 'b', longName 'c'] welcomedClient
          = .ok () { welcomedClient with sent := welcomedClient.sent ++ lines, messages }
        ∧ groups.flatten = [longName 'a', longName 'b', longName 'c']
        ∧ List.Forall₂ AsksFor lines groups
        ∧ lines.map List.length = [512, 260] := by
  have areNames : ∀ name ∈ [longName 'a', longName 'b', longName 'c'], CapName name :=
    List.forall_mem_cons.mpr ⟨longName_capName (by decide) (by decide) (by unfold Breaks; decide),
      List.forall_mem_cons.mpr ⟨longName_capName (by decide) (by decide) (by unfold Breaks; decide),
        List.forall_mem_singleton.mpr
          (longName_capName (by decide) (by decide) (by unfold Breaks; decide))⟩⟩
  obtain ⟨groups, lines, messages, ends, whole, asks⟩ :=
    sendReqs_asksFor plainEnvironment welcomedClient areNames
  refine ⟨groups, lines, messages, ends, whole, asks, ?_⟩
  have lengths : (match sendReqs plainEnvironment [longName 'a', longName 'b', longName 'c']
        welcomedClient with
      | .ok _ after => after.sent.map List.length
      | .error _ _ => []) = [512, 260] := by
    decide +kernel
  rw [ends] at lengths
  exact lengths

/-- A name with a line feed is refused, although it is not empty, starts with no colon, has no
space and is short. No message holds such a name: only a direct call of `M.REQ` asks for it.
-/
theorem sendReqs_counterexample
    : ¬ ∀ names : List Bytes, names.Nodup →
        (∀ name ∈ names, name ≠ [] ∧ chr ' ' ∉ name ∧ name.head? ≠ some (chr ':')
          ∧ name.length ≤ 501)
        → ∃ after, sendReqs plainEnvironment names welcomedClient = .ok () after := by
  intro sends
  obtain ⟨after, ends⟩ := sends [lit "a\nb"] (by decide) (by decide +kernel)
  have refused : Refused (lit "CAP") [lit "REQ", lit "a\nb"] :=
    Or.inl (Or.inl ⟨lit "a\nb", by decide, chr '\n', by decide, Or.inr (Or.inr rfl)⟩)
  obtain ⟨text, raises⟩ := @Chat.send_of_refused _ plainEnvironment welcomedClient _
    [.plain (.string (lit "REQ")), .plain (.string (lit "a\nb"))] refused
  have stops : sendReqs plainEnvironment [lit "a\nb"] welcomedClient
      = .error (.raises text) welcomedClient := raises
  rw [stops] at ends
  cases ends

end Snowcone.Registration
