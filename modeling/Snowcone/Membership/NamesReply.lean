import Snowcone.Membership.Tracking

/-! Reading a names reply and a `PREFIX` token: the patterns find the entries and the marks
that the server has written.
-/

namespace Snowcone.Membership

open Bytes LuaPattern
open Sending (irccase)

section Names

variable {presence : Presence} {state : IrcState}

/-- What the pattern takes from an entry: two of the marks are never part of it. -/
def NamesEntry.taken (entry : NamesEntry) : Bytes :=
  (entry.status.filter (fun c => c != chr '!' && c != chr '@')).toList ++ entry.nick

/-- A word and what servers may send behind it are one match. -/
theorem gmatch_word {word userhost rest : Bytes} {fresh : Bool}
    (plain : ∀ c ∈ word, c ≠ chr '!' ∧ c ≠ chr '@' ∧ c ≠ chr ' ') (nonempty : word ≠ [])
    (behind : userhost = [] ∨ ∃ text, userhost = chr '!' :: text ∧ chr ' ' ∉ text)
    (spaced : ∀ c ∈ rest.head?, c = chr ' ')
    : gmatchFrom entryPattern (word ++ userhost ++ rest) fresh
      = [word] :: gmatchFrom entryPattern rest false := by
  refine gmatchFrom_take ?_ (matchWhole_word ?_ nonempty ?_ ?_ ?_)
  · simp [nonempty]
  · intro c isIn
    simpa [and_assoc] using plain c isIn
  · intro c isHead
    rcases behind with rfl | ⟨text, rfl, -⟩
    · simp [spaced c isHead]
    · obtain rfl : chr '!' = c := by simpa using isHead
      simp
  · intro c isIn
    rcases behind with rfl | ⟨text, rfl, noSpace⟩
    · cases isIn
    · rcases List.mem_cons.mp isIn with rfl | later
      · decide
      · simpa using fun same : c = chr ' ' => noSpace (same ▸ later)
  · intro c isHead
    simp [spaced c isHead]

/-- An entry of a names reply is one match; a mark that cannot be part of it is skipped. -/
theorem gmatch_entry {marks : Bytes} {entry : NamesEntry} {rest : Bytes} {fresh : Bool}
    (wellFormed : entry.WellFormed marks) (spaced : ∀ c ∈ rest.head?, c = chr ' ')
    : gmatchFrom entryPattern (entry.text ++ rest) fresh
      = [entry.taken] :: gmatchFrom entryPattern rest false := by
  obtain ⟨status, nick, userhost⟩ := entry
  have word : ∀ fresh, gmatchFrom entryPattern (nick ++ userhost ++ rest) fresh
      = [nick] :: gmatchFrom entryPattern rest false := fun fresh =>
    gmatch_word wellFormed.plain wellFormed.nonempty wellFormed.userhost spaced
  cases status with
  | none => exact word fresh
  | some mark =>
      by_cases isTaken : (mark != chr '!' && mark != chr '@') = true
      · have taken : NamesEntry.taken { status := some mark, nick, userhost } = mark :: nick := by
          simp only [NamesEntry.taken, Option.filter_some, isTaken, if_true]
          rfl
        have plain : ∀ c ∈ mark :: nick, c ≠ chr '!' ∧ c ≠ chr '@' ∧ c ≠ chr ' ' := by
          intro c isIn
          rcases List.mem_cons.mp isIn with rfl | later
          · simp only [Bool.and_eq_true, bne_iff_ne] at isTaken
            exact ⟨isTaken.1, isTaken.2, (wellFormed.status c rfl).2⟩
          · exact wellFormed.plain c later
        rw [taken]
        exact gmatch_word plain (by simp) wellFormed.userhost spaced
      · have taken : NamesEntry.taken { status := some mark, nick, userhost } = nick := by
          simp only [NamesEntry.taken, Option.filter_some, if_neg isTaken]
          rfl
        rw [taken]
        calc gmatchFrom entryPattern (mark :: (nick ++ userhost ++ rest)) fresh
            = gmatchFrom entryPattern (nick ++ userhost ++ rest) true := by
              refine gmatchFrom_skip (matchWhole_word_none ?_)
              intro c isHead
              obtain rfl : mark = c := by simpa using isHead
              simp only [Bool.not_eq_true] at isTaken
              rw [isTaken, Bool.false_and]
          _ = [nick] :: gmatchFrom entryPattern rest false := word true

/-- Spaces are skipped. -/
theorem gmatch_space (rest : Bytes) (fresh : Bool)
    : gmatchFrom entryPattern (chr ' ' :: rest) fresh = gmatchFrom entryPattern rest true := by
  refine gmatchFrom_skip (matchWhole_word_none ?_)
  intro c isHead
  obtain rfl : chr ' ' = c := by simpa using isHead
  decide

/-- Nothing is found in spaces alone, by induction on their number. -/
theorem gmatch_spaces (spaces : Nat) (fresh : Bool)
    : gmatchFrom entryPattern (List.replicate spaces (chr ' ')) fresh = [] := by
  induction spaces generalizing fresh with
  | zero => exact gmatchFrom_nil (matchWhole_word_none (by simp))
  | succ spaces ih => rw [List.replicate_succ, gmatch_space, ih]

/-- The matches in a names reply are its entries, by induction on the entries. -/
theorem gmatch_names {marks : Bytes} {entries : List NamesEntry} {spaces : Nat} {fresh : Bool}
    (wellFormed : ∀ entry ∈ entries, entry.WellFormed marks)
    : gmatchFrom entryPattern (namesText spaces entries) fresh
      = entries.map (fun entry => [entry.taken]) := by
  induction entries generalizing fresh with
  | nil => exact gmatch_spaces spaces fresh
  | cons entry entries ih =>
      have isEntry := wellFormed entry (by simp)
      cases entries with
      | nil =>
          rw [namesText, gmatch_entry isEntry, gmatch_spaces]
          · rfl
          · intro c isHead
            cases spaces with
            | zero => cases isHead
            | succ spaces => simpa [List.replicate_succ, eq_comm] using isHead
      | cons second entries =>
          have later := fun e isIn => wellFormed e (List.mem_cons_of_mem entry isIn)
          rw [namesText, gmatch_entry isEntry (by simp), gmatch_space, ih later]
          · rfl
          · simp

/-- What is left of an entry behind its marks is the nick. -/
theorem stripPrefixes_taken {prefixToMode : Bytes → Option Bytes} {marks : Bytes}
    (areMarks : ∀ c, (prefixToMode [c]).isSome ↔ c ∈ marks) {entry : NamesEntry}
    (wellFormed : entry.WellFormed marks) (modes : Bytes → Bool)
    : ∃ modes', stripPrefixes prefixToMode entry.taken modes = some (entry.nick, modes') := by
  obtain ⟨status, nick, userhost⟩ := entry
  have bare : ∀ modes, stripPrefixes prefixToMode nick modes = some (nick, modes) := by
    intro modes
    cases nick with
    | nil => exact absurd rfl wellFormed.nonempty
    | cons c nick =>
        have isNone : prefixToMode [c] = none := by
          rw [← Option.not_isSome_iff_eq_none, areMarks]
          exact wellFormed.unmarked c rfl
        rw [stripPrefixes, isNone]
  cases status with
  | none => exact ⟨modes, bare modes⟩
  | some mark =>
      by_cases isTaken : (mark != chr '!' && mark != chr '@') = true
      · obtain ⟨mode, isMode⟩ :=
          Option.isSome_iff_exists.mp ((areMarks mark).mpr (wellFormed.status mark rfl).1)
        refine ⟨Function.update modes mode true, ?_⟩
        simp only [NamesEntry.taken, Option.filter_some, isTaken, if_true, Option.toList_some,
          List.singleton_append, stripPrefixes, isMode, bare]
      · refine ⟨modes, ?_⟩
        simp only [NamesEntry.taken, Option.filter_some, if_neg isTaken, Option.toList_none,
          List.nil_append, bare]

/-- One entry: its nick is present from now on. -/
theorem tracks_nameEntry (tracks : Tracks presence state) {name : Bytes} {entry : NamesEntry}
    (isJoined : irccase name ∈ presence.joined) (wellFormed : entry.WellFormed presence.marks)
    : ∃ state', nameEntry name state entry.taken = some state'
      ∧ Tracks (presence.enter (irccase name) (irccase entry.nick)) state' := by
  obtain ⟨modes, stripped⟩ := stripPrefixes_taken tracks.marks wellFormed (fun _ => false)
  obtain ⟨state', edited, after⟩ := tracks.enter isJoined entry.nick modes
  refine ⟨state', ?_, after⟩
  simpa [nameEntry, stripped] using edited

/-- `RPL_NAMREPLY`, by induction on the entries. -/
theorem tracks_nameEntries (tracks : Tracks presence state) {name : Bytes}
    {entries : List NamesEntry} (isJoined : irccase name ∈ presence.joined)
    (wellFormed : ∀ entry ∈ entries, entry.WellFormed presence.marks)
    : ∃ state', (entries.map NamesEntry.taken).foldlM (nameEntry name) state = some state'
      ∧ Tracks (entries.foldl (fun presence entry =>
          presence.enter (irccase name) (irccase entry.nick)) presence) state' := by
  induction entries generalizing presence state with
  | nil => exact ⟨state, rfl, tracks⟩
  | cons entry entries ih =>
      obtain ⟨middle, added, between⟩ :=
        tracks_nameEntry tracks isJoined (wellFormed entry (by simp))
      obtain ⟨state', later, after⟩ := ih between isJoined
        (fun other isIn => wellFormed other (List.mem_cons_of_mem entry isIn))
      refine ⟨state', ?_, after⟩
      rw [List.map_cons, List.foldlM_cons, added]
      exact later

/-- `RPL_NAMREPLY`. -/
theorem tracks_names (tracks : Tracks presence state) {client symbol channel : Bytes}
    {entries : List NamesEntry} {spaces : Nat}
    (consistent : presence.Consistent (.names client symbol channel entries spaces))
    : ∃ state', deliver state (.names client symbol channel entries spaces) = some state'
      ∧ Tracks (presence.after (.names client symbol channel entries spaces)) state' := by
  obtain ⟨isJoined, wellFormed⟩ := consistent
  obtain ⟨state', added, after⟩ := tracks_nameEntries tracks isJoined wellFormed
  refine ⟨state', ?_, after⟩
  have found : (gmatch entryPattern (namesText spaces entries)).flatten
      = entries.map NamesEntry.taken := by
    rw [gmatch, gmatch_names wellFormed, ← List.flatMap_def, List.map_eq_flatMap]
  change (gmatch entryPattern (namesText spaces entries)).flatten.foldlM (nameEntry channel)
    state = some state'
  rw [found, added]

-----------------------------------------------------------------------------------------
-- PREFIX
-----------------------------------------------------------------------------------------

/-- A text with one closing parenthesis is taken apart there in one way only. -/
theorem split_at_parenthesis {modes marks modes' marks' : Bytes} (notInModes : chr ')' ∉ modes)
    (notInMarks : chr ')' ∉ marks)
    (same : modes ++ chr ')' :: marks = modes' ++ chr ')' :: marks')
    : modes' = modes ∧ marks' = marks := by
  rcases List.append_eq_append_iff.mp same with ⟨more, rfl, rest⟩ | ⟨more, rfl, rest⟩
  · cases more with
    | nil => exact ⟨List.append_nil _, (List.cons.inj rest).2.symm⟩
    | cons c more => exact absurd (by simp [(List.cons.inj rest).2]) notInMarks
  · cases more with
    | nil => exact ⟨(List.append_nil _).symm, (List.cons.inj rest).2⟩
    | cons c more => exact absurd (by simp [(List.cons.inj rest).1]) notInModes

/-- The pattern of a `PREFIX` token. -/
theorem fits_prefixPattern_iff {subject : Bytes} {result : List Bytes}
    : Fits prefixPattern subject [] result
      ↔ ∃ modes marks, subject = lit "(" ++ modes ++ lit ")" ++ marks
        ∧ result = [modes, marks] := by
  have none_ : ∀ capture ∈ ([] : List (Capture Byte)), capture.finished = true := by simp
  have one (modes : Bytes) : ∀ capture ∈ [({ text := modes, finished := true } : Capture Byte)],
      capture.finished = true := by
    simp
  simp only [prefixPattern, List.append_assoc, fits_literal_iff, extend_finished none_,
    extend_finished (one _), List.cons_append, List.nil_append, fits_capture_iff none_,
    fits_capture_iff (one _), fits_endOfSubject_iff, fits_nil_iff, Repeat.Allows, true_and,
    implies_true, List.map_cons, List.map_nil]
  constructor
  · rintro ⟨_, rfl, modes, _, rfl, _, rfl, marks, _, rfl, rfl, rfl⟩
    exact ⟨modes, marks, by simp, rfl⟩
  · rintro ⟨modes, marks, rfl, rfl⟩
    exact ⟨_, rfl, modes, _, rfl, _, rfl, marks, [], by simp, rfl, rfl⟩

/-- The table of a `PREFIX` token has its marks, by induction on the modes. -/
theorem prefixTable_isSome {modes marks : Bytes} (sameLength : modes.length = marks.length)
    (table : Bytes → Option Bytes) (c : Byte)
    : (prefixTable modes marks table [c]).isSome ↔ c ∈ marks ∨ (table [c]).isSome := by
  induction modes generalizing marks table with
  | nil =>
      obtain rfl := List.length_eq_zero_iff.mp sameLength.symm
      simp [prefixTable]
  | cons mode modes ih =>
      cases marks with
      | nil => cases sameLength
      | cons mark marks =>
          rw [prefixTable, List.tail_cons, ih (Nat.succ.inj sameLength), Function.update_apply]
          by_cases same : c = mark
          · simp [same]
          · simp [same]

/-- `PREFIX` in the server's features. -/
theorem tracks_statusMarks (tracks : Tracks presence state) {modes marks : Bytes}
    (consistent : presence.Consistent (.statusMarks modes marks))
    : ∃ state', deliver state (.statusMarks modes marks) = some state'
      ∧ Tracks (presence.after (.statusMarks modes marks)) state' := by
  obtain ⟨sameLength, notInModes, notInMarks⟩ := consistent
  have found : stringMatch prefixPattern (lit "(" ++ modes ++ lit ")" ++ marks)
      = some [modes, marks] := by
    refine stringMatch_eq_some (fits_prefixPattern_iff.mpr ⟨modes, marks, rfl, rfl⟩) ?_
    intro other fits
    obtain ⟨modes', marks', same, rfl⟩ := fits_prefixPattern_iff.mp fits
    have split : modes ++ chr ')' :: marks = modes' ++ chr ')' :: marks' := by
      simpa [lit] using same
    obtain ⟨rfl, rfl⟩ := split_at_parenthesis notInModes notInMarks split
    rfl
  refine ⟨{ state with prefixToMode := prefixTable modes marks (fun _ => none) }, ?_,
    { tracks with marks := ?_ }⟩
  · rw [deliver, isupportPrefix, found]
  · intro c
    rw [prefixTable_isSome sameLength]
    simp [Presence.after]

end Names

end Snowcone.Membership
